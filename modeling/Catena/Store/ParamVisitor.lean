import Catena.Common.Escape
import Catena.Framework.Preorder
import Catena.Store.Invariant
import Catena.Store.ParamProto
import Catena.Store.Pointer

/-!
# Visiting parameters

`ParamVisitor::traverseParams` visits a parameter and everything below it. It finds the elements
of an array and the sub-parameters by printing their oids and resolving the texts from the
device again. The elements of an array share its descriptor, so that they are taken for arrays
themselves; the descriptors of inactive alternatives are tried as well.
-/

namespace Catena.Store

/-- The types for which `isArrayType` holds. -/
def ParamType.isArray : ParamType → Bool
  | .structArray | .int32Array | .float32Array | .stringArray | .structVariantArray => true
  | _ => false

namespace Node

/-- `isArrayType`, which asks the descriptor. -/
def isArrayType (n : Node) : Bool := n.descriptor.type.isArray

/-- `size_` on the value. -/
def size : Node → Nat
  | ⟨.empty _ _, _, _⟩ => 0
  | ⟨.elem e, _, v⟩ => e.size v
  | ⟨.vector _, _, v⟩ => List.length v

/-- `uint32_t array_length = param->size()`, when the parameter is an array. -/
def arrayLength (n : Node) : Nat := if n.isArrayType then n.size % 2 ^ 32 else 0

end Node

/-- What a visitor is told: a parameter and the text of its path, or the length of an array. -/
inductive Visit where
  | visit (param : Node) (path : String)
  | visitArray (param : Node) (path : String) (length : Nat)

/-- Why a traversal stops: an exception, or the depth that the model allows. -/
inductive Stop where
  | threw (why : Thrown)
  | outOfFuel

/-- Run the body of a loop on every item and collect what it visits. -/
def collect {ι : Type} (body : ι → Except Stop (List Visit)) :
    List ι → Except Stop (List Visit)
  | [] => .ok []
  | item :: items => do
      let visits ← body item
      let rest ← collect body items
      return visits ++ rest

/-- What `Path::push_back` makes of a string. -/
def Path.escaped (segment : String) : String := String.ofList (Common.escape_ segment.toList)

namespace Device

/-- Resolve the path with a segment pushed onto it, and go on with the parameter if it is found
and may be read. -/
def traverseChild (d : Device) (s : d.State) (authz : Authorizer)
    (traverse : Param d.State → String → Except Stop (List Visit)) (path segment : String) :
    Except Stop (List Visit) :=
  match Path.parse path with
  | .error why => .error (.threw why)
  | .ok segments =>
      let childPath := Path.fqoid segments ++ "/" ++ Path.escaped segment
      match d.getParamByOid s childPath authz with
      | .error _ => .ok []
      | .ok param => if authz.readAuthz param.descriptor then traverse param childPath else .ok []

/-- `ParamVisitor::traverseParams`, down to a depth: what the visitor is told, in order. -/
def traverseParams (d : Device) (s : d.State) (authz : Authorizer) :
    Nat → Param d.State → String → Except Stop (List Visit)
  | 0, _, _ => .error .outOfFuel
  | fuel + 1, param, path => do
      let arrayLength := param.node.arrayLength
      let elements ← collect (fun i =>
        d.traverseChild s authz (d.traverseParams s authz fuel) path (toString i))
        (List.range arrayLength)
      let children ← collect (fun name =>
        if name = "" ∨ startsWith name "/" = true then .ok []
        else d.traverseChild s authz (d.traverseParams s authz fuel) path name)
        param.ty.subParams.names
      let array := if 0 < arrayLength then [Visit.visitArray param.node path arrayLength] else []
      return .visit param.node path :: array ++ elements ++ children

end Device

mutual

/-- How many levels of parameters there are at most. -/
def Ty.height : Ty → Nat
  | .empty _ subParams => subParams.height + 1
  | .elem e => e.height
  | .vector e => e.height + 1

def ElemTy.height : ElemTy → Nat
  | .struct fields => fields.height + 1
  | .variant _ _ ty alternatives => max ty.height alternatives.height + 1
  | _ => 1

def Fields.height : Fields → Nat
  | .nil => 0
  | .cons _ _ ty rest => max ty.height rest.height

end

/-- The depth that is enough for every traversal. -/
def Device.depth (d : Device) : Nat := d.params.height + 1

end Catena.Store
