import Catena.Store.Constraint

/-!
# Descriptors, value types and authorization

The code generator emits one C++ type and one descriptor for every node of a device model,
so the two trees are kept as one: a node of `Fields` carries the attributes of its
descriptor and the type of its value. The values of a type are computed from the type, and a
value that does not fit its descriptor cannot be written down.
-/

namespace Catena.Store

/-- `st2138::ParamType`. -/
inductive ParamType where
  | undefined
  | empty
  | int32
  | float32
  | string
  | struct
  | structVariant
  | int32Array
  | float32Array
  | stringArray
  | structArray
  | structVariantArray
  | binary
  | data
  deriving DecidableEq, Repr

/-- `PolyglotText`: a text in several languages. -/
abbrev PolyglotText : Type := List (String × String)

/-- The members of a constraint that only its serialization reads: a display range other than
the range itself, and the names of the choices, in order. -/
structure ConstraintTexts where
  oid : String := ""
  shared : Bool := false
  displayInt : Option (Int32 × Int32) := none
  displayFloat : Option (Float32 × Float32) := none
  names : List PolyglotText := []

/-- The constructor arguments of `ParamDescriptor`. -/
structure Descriptor where
  oid : String
  scope : String := ""
  readOnly : Bool := false
  constraint : Option Constraint := none
  maxLength : Nat := 0
  totalLength : Nat := 0
  minimalSet : Bool := false
  isCommand : Bool := false
  oidAliases : List String := []
  name : PolyglotText := []
  widget : String := ""
  stateless : Bool := false
  templateOid : String := ""
  response : Bool := false
  precision : UInt32 := 0
  constraintTexts : ConstraintTexts := {}

mutual

/-- The C++ type of a parameter's value. A parameter without a value is an `EmptyValue`
whose descriptor may still have any type and any sub-parameters. -/
inductive Ty where
  | empty (type : ParamType) (subParams : Fields)
  | elem (e : ElemTy)
  | vector (e : ElemTy)

/-- The types that may be the element type of a vector. `std::variant` has at least one
alternative. -/
inductive ElemTy where
  | int32
  | float
  | string
  | struct (fields : Fields)
  | variant (name : String) (info : Descriptor) (ty : Ty) (alternatives : Fields)

/-- Named sub-parameters: the fields of a struct or the alternatives of a variant. -/
inductive Fields where
  | nil
  | cons (name : String) (info : Descriptor) (ty : Ty) (rest : Fields)

end

mutual

def Ty.Val : Ty → Type
  | .empty _ _ => Unit
  | .elem e => e.Val
  | .vector e => List e.Val

def ElemTy.Val : ElemTy → Type
  | .int32 => Int32
  | .float => Float32
  | .string => String
  | .struct fields => fields.Vals
  | .variant _ _ ty alternatives => ty.Val ⊕ alternatives.Alt

def Fields.Vals : Fields → Type
  | .nil => Unit
  | .cons _ _ ty rest => ty.Val × rest.Vals

def Fields.Alt : Fields → Type
  | .nil => Empty
  | .cons _ _ ty rest => ty.Val ⊕ rest.Alt

end

mutual

/-- The value-initialized value of a type, `T{}`. -/
def Ty.default : (t : Ty) → t.Val
  | .empty _ _ => ()
  | .elem e => e.default
  | .vector _ => ([] : List _)

def ElemTy.default : (e : ElemTy) → e.Val
  | .int32 => (0 : Int32)
  | .float => (0 : Float32)
  | .string => ("" : String)
  | .struct fields => fields.default
  | .variant _ _ ty _ => Sum.inl ty.default

def Fields.default : (fields : Fields) → fields.Vals
  | .nil => ()
  | .cons _ _ ty rest => (ty.default, rest.default)

end

/-- The declared type of a parameter with this value type. -/
def Ty.paramType : Ty → ParamType
  | .empty type _ => type
  | .elem .int32 => .int32
  | .elem .float => .float32
  | .elem .string => .string
  | .elem (.struct _) => .struct
  | .elem (.variant ..) => .structVariant
  | .vector .int32 => .int32Array
  | .vector .float => .float32Array
  | .vector .string => .stringArray
  | .vector (.struct _) => .structArray
  | .vector (.variant ..) => .structVariantArray

/-- `getAllSubParams`: the descriptors below a node, whatever its value. -/
def Ty.subParams : Ty → Fields
  | .empty _ fields => fields
  | .elem (.struct fields) | .vector (.struct fields) => fields
  | .elem (.variant name info ty alternatives)
  | .vector (.variant name info ty alternatives) => .cons name info ty alternatives
  | _ => .nil

def Fields.names : Fields → List String
  | .nil => []
  | .cons name _ _ rest => name :: rest.names

/-- The device-wide defaults a descriptor falls back to. -/
structure DeviceDefaults where
  defaultScope : String
  defaultMaxLength : Nat := 1024
  defaultTotalLength : Nat := 1024

/-- A descriptor in its place: its own attributes and those of its ancestors, nearest
first. -/
structure ParamDescriptor where
  type : ParamType
  info : Descriptor
  parents : List Descriptor
  dev : DeviceDefaults

namespace ParamDescriptor

/-- The descriptor of a sub-parameter, whose `parent_` is this descriptor. -/
def getSubParam (pd : ParamDescriptor) (info : Descriptor) (ty : Ty) : ParamDescriptor :=
  ⟨ty.paramType, info, pd.info :: pd.parents, pd.dev⟩

def getOid (pd : ParamDescriptor) : String := pd.info.oid

def getConstraint (pd : ParamDescriptor) : Option Constraint := pd.info.constraint

/-- `readOnly`: the flag of the descriptor or of any ancestor. -/
def readOnly (pd : ParamDescriptor) : Bool :=
  pd.info.readOnly || pd.parents.any Descriptor.readOnly

def scopeOf (defaultScope : String) : List Descriptor → String
  | [] => defaultScope
  | info :: parents => if info.scope = "" then scopeOf defaultScope parents else info.scope

/-- `getScope`: the nearest scope up the tree, else the default scope of the device. -/
def getScope (pd : ParamDescriptor) : String :=
  scopeOf pd.dev.defaultScope (pd.info :: pd.parents)

def maxLength (pd : ParamDescriptor) : Nat :=
  if 0 < pd.info.maxLength then pd.info.maxLength else pd.dev.defaultMaxLength

def totalLength (pd : ParamDescriptor) : Nat :=
  if 0 < pd.info.totalLength then pd.info.totalLength else pd.dev.defaultTotalLength

end ParamDescriptor

/-- `Scopes_e`. -/
inductive Scopes where
  | kUndefined
  | kMonitor
  | kOperate
  | kConfig
  | kAdmin
  deriving DecidableEq, Repr

/-- The forward map of `Scopes`. -/
def Scopes.toString : Scopes → String
  | .kUndefined => "undefined"
  | .kMonitor => "st2138:mon"
  | .kOperate => "st2138:op"
  | .kConfig => "st2138:cfg"
  | .kAdmin => "st2138:adm"

/-- `Authorizer`: the client's scopes, or the object that disables authorization. -/
structure Authorizer where
  disabled : Bool
  clientScopes : List String

namespace Authorizer

/-- `Authorizer::kAuthzDisabled`. -/
def kAuthzDisabled : Authorizer := ⟨true, [""]⟩

def hasAuthz (authz : Authorizer) (scope : String) : Bool :=
  authz.disabled || authz.clientScopes.contains scope

def writeAuthzScope (authz : Authorizer) (scope : String) : Bool := authz.hasAuthz (scope ++ ":w")

def readAuthzScope (authz : Authorizer) (scope : String) : Bool :=
  authz.hasAuthz scope || authz.writeAuthzScope scope

def writeAuthz (authz : Authorizer) (pd : ParamDescriptor) : Bool :=
  !pd.readOnly && authz.writeAuthzScope pd.getScope

def readAuthz (authz : Authorizer) (pd : ParamDescriptor) : Bool :=
  authz.readAuthzScope pd.getScope

end Authorizer

mutual

/-- Names are pairwise distinct at every level, as member names and map keys are. -/
def Ty.WellFormed : Ty → Prop
  | .empty _ fields => fields.WellFormed
  | .elem e => e.WellFormed
  | .vector e => e.WellFormed

def ElemTy.WellFormed : ElemTy → Prop
  | .struct fields => fields.WellFormed
  | .variant name _ ty alternatives =>
      name ∉ alternatives.names ∧ ty.WellFormed ∧ alternatives.WellFormed
  | _ => True

def Fields.WellFormed : Fields → Prop
  | .nil => True
  | .cons name _ ty rest => name ∉ rest.names ∧ ty.WellFormed ∧ rest.WellFormed

end

end Catena.Store
