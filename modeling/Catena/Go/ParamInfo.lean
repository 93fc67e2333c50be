import Mathlib.Data.Char
import Mathlib.Data.Finmap
import Mathlib.Data.List.Lex
import Mathlib.Data.List.Sort
import Catena.Framework.FilePath
import Catena.Framework.Map
import Catena.Go.Status

/-!
# Param infos

`ParamInfosForRequest` lists the params of a device definition, a `map[string]any` with maps in
it at every level. A listing goes through the keys of a map in their order and skips what is not
a map. A request for one param walks down by the parts of its oid instead. What it finds is the
part of the full listing that lies at and below the oid.
-/

namespace Catena.Go

open Catena.Framework

/-- A value of type `any`, as far as `param_info.go` tells them apart. A map is the list of its
entries in some order; a `map[string]string` that is nil is `none`, an array or a slice is its
length. -/
inductive Any where
  | map (m : List (Text × Any))
  | strings (m : Option (List (Text × Text)))
  | string (s : Text)
  | paramType (t : Int32)
  | list (length : Nat)
  | other

/-- A `map[string]any`. -/
abbrev AnyMap : Type := List (Text × Any)

/-- A `map[string]string` without an order. -/
abbrev PolyglotText : Type := Finmap fun _ : Text => Text

/-- `protos.ParamInfoResponse`. -/
structure ParamInfo where
  oid : Text
  name : Option PolyglotText
  type : Int32
  templateOid : Text
  arrayLength : UInt32

/-! ## One param -/

def displayStringsOf (displayStrings : AnyMap) : PolyglotText :=
  displayStrings.foldl (fun name e =>
    match e.2 with
    | .string s => name.insert e.1 s
    | _ => name) ∅

def polyglotOf (displayStrings : List (Text × Text)) : PolyglotText :=
  displayStrings.foldl (fun name e => name.insert e.1 e.2) ∅

def paramDisplayName (paramInfo : AnyMap) : Option PolyglotText :=
  match paramInfo.lookup "name".toList with
  | some (.map nameInfo) =>
      match nameInfo.lookup "display_strings".toList with
      | some (.strings displayStrings) => displayStrings.map polyglotOf
      | some (.map displayStrings) =>
          let name := displayStringsOf displayStrings
          if name = ∅ then none else some name
      | _ => none
  | _ => none

def isArrayParamType (paramType : Int32) : Bool :=
  paramType = 14 || paramType = 16 || paramType = 17 || paramType = 32 || paramType = 33

def repeatedFieldLength : Option Any → Option UInt32
  | some (.list length) => some (UInt32.ofNat length)
  | _ => none

/-- The keys of the value of an array param and of the list in it. -/
def arrayFields : List (Text × Text) :=
  [("int32_array_values".toList, "ints".toList), ("float32_array_values".toList, "floats".toList),
    ("string_array_values".toList, "strings".toList),
    ("struct_array_values".toList, "struct_values".toList),
    ("struct_variant_array_values".toList, "struct_variants".toList)]

def paramArrayLength (paramInfo : AnyMap) : UInt32 :=
  match paramInfo.lookup "type".toList with
  | some (.paramType paramType) =>
      if isArrayParamType paramType then
        match paramInfo.lookup "value".toList with
        | some (.map value) =>
            (arrayFields.findSome? fun field =>
              match value.lookup field.1 with
              | some (.map list) => repeatedFieldLength (list.lookup field.2)
              | _ => none).getD 0
        | _ => 0
      else 0
  | _ => 0

def newParamInfoFromDescriptor (oid : Text) (paramInfo : AnyMap) : ParamInfo where
  oid
  name := paramDisplayName paramInfo
  type :=
    match paramInfo.lookup "type".toList with
    | some (.paramType paramType) => paramType
    | _ => 0
  templateOid :=
    match paramInfo.lookup "template_oid".toList with
    | some (.string templateOid) => templateOid
    | _ => []
  arrayLength := paramArrayLength paramInfo

/-! ## The listing -/

/-- The params below a param, `none` if there are none. -/
def childParamMap (paramInfo : AnyMap) : Option AnyMap :=
  match paramInfo.lookup "params".toList with
  | some (.map children) => some children
  | _ => none

def sortedKeys (params : AnyMap) : List Text := (params.map Prod.fst).insertionSort (· ≤ ·)

theorem sizeOf_lookup {m : AnyMap} {key : Text} {a : Any} (h : m.lookup key = some a) :
    sizeOf a < sizeOf m := by
  have hlt := List.sizeOf_lt_of_mem (mem_of_lookup h)
  rw [Prod.mk.sizeOf_spec] at hlt
  omega

theorem sizeOf_childParamMap {params paramInfo children : AnyMap} {key : Text}
    (h : params.lookup key = some (.map paramInfo)) (h' : childParamMap paramInfo = some children) :
    sizeOf children < sizeOf params := by
  have hinfo := sizeOf_lookup h
  rw [childParamMap] at h'
  split at h'
  · rename_i hlookup
    obtain rfl := Option.some.inj h'
    have hchildren := sizeOf_lookup hlookup
    rw [Any.map.sizeOf_spec] at hinfo hchildren
    omega
  · cases h'

def flattenParamInfos (params : AnyMap) (base : Text) (recursive : Bool) : List ParamInfo :=
  (sortedKeys params).flatMap fun key =>
    match _h : params.lookup key with
    | some (.map paramInfo) =>
        let oid := if base ≠ [] then base ++ '/' :: key else key
        newParamInfoFromDescriptor oid paramInfo ::
          if recursive then
            match _h' : childParamMap paramInfo with
            | some children => flattenParamInfos children oid true
            | none => []
          else []
    | _ => []
termination_by sizeOf params
decreasing_by exact sizeOf_childParamMap _h _h'

/-- The loop of `findParamDescriptor` over the parts of the path that are left. -/
def findFrom : List Text → AnyMap → AnyMap → Option AnyMap
  | [], paramInfo, _ => some paramInfo
  | part :: pathParts, _, params =>
      match params.lookup part with
      | some (.map paramInfo) =>
          findFrom pathParts paramInfo ((childParamMap paramInfo).getD [])
      | _ => none

def findParamDescriptor (params : AnyMap) (oid : Text) : Option AnyMap :=
  if oid = [] then none else findFrom (FilePath.components oid) [] params

/-- `paramInfosForRequest`, the unexported one. -/
def paramInfosOf (params : AnyMap) (oid : Text) (recursive : Bool) :
    Except StatusResult (List ParamInfo) :=
  if oid = [] then .ok (flattenParamInfos params [] recursive)
  else
    match findParamDescriptor params oid with
    | none => .error ⟨.notFound, "param not found: " ++ String.ofList oid⟩
    | some paramInfo =>
        .ok <| newParamInfoFromDescriptor oid paramInfo ::
          if recursive then
            match childParamMap paramInfo with
            | some children => flattenParamInfos children oid true
            | none => []
          else []

def trimSlash : Text → Text
  | '/' :: oid => oid
  | oid => oid

def paramInfosForRequest (fqoid : Text) (deviceDefinition : AnyMap) (recursive : Bool) :
    Except StatusResult (List ParamInfo) :=
  match deviceDefinition.lookup "params".toList with
  | some (.map params) => paramInfosOf params (trimSlash fqoid) recursive
  | _ => .error ⟨.internal, "invalid device params structure"⟩

end Catena.Go
