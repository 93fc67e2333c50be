import Catena.Store.Path
import Catena.Store.StructInfo

/-!
# Parameters

A `ParamWithValue<T>` refers to a value inside the device. Here such a reference is the value
it denotes now together with `assign`, which returns the device with another value written
through the reference. The size trackers start out null in every parameter handed to a
caller: the parameters stored in the device never receive one, since `validateSetValue` only
ever runs on copies, and a tracker is created in the copy it runs on.
-/

namespace Catena.Store

open ExceptionWithStatus (ok)

/-- A reference of type `ParamWithValue<T>` into a store of type `R`. -/
structure Param (R : Type) where
  ty : Ty
  descriptor : ParamDescriptor
  value : ty.Val
  assign : ty.Val → R
  mSizeTracker : Option Nat := none
  tSizeTracker : Option (List Nat) := none

/-- A reference to one member of a struct or of a variant. -/
structure MemberRef (R : Type) where
  info : Descriptor
  ty : Ty
  value : ty.Val
  put : ty.Val → R

/-- `findParamByName_`: the first field with the name. -/
def Fields.findParamByName :
    (fields : Fields) → fields.Vals → String → Option (MemberRef fields.Vals)
  | .nil, _, _ => none
  | .cons field info ty rest, (x, xs), name =>
      if field = name then some ⟨info, ty, x, fun y => (y, xs)⟩
      else (rest.findParamByName xs name).map fun member =>
        ⟨member.info, member.ty, member.value, fun y => (x, member.put y)⟩

/-- `std::visit`: the name of the alternative a variant holds, and a reference to it. -/
def Fields.visit :
    (alternatives : Fields) → alternatives.Alt → String × MemberRef alternatives.Alt
  | .nil, v => Empty.elim v
  | .cons name info ty rest, v =>
      match v with
      | .inl x => (name, ⟨info, ty, x, Sum.inl⟩)
      | .inr y =>
          let member := rest.visit y
          (member.1, ⟨member.2.info, member.2.ty, member.2.value, fun z => .inr (member.2.put z)⟩)

/-- The descriptor of a sub-parameter in the map of its parent. -/
def Fields.find : Fields → String → Option (Descriptor × Ty)
  | .nil, _ => none
  | .cons field info ty rest, name => if field = name then some (info, ty) else rest.find name

def ElemTy.hasSubParams : ElemTy → Bool
  | .struct _ | .variant .. => true
  | _ => false

def Segment.key : Segment → String
  | .index i => toString i
  | .name oid => oid

/-- `ParamWithValue::getParam` and its `getParam_` overloads. `fqoid` is the whole path, for
the messages; the list holds the segments not walked yet. -/
def getParam {R : Type} (authz : Authorizer) (fqoid : String) :
    List Segment → (t : Ty) → ParamDescriptor → t.Val → (t.Val → R) →
      Except ExceptionWithStatus (Param R)
  | [], t, pd, _, _ =>
      if authz.readAuthz pd then
        match t with
        | .empty _ _ => .error ⟨"Expected string or index in path " ++ fqoid, .invalidArgument⟩
        | .vector _ => .error ⟨"Expected index in path " ++ fqoid, .invalidArgument⟩
        | .elem (.struct _) | .elem (.variant ..) =>
            .error ⟨"Expected string in path " ++ fqoid, .invalidArgument⟩
        | _ => .error ⟨"No sub-params for this generic type", .invalidArgument⟩
      else .error ⟨"Not authorized to read param " ++ fqoid, .permissionDenied⟩
  | segment :: oid, t, pd, value, assign =>
      if authz.readAuthz pd then
        match t, value, assign with
        | .empty _ subParams, value, assign =>
            match subParams.find segment.key with
            | none => .error ⟨"Param " ++ segment.key ++ " does not exist", .notFound⟩
            | some (info, ty) =>
                let sub := pd.getSubParam info ty
                let empty := Ty.empty ty.paramType ty.subParams
                if oid ≠ [] then getParam authz fqoid oid empty sub value assign
                else if authz.readAuthz sub then .ok { ty := empty, descriptor := sub, value, assign }
                else .error ⟨"Not authorized to read param " ++ fqoid, .permissionDenied⟩
        | .vector e, (value : List e.Val), assign =>
            match segment with
            | .name _ => .error ⟨"Expected index in path " ++ fqoid, .invalidArgument⟩
            | .index i =>
                match value[i]? with
                | none =>
                    .error ⟨"Index " ++ toString i ++ " out of bounds in path " ++ fqoid, .outOfRange⟩
                | some x =>
                    let put := fun (y : (Ty.elem e).Val) => assign (value.set i y)
                    if oid = [] then .ok { ty := .elem e, descriptor := pd, value := x, assign := put }
                    else if e.hasSubParams then getParam authz fqoid oid (.elem e) pd x put
                    else .error ⟨"Param " ++ fqoid ++ " does not exist", .notFound⟩
        | .elem (.struct fields), value, assign =>
            match segment with
            | .index _ => .error ⟨"Expected string in path " ++ fqoid, .invalidArgument⟩
            | .name name =>
                match fields.findParamByName value name with
                | none => .error ⟨"Param " ++ fqoid ++ " does not exist", .notFound⟩
                | some member =>
                    let sub := pd.getSubParam member.info member.ty
                    let put := fun y => assign (member.put y)
                    if oid ≠ [] then getParam authz fqoid oid member.ty sub member.value put
                    else if authz.readAuthz sub then
                      .ok { ty := member.ty, descriptor := sub, value := member.value, assign := put }
                    else .error ⟨"Not authorized to read param " ++ fqoid, .permissionDenied⟩
        | .elem (.variant name info ty alternatives), value, assign =>
            match segment with
            | .index _ => .error ⟨"Expected string in path " ++ fqoid, .invalidArgument⟩
            | .name oidStr =>
                let held := (Fields.cons name info ty alternatives).visit value
                if held.1 ≠ oidStr then .error ⟨"Param " ++ fqoid ++ " does not exist", .notFound⟩
                else
                  let member := held.2
                  let sub := pd.getSubParam member.info member.ty
                  let put := fun y => assign (member.put y)
                  if oid ≠ [] then getParam authz fqoid oid member.ty sub member.value put
                  else if authz.readAuthz sub then
                    .ok { ty := member.ty, descriptor := sub, value := member.value, assign := put }
                  else .error ⟨"Not authorized to read param " ++ fqoid, .permissionDenied⟩
        | .elem .int32, _, _ | .elem .float, _, _ | .elem .string, _, _ =>
            .error ⟨"No sub-params for this generic type", .invalidArgument⟩
      else .error ⟨"Not authorized to read param " ++ fqoid, .permissionDenied⟩

/-- `size_` on a stored element. -/
def ElemTy.size : (e : ElemTy) → e.Val → Nat
  | .string, s => String.utf8ByteSize s
  | _, _ => 0

/-- `size_` on the payload of a protobuf value. -/
def Value.size : Value → Nat
  | .stringValue s => s.utf8ByteSize
  | .int32ArrayValues ints => ints.length
  | .float32ArrayValues floats => floats.length
  | .stringArrayValues strings => strings.length
  | .structArrayValues items => items.length
  | .structVariantArrayValues items => items.length
  | _ => 0

namespace Param

variable {R : Type}

/-- `addBack_`: the store with a default element appended, and a reference to the element. -/
def addBack (authz : Authorizer) (p : Param R) : Except ExceptionWithStatus (Param R) :=
  match p with
  | { ty := .vector e, descriptor, value, assign, .. } =>
      if !authz.writeAuthz descriptor then .error (notAuthorizedToWrite descriptor)
      else if descriptor.maxLength ≤ value.length then
        .error ⟨"Array " ++ descriptor.getOid ++ " at maximum capacity", .outOfRange⟩
      else .ok { ty := .elem e, descriptor, value := e.default,
                 assign := fun y => assign (List.append value [y]) }
  | { descriptor, .. } =>
      .error ⟨"Cannot add generic type to param " ++ descriptor.getOid, .invalidArgument⟩

/-- `fromProto` through the reference: the status and the store afterwards. -/
def fromProto (authz : Authorizer) (p : Param R) (src : Value) : ExceptionWithStatus × R :=
  let written := Store.fromProto authz p.ty p.descriptor src p.value
  (written.1, p.assign written.2)

/-- `toProto` of the value. -/
def toProto (authz : Authorizer) (p : Param R) (dst : Value) : ExceptionWithStatus × Value :=
  Store.toProto authz p.ty p.descriptor p.value dst

/-- `validateSetValue_` for a whole value. -/
def validateSetWhole (authz : Authorizer) (p : Param R) (src : Value) (index : Nat) :
    ExceptionWithStatus × Param R :=
  let pd := p.descriptor
  if index ≠ Path.kNone then
    (⟨"Index not applicable to setValue for param " ++ pd.getOid, .invalidArgument⟩, p)
  else
    let ans := validFromProto authz p.ty pd src
    if ans.isOk then
      let p := { p with mSizeTracker := some src.size }
      if pd.maxLength < src.size then (exceedsMaximumCapacity pd, p) else (⟨"OK", .ok⟩, p)
    else (ans, p)

/-- `validateSetValue_` for an element set or appended at `index`. -/
def validateSetElem (authz : Authorizer) (p : Param R) (e : ElemTy) (arrayVal : List e.Val)
    (src : Value) (index : Nat) : ExceptionWithStatus × Param R :=
  let pd := p.descriptor
  let mSize := p.mSizeTracker.getD arrayVal.length
  let tSizes := p.tSizeTracker.getD (arrayVal.map e.size)
  let p := { p with mSizeTracker := some mSize, tSizeTracker := some tSizes }
  if index = Path.kNone then
    (⟨"Index not specified in SetValue call to " ++ pd.getOid, .invalidArgument⟩, p)
  else if index ≠ Path.kEnd ∧ mSize ≤ index then
    (⟨"Index " ++ toString index ++ " out of bounds of array " ++ pd.getOid, .outOfRange⟩, p)
  else
    let ans := validFromProtoElem authz e pd src
    if ans.isOk then
      let mSize := if index = Path.kEnd then mSize + 1 else mSize
      let tSizes := if index = Path.kEnd then tSizes ++ [src.size] else tSizes.set index src.size
      let p := { p with mSizeTracker := some mSize, tSizeTracker := some tSizes }
      if pd.maxLength < mSize then (exceedsMaximumCapacity pd, p)
      else if pd.totalLength < tSizes.sum then (exceedsTotalLength pd, p)
      else (⟨"OK", .ok⟩, p)
    else (ans, p)

/-- `validateSetValue`: dispatch on the kind of the value, then on the kind of the parameter.
The result is the status and the copy of the parameter with its trackers updated. -/
def validateSetValue (authz : Authorizer) (p : Param R) (src : Value) (index : Nat) :
    ExceptionWithStatus × Param R :=
  match src with
  | .int32Value _ | .float32Value _ | .stringValue _ | .structValue _ | .structVariantValue _ _ =>
      match p with
      | { ty := .vector e, value, .. } => validateSetElem authz p e value src index
      | _ => validateSetWhole authz p src index
  | .int32ArrayValues _ | .float32ArrayValues _ | .stringArrayValues _ | .structArrayValues _
  | .structVariantArrayValues _ => validateSetWhole authz p src index
  | _ => (⟨"Type not supported with SetValue", .invalidArgument⟩, p)

end Param

end Catena.Store
