import Catena.Store.Descriptor

/-!
# Serialization of values

The free functions `toProto`, `validFromProto` and `fromProto`, one clause for each of the
C++ overloads. The destination of `validFromProto` only selects the overload, so here the
type takes its place. `fromProto` threads the old destination and, as the source does,
discards the status of every nested call.
-/

namespace Catena.Store

open ExceptionWithStatus (ok)

namespace Value

def clearStructValue : Value → Value
  | .structValue _ => .kindNotSet
  | v => v

def clearStructArrayValues : Value → Value
  | .structArrayValues _ => .kindNotSet
  | v => v

def clearStructVariantValue : Value → Value
  | .structVariantValue _ _ => .kindNotSet
  | v => v

def clearStructVariantArrayValues : Value → Value
  | .structVariantArrayValues _ => .kindNotSet
  | v => v

/-- `mutable_struct_value()` makes an empty struct of a value of another kind. -/
def mutableStructValue : Value → List (String × Value)
  | .structValue fields => fields
  | _ => []

def mutableStructVariantValue : Value → String × Value
  | .structVariantValue type value => (type, value)
  | _ => ("", .kindNotSet)

/-- `mutable_struct_variant_array_values()->add_struct_variants()`. -/
def addStructVariant (dst : Value) (item : String × Value) : Value :=
  match dst with
  | .structVariantArrayValues items => .structVariantArrayValues (items ++ [item])
  | _ => .structVariantArrayValues [item]

end Value

def notAuthorizedToRead (pd : ParamDescriptor) : ExceptionWithStatus :=
  ⟨"Not authorized to read param " ++ pd.getOid, .permissionDenied⟩

def notAuthorizedToWrite (pd : ParamDescriptor) : ExceptionWithStatus :=
  ⟨"Not authorized to write to param " ++ pd.getOid, .permissionDenied⟩

def typeMismatch (kind : String) (pd : ParamDescriptor) : ExceptionWithStatus :=
  ⟨"Type mismatch between value and " ++ kind ++ " " ++ pd.getOid, .invalidArgument⟩

def exceedsMaximumCapacity (pd : ParamDescriptor) : ExceptionWithStatus :=
  ⟨"Param " ++ pd.getOid ++ " exceeds maximum capacity", .outOfRange⟩

def exceedsTotalLength (pd : ParamDescriptor) : ExceptionWithStatus :=
  ⟨"String array param " ++ pd.getOid ++ " exceeds total length", .outOfRange⟩

def constraintNotMet (pd : ParamDescriptor) : ExceptionWithStatus :=
  ⟨pd.getOid ++ " constraint not met", .invalidArgument⟩

/-- A serialization loop that breaks after the first item that fails. -/
def serializeItems {α β : Type} (item : α → ExceptionWithStatus × β) :
    List α → ExceptionWithStatus × List β
  | [] => (ok, [])
  | x :: xs =>
      let first := item x
      if first.1.isOk then
        let others := serializeItems item xs
        (others.1, first.2 :: others.2)
      else (first.1, [first.2])

/-- A validation loop that breaks at the first item that fails. -/
def validItems {α : Type} (item : α → ExceptionWithStatus) : List α → ExceptionWithStatus
  | [] => ok
  | x :: xs =>
      let rc := item x
      if rc.isOk then validItems item xs else rc

mutual

/-- `toProto<T>`: the status, and the destination afterwards. -/
def toProto (authz : Authorizer) :
    (t : Ty) → ParamDescriptor → t.Val → Value → ExceptionWithStatus × Value
  | .empty _ _, _, _, dst => (ok, dst)
  | .elem e, pd, src, dst => toProtoElem authz e pd src dst
  | .vector .int32, pd, src, dst =>
      if authz.readAuthz pd then (ok, .int32ArrayValues src) else (notAuthorizedToRead pd, dst)
  | .vector .float, pd, src, dst =>
      if authz.readAuthz pd then (ok, .float32ArrayValues src) else (notAuthorizedToRead pd, dst)
  | .vector .string, pd, src, dst =>
      if authz.readAuthz pd then (ok, .stringArrayValues src) else (notAuthorizedToRead pd, dst)
  | .vector (.struct fields), pd, src, dst =>
      if authz.readAuthz pd then
        let items := serializeItems (fun item =>
          let elemValue := toProtoElem authz (.struct fields) pd item .kindNotSet
          (elemValue.1, elemValue.2.mutableStructValue)) src
        if items.1.isOk then (items.1, .structArrayValues items.2) else (items.1, .kindNotSet)
      else (notAuthorizedToRead pd, dst.clearStructArrayValues)
  | .vector (.variant name info ty alternatives), pd, src, dst =>
      if authz.readAuthz pd then
        let items := serializeItems (fun item =>
          let elemValue :=
            toProtoElem authz (.variant name info ty alternatives) pd item .kindNotSet
          (elemValue.1, elemValue.2.mutableStructVariantValue)) src
        let dst := items.2.foldl Value.addStructVariant dst.clearStructVariantArrayValues
        if items.1.isOk then (items.1, dst) else (items.1, dst.clearStructVariantArrayValues)
      else (notAuthorizedToRead pd, dst.clearStructVariantArrayValues)

def toProtoElem (authz : Authorizer) :
    (e : ElemTy) → ParamDescriptor → e.Val → Value → ExceptionWithStatus × Value
  | .int32, pd, src, dst =>
      if authz.readAuthz pd then (ok, .int32Value src) else (notAuthorizedToRead pd, dst)
  | .float, pd, src, dst =>
      if authz.readAuthz pd then (ok, .float32Value src) else (notAuthorizedToRead pd, dst)
  | .string, pd, src, dst =>
      if authz.readAuthz pd then (ok, .stringValue src) else (notAuthorizedToRead pd, dst)
  | .struct fields, pd, src, dst =>
      if authz.readAuthz pd then
        let written := toProtoFields authz fields pd src ok []
        if written.1.isOk then (written.1, .structValue written.2) else (written.1, .kindNotSet)
      else (notAuthorizedToRead pd, dst.clearStructValue)
  | .variant name info ty alternatives, pd, src, dst =>
      if authz.readAuthz pd then
        let (variantType, elemValue) : String × ExceptionWithStatus × Value :=
          match src with
          | .inl x => (name, toProto authz ty (pd.getSubParam info ty) x .kindNotSet)
          | .inr y => toProtoAlt authz alternatives pd y
        if elemValue.1.isOk then (elemValue.1, .structVariantValue variantType elemValue.2)
        else (elemValue.1, .kindNotSet)
      else (notAuthorizedToRead pd, dst.clearStructVariantValue)

/-- The `readField` calls of a struct; nothing is read once a field has failed. -/
def toProtoFields (authz : Authorizer) :
    (fields : Fields) → ParamDescriptor → fields.Vals → ExceptionWithStatus →
      List (String × Value) → ExceptionWithStatus × List (String × Value)
  | .nil, _, _, rc, dst => (rc, dst)
  | .cons name info ty rest, pd, (x, xs), rc, dst =>
      if rc.isOk then
        let field := toProto authz ty (pd.getSubParam info ty) x
          ((Value.find dst name).getD .kindNotSet)
        toProtoFields authz rest pd xs field.1 (Value.insert dst name field.2)
      else toProtoFields authz rest pd xs rc dst

/-- The alternative a variant holds, and its serialization. -/
def toProtoAlt (authz : Authorizer) :
    (alternatives : Fields) → ParamDescriptor → alternatives.Alt →
      String × ExceptionWithStatus × Value
  | .nil, _, src => Empty.elim src
  | .cons name info ty rest, pd, src =>
      match src with
      | .inl x => (name, toProto authz ty (pd.getSubParam info ty) x .kindNotSet)
      | .inr y => toProtoAlt authz rest pd y

end

/-- `constraint && !constraint->isRange() && !constraint->satisfied(src)`. -/
def violatesChoice (pd : ParamDescriptor) (src : Value) : Bool :=
  match pd.getConstraint with
  | some constraint => !constraint.isRange && !constraint.satisfied src
  | none => false

/-- `constraint && !constraint->satisfied(src)`. -/
def violatesConstraint (pd : ParamDescriptor) (src : Value) : Bool :=
  match pd.getConstraint with
  | some constraint => !constraint.satisfied src
  | none => false

/-- The loop of `validFromProto<std::vector<std::string>>`: the running total and the
status when the loop ends or breaks. -/
def validStrings (pd : ParamDescriptor) : List String → Nat → Nat × ExceptionWithStatus
  | [], total => (total, ok)
  | s :: ss, total =>
      let total := total + s.utf8ByteSize
      if violatesConstraint pd (.stringValue s) then (total, constraintNotMet pd)
      else validStrings pd ss total

mutual

/-- `validFromProto<T>`: the status it leaves when entered with an OK status. -/
def validFromProto (authz : Authorizer) : Ty → ParamDescriptor → Value → ExceptionWithStatus
  | .empty _ _, _, _ => ok
  | .elem e, pd, src => validFromProtoElem authz e pd src
  | .vector .int32, pd, src =>
      if authz.writeAuthz pd then
        match src with
        | .int32ArrayValues ints =>
            if pd.maxLength < ints.length then exceedsMaximumCapacity pd
            else validItems (fun i =>
              if violatesChoice pd (.int32Value i) then constraintNotMet pd else ok) ints
        | _ => typeMismatch "int array" pd
      else notAuthorizedToWrite pd
  | .vector .float, pd, src =>
      if authz.writeAuthz pd then
        match src with
        | .float32ArrayValues floats =>
            if pd.maxLength < floats.length then exceedsMaximumCapacity pd
            else validItems (fun f =>
              if violatesChoice pd (.float32Value f) then constraintNotMet pd else ok) floats
        | _ => typeMismatch "float array" pd
      else notAuthorizedToWrite pd
  | .vector .string, pd, src =>
      if authz.writeAuthz pd then
        match src with
        | .stringArrayValues strings =>
            if pd.maxLength < strings.length then exceedsMaximumCapacity pd
            else
              let checked := validStrings pd strings 0
              if pd.totalLength < checked.1 then exceedsTotalLength pd else checked.2
        | _ => typeMismatch "string array" pd
      else notAuthorizedToWrite pd
  | .vector (.struct fields), pd, src =>
      if authz.writeAuthz pd then
        match src with
        | .structArrayValues items =>
            if pd.maxLength < items.length then exceedsMaximumCapacity pd
            else validItems (fun item =>
              validFromProtoElem authz (.struct fields) pd (.structValue item)) items
        | _ => typeMismatch "struct array" pd
      else notAuthorizedToWrite pd
  | .vector (.variant name info ty alternatives), pd, src =>
      if authz.writeAuthz pd then
        match src with
        | .structVariantArrayValues items =>
            if pd.maxLength < items.length then exceedsMaximumCapacity pd
            else validItems (fun item =>
              validFromProtoElem authz (.variant name info ty alternatives) pd
                (.structVariantValue item.1 item.2)) items
        | _ => typeMismatch "variant struct array" pd
      else notAuthorizedToWrite pd

def validFromProtoElem (authz : Authorizer) :
    ElemTy → ParamDescriptor → Value → ExceptionWithStatus
  | .int32, pd, src =>
      if authz.writeAuthz pd then
        match src with
        | .int32Value _ => if violatesChoice pd src then constraintNotMet pd else ok
        | _ => typeMismatch "int" pd
      else notAuthorizedToWrite pd
  | .float, pd, src =>
      if authz.writeAuthz pd then
        match src with
        | .float32Value _ => if violatesChoice pd src then constraintNotMet pd else ok
        | _ => typeMismatch "float" pd
      else notAuthorizedToWrite pd
  | .string, pd, src =>
      if authz.writeAuthz pd then
        match src with
        | .stringValue s =>
            if pd.type = .string ∧ pd.totalLength < s.utf8ByteSize then exceedsMaximumCapacity pd
            else if violatesConstraint pd src then constraintNotMet pd
            else ok
        | _ => typeMismatch "string" pd
      else notAuthorizedToWrite pd
  | .struct fields, pd, src =>
      if authz.writeAuthz pd then
        match src with
        | .structValue srcFields => validFromProtoFields authz fields pd srcFields
        | _ => typeMismatch "struct" pd
      else notAuthorizedToWrite pd
  | .variant name info ty alternatives, pd, src =>
      if authz.writeAuthz pd then
        match src with
        | .structVariantValue variantType value =>
            if name = variantType then validFromProto authz ty (pd.getSubParam info ty) value
            else validFromProtoAlt authz alternatives pd variantType value
        | _ => typeMismatch "variant struct" pd
      else notAuthorizedToWrite pd

/-- The `testWriteField` calls of a struct. -/
def validFromProtoFields (authz : Authorizer) :
    Fields → ParamDescriptor → List (String × Value) → ExceptionWithStatus
  | .nil, _, _ => ok
  | .cons name info ty rest, pd, srcFields =>
      let rc := match Value.find srcFields name with
        | some value => validFromProto authz ty (pd.getSubParam info ty) value
        | none => ⟨"Missing field " ++ name ++ " from " ++ pd.getOid, .invalidArgument⟩
      if rc.isOk then validFromProtoFields authz rest pd srcFields else rc

/-- The alternative with the requested name, tried on a test variant of that type. -/
def validFromProtoAlt (authz : Authorizer) :
    Fields → ParamDescriptor → String → Value → ExceptionWithStatus
  | .nil, pd, variantType, _ =>
      ⟨pd.getOid ++ " does not contain variant " ++ variantType, .invalidArgument⟩
  | .cons name info ty rest, pd, variantType, value =>
      if name = variantType then validFromProto authz ty (pd.getSubParam info ty) value
      else validFromProtoAlt authz rest pd variantType value

end

/-- `variant::index()`. -/
def Fields.altIndex : (alternatives : Fields) → alternatives.Alt → Nat
  | .cons _ _ _ _, .inl _ => 0
  | .cons _ _ _ rest, .inr y => rest.altIndex y + 1

/-- The default value of the alternative at an index. -/
def Fields.defaultAlt : (alternatives : Fields) → Nat → Option alternatives.Alt
  | .nil, _ => none
  | .cons _ _ ty _, 0 => some (.inl ty.default)
  | .cons _ _ _ rest, i + 1 => (rest.defaultAlt i).map .inr

/-- `_changeType`: the default of the new alternative, the old value if there is none. -/
def Fields.changeType (alternatives : Fields) (variant : alternatives.Alt)
    (newTypeIndex : Nat) : alternatives.Alt :=
  (alternatives.defaultAlt newTypeIndex).getD variant

/-- `_findTypeIndex`: the number of alternatives if the name is not found. -/
def Fields.findTypeIndex (alternatives : Fields) (typeName : String) : Nat :=
  alternatives.names.idxOf typeName

/-- What a scalar write stores: ranges rewrite the source, other constraints do not. -/
def constrained (pd : ParamDescriptor) (src : Value) : Value :=
  match pd.getConstraint with
  | some constraint => if constraint.isRange then constraint.apply src else src
  | none => src

mutual

/-- `fromProto<T>`: the status, and the destination afterwards. -/
def fromProto (authz : Authorizer) :
    (t : Ty) → ParamDescriptor → Value → t.Val → ExceptionWithStatus × t.Val
  | .empty _ _, _, _, dst => (ok, dst)
  | .elem e, pd, src, dst => fromProtoElem authz e pd src dst
  | .vector .int32, pd, src, dst =>
      let rc := validFromProto authz (.vector .int32) pd src
      match rc.isOk, src with
      | true, .int32ArrayValues ints =>
          (rc, ints.map fun i => (constrained pd (.int32Value i)).getInt32)
      | _, _ => (rc, dst)
  | .vector .float, pd, src, dst =>
      let rc := validFromProto authz (.vector .float) pd src
      match rc.isOk, src with
      | true, .float32ArrayValues floats =>
          (rc, floats.map fun f => (constrained pd (.float32Value f)).getFloat32)
      | _, _ => (rc, dst)
  | .vector .string, pd, src, dst =>
      let rc := validFromProto authz (.vector .string) pd src
      match rc.isOk, src with
      | true, .stringArrayValues strings => (rc, strings)
      | _, _ => (rc, dst)
  | .vector (.struct fields), pd, src, dst =>
      let rc := validFromProto authz (.vector (.struct fields)) pd src
      match rc.isOk, src with
      | true, .structArrayValues items =>
          (rc, items.map fun item =>
            (fromProtoElem authz (.struct fields) pd (.structValue item)
              (ElemTy.struct fields).default).2)
      | _, _ => (rc, dst)
  | .vector (.variant name info ty alternatives), pd, src, dst =>
      let rc := validFromProto authz (.vector (.variant name info ty alternatives)) pd src
      match rc.isOk, src with
      | true, .structVariantArrayValues items =>
          (rc, items.map fun item =>
            (fromProtoElem authz (.variant name info ty alternatives) pd
              (.structVariantValue item.1 item.2)
              (ElemTy.variant name info ty alternatives).default).2)
      | _, _ => (rc, dst)

def fromProtoElem (authz : Authorizer) :
    (e : ElemTy) → ParamDescriptor → Value → e.Val → ExceptionWithStatus × e.Val
  | .int32, pd, src, dst =>
      let rc := validFromProtoElem authz .int32 pd src
      if rc.isOk then (rc, (constrained pd src).getInt32) else (rc, dst)
  | .float, pd, src, dst =>
      let rc := validFromProtoElem authz .float pd src
      if rc.isOk then (rc, (constrained pd src).getFloat32) else (rc, dst)
  | .string, pd, src, dst =>
      let rc := validFromProtoElem authz .string pd src
      if rc.isOk then (rc, src.getString) else (rc, dst)
  | .struct fields, pd, src, dst =>
      let rc := validFromProtoElem authz (.struct fields) pd src
      match rc.isOk, src with
      | true, .structValue srcFields => (rc, fromProtoFields authz fields pd srcFields dst)
      | _, _ => (rc, dst)
  | .variant name info ty alternatives, pd, src, dst =>
      let rc := validFromProtoElem authz (.variant name info ty alternatives) pd src
      match rc.isOk, src with
      | true, .structVariantValue variantType value =>
          let all := Fields.cons name info ty alternatives
          let typeIndex := all.findTypeIndex variantType
          if typeIndex < all.names.length then
            let changed : all.Alt :=
              if typeIndex ≠ all.altIndex dst then all.changeType dst typeIndex else dst
            match changed with
            | .inl x => (rc, .inl (fromProto authz ty (pd.getSubParam info ty) value x).2)
            | .inr y => (rc, .inr (fromProtoAlt authz alternatives pd value y))
          else (rc, dst)
      | _, _ => (rc, dst)

/-- The `writeField` calls of a struct. `srcFields.at` is total here: the struct has been
validated, so every field is present. -/
def fromProtoFields (authz : Authorizer) :
    (fields : Fields) → ParamDescriptor → List (String × Value) → fields.Vals → fields.Vals
  | .nil, _, _, dst => dst
  | .cons name info ty rest, pd, srcFields, (x, xs) =>
      ((fromProto authz ty (pd.getSubParam info ty)
          ((Value.find srcFields name).getD .kindNotSet) x).2,
        fromProtoFields authz rest pd srcFields xs)

/-- `std::visit` of `fromProto` on the alternative a variant holds. -/
def fromProtoAlt (authz : Authorizer) :
    (alternatives : Fields) → ParamDescriptor → Value → alternatives.Alt → alternatives.Alt
  | .nil, _, _, dst => dst
  | .cons _ info ty rest, pd, value, dst =>
      match dst with
      | .inl x => .inl (fromProto authz ty (pd.getSubParam info ty) value x).2
      | .inr y => .inr (fromProtoAlt authz rest pd value y)

end

end Catena.Store
