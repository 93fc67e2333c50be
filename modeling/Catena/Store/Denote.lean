import Catena.Store.ParamWithValue
import Mathlib.Algebra.Order.BigOperators.Group.List
import Mathlib.Algebra.Order.Group.Nat

/-!
# What a protobuf value denotes

`denote` reads a protobuf value at a value type without looking at any destination: every
field, element and alternative comes from the source, and a range rewrites the numbers below
it. `fromProto` is compared with it. Whatever the destination was, a write that is valid
leaves the denotation and a write that is not leaves the destination.
-/

namespace Catena.Store

open ExceptionWithStatus (ok)

namespace Value

/-! The payload of a value, when the value is of the kind asked for. -/

def int32? : Value → Option Int32
  | .int32Value i => some i
  | _ => none

def float32? : Value → Option Float32
  | .float32Value f => some f
  | _ => none

def string? : Value → Option String
  | .stringValue s => some s
  | _ => none

def struct? : Value → Option (List (String × Value))
  | .structValue fields => some fields
  | _ => none

def structVariant? : Value → Option (String × Value)
  | .structVariantValue variantType value => some (variantType, value)
  | _ => none

end Value

/-- The elements of an array value, each as a value of its own. -/
def Value.items : ElemTy → Value → Option (List Value)
  | .int32, .int32ArrayValues ints => some (ints.map .int32Value)
  | .float, .float32ArrayValues floats => some (floats.map .float32Value)
  | .string, .stringArrayValues strings => some (strings.map .stringValue)
  | .struct _, .structArrayValues items => some (items.map .structValue)
  | .variant .., .structVariantArrayValues items =>
      some (items.map fun item => .structVariantValue item.1 item.2)
  | _, _ => none

mutual

/-- The value of a type that a protobuf value stands for, `none` when the kinds differ, a
field is missing or an alternative does not exist. -/
def denote : (t : Ty) → ParamDescriptor → Value → Option t.Val
  | .empty _ _, _, _ => some ()
  | .elem e, pd, src => denoteElem e pd src
  | .vector e, pd, src => (Value.items e src).bind fun items => items.mapM (denoteElem e pd)

def denoteElem : (e : ElemTy) → ParamDescriptor → Value → Option e.Val
  | .int32, pd, src => src.int32?.map fun i => (constrained pd (.int32Value i)).getInt32
  | .float, pd, src => src.float32?.map fun f => (constrained pd (.float32Value f)).getFloat32
  | .string, _, src => src.string?
  | .struct fields, pd, src => src.struct?.bind fun srcFields => denoteFields fields pd srcFields
  | .variant name info ty alternatives, pd, src =>
      src.structVariant?.bind fun variant =>
        if name = variant.1 then
          (denote ty (pd.getSubParam info ty) variant.2).map Sum.inl
        else (denoteAlt alternatives pd variant.1 variant.2).map Sum.inr

def denoteFields :
    (fields : Fields) → ParamDescriptor → List (String × Value) → Option fields.Vals
  | .nil, _, _ => some ()
  | .cons name info ty rest, pd, srcFields =>
      (Value.find srcFields name).bind fun value =>
        (denote ty (pd.getSubParam info ty) value).bind fun x =>
          (denoteFields rest pd srcFields).map fun xs => (x, xs)

def denoteAlt :
    (alternatives : Fields) → ParamDescriptor → String → Value → Option alternatives.Alt
  | .nil, _, _, _ => none
  | .cons name info ty rest, pd, variantType, value =>
      if name = variantType then (denote ty (pd.getSubParam info ty) value).map Sum.inl
      else (denoteAlt rest pd variantType value).map Sum.inr

end

theorem mapM_eq_some_map {α β : Type} (f : α → Option β) (g : α → β) (xs : List α)
    (h : ∀ x ∈ xs, f x = some (g x)) : xs.mapM f = some (xs.map g) := by
  induction xs with
  | nil => rfl
  | cons x xs ih =>
    have hx : f x = some (g x) := h x (by simp)
    have hxs : xs.mapM f = some (xs.map g) := ih fun y hy => h y (by simp [hy])
    simp [hx, hxs]

theorem validItems_isOk {α : Type} (item : α → ExceptionWithStatus) (xs : List α) :
    (validItems item xs).isOk = true ↔ ∀ x ∈ xs, (item x).isOk = true := by
  induction xs with
  | nil => simp [validItems]
  | cons x xs ih =>
    by_cases hx : (item x).isOk = true
    · simp [validItems, hx, ih]
    · simp [validItems, hx]

@[simp] theorem isOk_typeMismatch (kind : String) (pd : ParamDescriptor) :
    (typeMismatch kind pd).isOk = false := rfl

@[simp] theorem isOk_notAuthorizedToWrite (pd : ParamDescriptor) :
    (notAuthorizedToWrite pd).isOk = false := rfl

@[simp] theorem isOk_notAuthorizedToRead (pd : ParamDescriptor) :
    (notAuthorizedToRead pd).isOk = false := rfl

@[simp] theorem isOk_exceedsMaximumCapacity (pd : ParamDescriptor) :
    (exceedsMaximumCapacity pd).isOk = false := rfl

@[simp] theorem isOk_exceedsTotalLength (pd : ParamDescriptor) :
    (exceedsTotalLength pd).isOk = false := rfl

@[simp] theorem isOk_constraintNotMet (pd : ParamDescriptor) :
    (constraintNotMet pd).isOk = false := rfl

section Validity

variable (authz : Authorizer) (pd : ParamDescriptor) (src : Value)

/-! Each overload of `validFromProto` accepts exactly the following. -/

theorem validFromProtoElem_int32 :
    (validFromProtoElem authz .int32 pd src).isOk = true ↔
      authz.writeAuthz pd = true ∧ violatesChoice pd src = false ∧ ∃ i, src = .int32Value i := by
  cases src <;> simp [validFromProtoElem, apply_ite ExceptionWithStatus.isOk]

theorem validFromProtoElem_float :
    (validFromProtoElem authz .float pd src).isOk = true ↔
      authz.writeAuthz pd = true ∧ violatesChoice pd src = false ∧ ∃ f, src = .float32Value f := by
  cases src <;> simp [validFromProtoElem, apply_ite ExceptionWithStatus.isOk]

theorem validFromProtoElem_string :
    (validFromProtoElem authz .string pd src).isOk = true ↔
      authz.writeAuthz pd = true ∧ (pd.type = .string → src.getString.utf8ByteSize ≤ pd.totalLength) ∧
        violatesConstraint pd src = false ∧ ∃ s, src = .stringValue s := by
  cases src <;>
    simp [validFromProtoElem, apply_ite ExceptionWithStatus.isOk, Value.getString, imp_iff_not_or]

theorem validFromProtoElem_struct (fields : Fields) :
    (validFromProtoElem authz (.struct fields) pd src).isOk = true ↔
      authz.writeAuthz pd = true ∧ ∃ srcFields, src = .structValue srcFields ∧
        (validFromProtoFields authz fields pd srcFields).isOk = true := by
  cases src <;> simp [validFromProtoElem, apply_ite ExceptionWithStatus.isOk]

theorem validFromProtoFields_cons (name : String) (info : Descriptor) (ty : Ty) (rest : Fields)
    (srcFields : List (String × Value)) :
    (validFromProtoFields authz (.cons name info ty rest) pd srcFields).isOk = true ↔
      (∃ value, Value.find srcFields name = some value ∧
        (validFromProto authz ty (pd.getSubParam info ty) value).isOk = true) ∧
      (validFromProtoFields authz rest pd srcFields).isOk = true := by
  cases h : Value.find srcFields name with
  | none => simp [validFromProtoFields, h]
  | some value =>
    by_cases hv : (validFromProto authz ty (pd.getSubParam info ty) value).isOk = true
    · simp [validFromProtoFields, h, hv]
    · simp [validFromProtoFields, h, hv]

theorem validFromProtoElem_variant (name : String) (info : Descriptor) (ty : Ty)
    (alternatives : Fields) :
    (validFromProtoElem authz (.variant name info ty alternatives) pd src).isOk = true ↔
      authz.writeAuthz pd = true ∧ ∃ variantType value,
        src = .structVariantValue variantType value ∧
        (validFromProtoAlt authz (.cons name info ty alternatives) pd variantType value).isOk =
          true := by
  cases src <;> simp [validFromProtoElem, validFromProtoAlt, apply_ite ExceptionWithStatus.isOk]

theorem validFromProtoAlt_cons (name : String) (info : Descriptor) (ty : Ty) (rest : Fields)
    (variantType : String) (value : Value) :
    (validFromProtoAlt authz (.cons name info ty rest) pd variantType value).isOk = true ↔
      (name = variantType ∧
        (validFromProto authz ty (pd.getSubParam info ty) value).isOk = true) ∨
      (name ≠ variantType ∧ (validFromProtoAlt authz rest pd variantType value).isOk = true) := by
  by_cases h : name = variantType
  · simp [validFromProtoAlt, h]
  · simp [validFromProtoAlt, h]

theorem validStrings_snd (strings : List String) (total : Nat) :
    (validStrings pd strings total).2.isOk = true ↔
      ∀ s ∈ strings, violatesConstraint pd (.stringValue s) = false := by
  induction strings generalizing total with
  | nil => simp [validStrings]
  | cons s ss ih =>
    by_cases hs : violatesConstraint pd (.stringValue s) = true
    · simp [validStrings, hs]
    · simpa [validStrings, hs] using ih (total + s.utf8ByteSize)

theorem validStrings_fst (strings : List String) (total : Nat)
    (h : ∀ s ∈ strings, violatesConstraint pd (.stringValue s) = false) :
    (validStrings pd strings total).1 = total + (strings.map String.utf8ByteSize).sum := by
  induction strings generalizing total with
  | nil => rfl
  | cons s ss ih =>
    have hs : violatesConstraint pd (.stringValue s) = false := h s (by simp)
    have hss := ih (total + s.utf8ByteSize) fun t ht => h t (by simp [ht])
    simp [validStrings, hs, hss, Nat.add_assoc]

theorem validFromProto_strings (strings : List String) (hw : authz.writeAuthz pd = true) :
    (validFromProto authz (.vector .string) pd (.stringArrayValues strings)).isOk = true ↔
      strings.length ≤ pd.maxLength ∧ (strings.map String.utf8ByteSize).sum ≤ pd.totalLength ∧
        ∀ s ∈ strings, violatesConstraint pd (.stringValue s) = false := by
  have hsnd := validStrings_snd pd strings 0
  by_cases hok : ∀ s ∈ strings, violatesConstraint pd (.stringValue s) = false
  · have hfst := validStrings_fst pd strings 0 hok
    simp [validFromProto, hw, apply_ite ExceptionWithStatus.isOk, hsnd, hfst]
  · have hbad : (validStrings pd strings 0).2.isOk = false := by simpa [hok] using hsnd
    simp only [validFromProto, hw, if_true, apply_ite ExceptionWithStatus.isOk, hbad]
    simp [hok]

/-- An array is valid when it is not too long, its strings fit the total length and every
element is valid on its own. -/
theorem validFromProto_vector (e : ElemTy) :
    (validFromProto authz (.vector e) pd src).isOk = true ↔
      authz.writeAuthz pd = true ∧ ∃ items, Value.items e src = some items ∧
        items.length ≤ pd.maxLength ∧ (items.map Value.size).sum ≤ pd.totalLength ∧
        ∀ item ∈ items, (validFromProtoElem authz e pd item).isOk = true := by
  by_cases hw : authz.writeAuthz pd = true
  case neg => cases e <;> simp [validFromProto, hw]
  case pos =>
    cases e with
    | int32 =>
      cases src <;> simp [validFromProto, hw, Value.items, validItems_isOk, Value.size,
        validFromProtoElem_int32, apply_ite ExceptionWithStatus.isOk, Function.comp_def]
    | float =>
      cases src <;> simp [validFromProto, hw, Value.items, validItems_isOk, Value.size,
        validFromProtoElem_float, apply_ite ExceptionWithStatus.isOk, Function.comp_def]
    | struct fields =>
      cases src <;> simp [validFromProto, hw, Value.items, validItems_isOk, Value.size,
        apply_ite ExceptionWithStatus.isOk, Function.comp_def]
    | variant name info ty alternatives =>
      cases src <;> simp [-List.mem_map, List.forall_mem_map, validFromProto, hw, Value.items,
        validItems_isOk, Value.size, apply_ite ExceptionWithStatus.isOk, Function.comp_def]
    | string =>
      cases src
      case stringArrayValues strings =>
        have hsize (h : (strings.map String.utf8ByteSize).sum ≤ pd.totalLength) :
            ∀ s ∈ strings, s.utf8ByteSize ≤ pd.totalLength := fun s hs =>
          le_trans (List.single_le_sum (fun _ _ => Nat.zero_le _) s.utf8ByteSize
            (List.mem_map_of_mem hs)) h
        rw [validFromProto_strings authz pd strings hw]
        simp only [hw, Value.items, validFromProtoElem_string, Option.some.injEq, exists_eq_left',
          List.forall_mem_map, List.length_map, List.map_map, true_and, Value.getString]
        constructor
        · rintro ⟨hlen, hsum, hok⟩
          exact ⟨hlen, hsum, fun s hs => ⟨fun _ => hsize hsum s hs, hok s hs, s, rfl⟩⟩
        · rintro ⟨hlen, hsum, hok⟩
          exact ⟨hlen, hsum, fun s hs => (hok s hs).2.1⟩
      all_goals simp [validFromProto, hw, Value.items]

theorem writeAuthz_of_validElem {e : ElemTy}
    (h : (validFromProtoElem authz e pd src).isOk = true) : authz.writeAuthz pd = true := by
  by_contra hw
  cases e <;> simp [validFromProtoElem, hw] at h

end Validity

namespace Fields

theorem altIndex_defaultAlt : (alternatives : Fields) → (i : Nat) → (v : alternatives.Alt) →
    alternatives.defaultAlt i = some v → alternatives.altIndex v = i
  | .nil, _, v, _ => Empty.elim v
  | .cons _ _ ty _, 0, v, h => by
    have hv : Sum.inl ty.default = v := Option.some.inj h
    subst hv
    rfl
  | .cons _ _ _ rest, i + 1, v, h => by
    obtain ⟨w, hw, hv⟩ := Option.map_eq_some_iff.mp h
    subst hv
    exact congrArg (· + 1) (altIndex_defaultAlt rest i w hw)

theorem exists_defaultAlt : (alternatives : Fields) → (i : Nat) →
    i < alternatives.names.length → ∃ v, alternatives.defaultAlt i = some v
  | .nil, _, h => absurd h (Nat.not_lt_zero _)
  | .cons _ _ ty _, 0, _ => ⟨.inl ty.default, rfl⟩
  | .cons _ _ _ rest, i + 1, h => by
    obtain ⟨v, hv⟩ := exists_defaultAlt rest i (Nat.lt_of_succ_lt_succ h)
    exact ⟨.inr v, congrArg (Option.map Sum.inr) hv⟩

theorem findTypeIndex_cons_self (name : String) (info : Descriptor) (ty : Ty) (rest : Fields) :
    (Fields.cons name info ty rest).findTypeIndex name = 0 := by
  simp [findTypeIndex, names]

theorem findTypeIndex_cons_ne {name typeName : String} {info : Descriptor} {ty : Ty}
    {rest : Fields} (h : name ≠ typeName) :
    (Fields.cons name info ty rest).findTypeIndex typeName = rest.findTypeIndex typeName + 1 := by
  simp [findTypeIndex, names, List.idxOf_cons_ne _ h]

/-- Whatever alternative a variant held, it holds the requested one after `_changeType`. -/
theorem altIndex_changeType (alternatives : Fields) (v : alternatives.Alt) (i : Nat)
    (h : i < alternatives.names.length) :
    alternatives.altIndex (if i ≠ alternatives.altIndex v then alternatives.changeType v i else v) =
      i := by
  by_cases hi : i = alternatives.altIndex v
  · simp [← hi]
  · obtain ⟨w, hw⟩ := exists_defaultAlt alternatives i h
    simp only [ne_eq, hi, not_false_eq_true, if_true, changeType, hw, Option.getD_some]
    exact altIndex_defaultAlt alternatives i w hw

end Fields

theorem mem_names_of_validFromProtoAlt (authz : Authorizer) : (alternatives : Fields) →
    (pd : ParamDescriptor) → (variantType : String) → (value : Value) →
    (validFromProtoAlt authz alternatives pd variantType value).isOk = true →
    variantType ∈ alternatives.names
  | .nil, pd, variantType, value, h => by simp [validFromProtoAlt] at h
  | .cons name info ty rest, pd, variantType, value, h => by
    by_cases hn : name = variantType
    · simp [Fields.names, hn]
    · simp only [validFromProtoAlt, hn, if_false] at h
      simp [Fields.names, mem_names_of_validFromProtoAlt authz rest pd variantType value h]

theorem fromProtoElem_invalid (authz : Authorizer) (e : ElemTy) (pd : ParamDescriptor)
    (src : Value) (dst : e.Val) (h : (validFromProtoElem authz e pd src).isOk = false) :
    fromProtoElem authz e pd src dst = (validFromProtoElem authz e pd src, dst) := by
  cases e <;> simp [fromProtoElem, h]

theorem fromProto_invalid (authz : Authorizer) (t : Ty) (pd : ParamDescriptor)
    (src : Value) (dst : t.Val) (h : (validFromProto authz t pd src).isOk = false) :
    fromProto authz t pd src dst = (validFromProto authz t pd src, dst) := by
  cases t with
  | empty type subParams => simp [validFromProto] at h
  | elem e => exact fromProtoElem_invalid authz e pd src dst h
  | vector e => cases e <;> simp [fromProto, h]

theorem fromProto_vector (authz : Authorizer) (e : ElemTy) (pd : ParamDescriptor) (src : Value)
    (dst : List e.Val) (items : List Value)
    (h : (validFromProto authz (.vector e) pd src).isOk = true)
    (hi : Value.items e src = some items) :
    fromProto authz (.vector e) pd src dst = (validFromProto authz (.vector e) pd src,
      items.map fun item => (fromProtoElem authz e pd item e.default).2) := by
  have hitems : ∀ item ∈ items, (validFromProtoElem authz e pd item).isOk = true := by
    obtain ⟨_, items', hi', _, _, hitems⟩ := (validFromProto_vector authz pd src e).mp h
    exact Option.some.inj (hi'.symm.trans hi) ▸ hitems
  cases e <;> cases src <;> simp only [Value.items, reduceCtorEq, Option.some.injEq] at hi <;>
    subst hi <;> simp only [fromProto, h, List.map_map] <;> congr 1
  case int32.int32ArrayValues ints =>
    refine List.map_congr_left fun i hin => ?_
    have hiv := hitems _ (List.mem_map_of_mem hin)
    simp only [Function.comp_apply, fromProtoElem, hiv]
    rfl
  case float.float32ArrayValues floats =>
    refine List.map_congr_left fun f hf => ?_
    have hfv := hitems _ (List.mem_map_of_mem hf)
    simp only [Function.comp_apply, fromProtoElem, hfv]
    rfl
  case string.stringArrayValues strings =>
    refine (List.map_id strings).symm.trans (List.map_congr_left fun s hs => ?_)
    have hsv := hitems _ (List.mem_map_of_mem hs)
    simp only [Function.comp_apply, fromProtoElem, hsv]
    rfl

mutual

/-- A valid write stores the denotation of its source, whatever the destination was. -/
theorem denote_eq_fromProto (authz : Authorizer) : (t : Ty) → (pd : ParamDescriptor) →
    (src : Value) → (dst : t.Val) → (validFromProto authz t pd src).isOk = true →
    denote t pd src = some (fromProto authz t pd src dst).2
  | .empty _ _, _, _, _, _ => rfl
  | .elem e, pd, src, dst, h => denoteElem_eq_fromProto authz e pd src dst h
  | .vector e, pd, src, dst, h => by
    obtain ⟨_, items, hi, _, _, hitems⟩ := (validFromProto_vector authz pd src e).mp h
    rw [fromProto_vector authz e pd src dst items h hi]
    simp only [denote, hi]
    exact mapM_eq_some_map _ _ _ fun item hitem =>
      denoteElem_eq_fromProto authz e pd item e.default (hitems item hitem)

theorem denoteElem_eq_fromProto (authz : Authorizer) : (e : ElemTy) → (pd : ParamDescriptor) →
    (src : Value) → (dst : e.Val) → (validFromProtoElem authz e pd src).isOk = true →
    denoteElem e pd src = some (fromProtoElem authz e pd src dst).2
  | .int32, pd, src, dst, h => by
    obtain ⟨_, _, i, rfl⟩ := (validFromProtoElem_int32 authz pd src).mp h
    simp only [denoteElem, fromProtoElem, h, if_true]
    rfl
  | .float, pd, src, dst, h => by
    obtain ⟨_, _, f, rfl⟩ := (validFromProtoElem_float authz pd src).mp h
    simp only [denoteElem, fromProtoElem, h, if_true]
    rfl
  | .string, pd, src, dst, h => by
    obtain ⟨_, _, _, s, rfl⟩ := (validFromProtoElem_string authz pd src).mp h
    simp only [denoteElem, fromProtoElem, h, if_true]
    rfl
  | .struct fields, pd, src, dst, h => by
    obtain ⟨_, srcFields, rfl, hf⟩ := (validFromProtoElem_struct authz pd src fields).mp h
    simp only [denoteElem, fromProtoElem, h]
    exact denoteFields_eq_fromProto authz fields pd srcFields dst hf
  | .variant name info ty alternatives, pd, src, dst, h => by
    obtain ⟨_, variantType, value, rfl, ha⟩ :=
      (validFromProtoElem_variant authz pd src name info ty alternatives).mp h
    have hmem := mem_names_of_validFromProtoAlt authz _ pd variantType value ha
    have hlt : (Fields.cons name info ty alternatives).findTypeIndex variantType <
        (Fields.cons name info ty alternatives).names.length := List.idxOf_lt_length_iff.mpr hmem
    have hindex := Fields.altIndex_changeType (.cons name info ty alternatives) dst _ hlt
    simp only [denoteElem, fromProtoElem, h, hlt, if_true, Value.structVariant?, Option.bind_some]
    generalize hchanged : (if (Fields.cons name info ty alternatives).findTypeIndex variantType ≠
        (Fields.cons name info ty alternatives).altIndex dst then
      (Fields.cons name info ty alternatives).changeType dst
        ((Fields.cons name info ty alternatives).findTypeIndex variantType)
      else dst) = changed at hindex ⊢
    rw [validFromProtoAlt_cons] at ha
    rcases changed with x | y
    · obtain ⟨rfl, hvalue⟩ | ⟨hne, hvalue⟩ := ha
      · simp only [if_true, denote_eq_fromProto authz ty _ value x hvalue]
        rfl
      · exact absurd hindex.symm (Fields.findTypeIndex_cons_ne hne ▸ Nat.succ_ne_zero _)
    · obtain ⟨rfl, hvalue⟩ | ⟨hne, hvalue⟩ := ha
      · exact absurd (hindex.trans (Fields.findTypeIndex_cons_self ..)) (Nat.succ_ne_zero _)
      · rw [Fields.findTypeIndex_cons_ne hne] at hindex
        have hy := denoteAlt_eq_fromProto authz alternatives pd variantType value y
          (Nat.succ.inj hindex) hvalue
        simp only [hne, if_false, hy]
        rfl

theorem denoteFields_eq_fromProto (authz : Authorizer) : (fields : Fields) →
    (pd : ParamDescriptor) → (srcFields : List (String × Value)) → (dst : fields.Vals) →
    (validFromProtoFields authz fields pd srcFields).isOk = true →
    denoteFields fields pd srcFields = some (fromProtoFields authz fields pd srcFields dst)
  | .nil, _, _, _, _ => rfl
  | .cons name info ty rest, pd, srcFields, (x, xs), h => by
    obtain ⟨⟨value, hfind, hvalue⟩, hrest⟩ :=
      (validFromProtoFields_cons authz pd name info ty rest srcFields).mp h
    have hx := denote_eq_fromProto authz ty (pd.getSubParam info ty) value x hvalue
    have hxs := denoteFields_eq_fromProto authz rest pd srcFields xs hrest
    simp only [denoteFields, fromProtoFields, hfind, hx, hxs, Option.bind_some, Option.getD_some]
    rfl

theorem denoteAlt_eq_fromProto (authz : Authorizer) : (alternatives : Fields) →
    (pd : ParamDescriptor) → (variantType : String) → (value : Value) →
    (dst : alternatives.Alt) →
    alternatives.altIndex dst = alternatives.findTypeIndex variantType →
    (validFromProtoAlt authz alternatives pd variantType value).isOk = true →
    denoteAlt alternatives pd variantType value = some (fromProtoAlt authz alternatives pd value dst)
  | .nil, _, _, _, dst, _, _ => Empty.elim dst
  | .cons name info ty rest, pd, variantType, value, .inl x, hindex, h => by
    obtain ⟨rfl, hvalue⟩ | ⟨hne, hvalue⟩ := (validFromProtoAlt_cons ..).mp h
    · simp only [denoteAlt, fromProtoAlt, if_true, denote_eq_fromProto authz ty _ value x hvalue]
      rfl
    · exact absurd hindex.symm (Fields.findTypeIndex_cons_ne hne ▸ Nat.succ_ne_zero _)
  | .cons name info ty rest, pd, variantType, value, .inr y, hindex, h => by
    obtain ⟨rfl, hvalue⟩ | ⟨hne, hvalue⟩ := (validFromProtoAlt_cons ..).mp h
    · exact absurd (hindex.trans (Fields.findTypeIndex_cons_self ..)) (Nat.succ_ne_zero _)
    · rw [Fields.findTypeIndex_cons_ne hne] at hindex
      have hy := denoteAlt_eq_fromProto authz rest pd variantType value y
        (Nat.succ.inj hindex) hvalue
      simp only [denoteAlt, fromProtoAlt, hne, if_false, hy]
      rfl

end

theorem fromProtoElem_fst (authz : Authorizer) (e : ElemTy) (pd : ParamDescriptor)
    (src : Value) (dst : e.Val) :
    (fromProtoElem authz e pd src dst).1 = validFromProtoElem authz e pd src := by
  cases e with
  | int32 | float | string => simp only [fromProtoElem]; split <;> rfl
  | struct fields => simp only [fromProtoElem]; split <;> rfl
  | variant name info ty alternatives =>
    simp only [fromProtoElem]
    split
    · split
      · split <;> rfl
      · rfl
    · rfl

theorem fromProto_fst (authz : Authorizer) (t : Ty) (pd : ParamDescriptor) (src : Value)
    (dst : t.Val) : (fromProto authz t pd src dst).1 = validFromProto authz t pd src := by
  cases t with
  | empty type subParams => rfl
  | elem e => exact fromProtoElem_fst authz e pd src dst
  | vector e => cases e <;> simp only [fromProto] <;> split <;> rfl

mutual

/-- Every `fromProto` call made below a call on `src` succeeds, on any destination. -/
def NestedSucceed (authz : Authorizer) : Ty → ParamDescriptor → Value → Prop
  | .empty _ _, _, _ => True
  | .elem e, pd, src => NestedSucceedElem authz e pd src
  | .vector e, pd, src => ∃ items, Value.items e src = some items ∧ ∀ item ∈ items,
      (∀ dst, (fromProtoElem authz e pd item dst).1.isOk = true) ∧
        NestedSucceedElem authz e pd item

def NestedSucceedElem (authz : Authorizer) : ElemTy → ParamDescriptor → Value → Prop
  | .struct fields, pd, src =>
      ∃ srcFields, src.struct? = some srcFields ∧ NestedSucceedFields authz fields pd srcFields
  | .variant name info ty alternatives, pd, src =>
      ∃ variant, src.structVariant? = some variant ∧
        ((name = variant.1 ∧
          (∀ dst, (fromProto authz ty (pd.getSubParam info ty) variant.2 dst).1.isOk = true) ∧
            NestedSucceed authz ty (pd.getSubParam info ty) variant.2) ∨
        (name ≠ variant.1 ∧ NestedSucceedAlt authz alternatives pd variant.1 variant.2))
  | _, _, _ => True

def NestedSucceedFields (authz : Authorizer) :
    Fields → ParamDescriptor → List (String × Value) → Prop
  | .nil, _, _ => True
  | .cons name info ty rest, pd, srcFields =>
      (∃ value, Value.find srcFields name = some value ∧
        (∀ dst, (fromProto authz ty (pd.getSubParam info ty) value dst).1.isOk = true) ∧
          NestedSucceed authz ty (pd.getSubParam info ty) value) ∧
      NestedSucceedFields authz rest pd srcFields

def NestedSucceedAlt (authz : Authorizer) :
    Fields → ParamDescriptor → String → Value → Prop
  | .nil, _, _, _ => False
  | .cons name info ty rest, pd, variantType, value =>
      (name = variantType ∧
        (∀ dst, (fromProto authz ty (pd.getSubParam info ty) value dst).1.isOk = true) ∧
          NestedSucceed authz ty (pd.getSubParam info ty) value) ∨
      (name ≠ variantType ∧ NestedSucceedAlt authz rest pd variantType value)

end

mutual

theorem nestedSucceed_of_valid (authz : Authorizer) : (t : Ty) → (pd : ParamDescriptor) →
    (src : Value) → (validFromProto authz t pd src).isOk = true → NestedSucceed authz t pd src
  | .empty _ _, _, _, _ => trivial
  | .elem e, pd, src, h => nestedSucceedElem_of_valid authz e pd src h
  | .vector e, pd, src, h => by
    obtain ⟨_, items, hi, _, _, hitems⟩ := (validFromProto_vector authz pd src e).mp h
    refine ⟨items, hi, fun item hitem => ⟨fun dst => ?_, ?_⟩⟩
    · exact (fromProtoElem_fst authz e pd item dst).symm ▸ hitems item hitem
    · exact nestedSucceedElem_of_valid authz e pd item (hitems item hitem)

theorem nestedSucceedElem_of_valid (authz : Authorizer) : (e : ElemTy) →
    (pd : ParamDescriptor) → (src : Value) → (validFromProtoElem authz e pd src).isOk = true →
    NestedSucceedElem authz e pd src
  | .int32, _, _, _ => trivial
  | .float, _, _, _ => trivial
  | .string, _, _, _ => trivial
  | .struct fields, pd, src, h => by
    obtain ⟨_, srcFields, rfl, hf⟩ := (validFromProtoElem_struct authz pd src fields).mp h
    exact ⟨srcFields, rfl, nestedSucceedFields_of_valid authz fields pd srcFields hf⟩
  | .variant name info ty alternatives, pd, src, h => by
    obtain ⟨_, variantType, value, rfl, ha⟩ :=
      (validFromProtoElem_variant authz pd src name info ty alternatives).mp h
    refine ⟨(variantType, value), rfl, ?_⟩
    obtain ⟨hname, hvalue⟩ | ⟨hname, hvalue⟩ := (validFromProtoAlt_cons ..).mp ha
    · exact .inl ⟨hname, fun dst => (fromProto_fst authz ty _ value dst).symm ▸ hvalue,
        nestedSucceed_of_valid authz ty _ value hvalue⟩
    · exact .inr ⟨hname, nestedSucceedAlt_of_valid authz alternatives pd variantType value hvalue⟩

theorem nestedSucceedFields_of_valid (authz : Authorizer) : (fields : Fields) →
    (pd : ParamDescriptor) → (srcFields : List (String × Value)) →
    (validFromProtoFields authz fields pd srcFields).isOk = true →
    NestedSucceedFields authz fields pd srcFields
  | .nil, _, _, _ => trivial
  | .cons name info ty rest, pd, srcFields, h => by
    obtain ⟨⟨value, hfind, hvalue⟩, hrest⟩ :=
      (validFromProtoFields_cons authz pd name info ty rest srcFields).mp h
    exact ⟨⟨value, hfind, fun dst => (fromProto_fst authz ty _ value dst).symm ▸ hvalue,
      nestedSucceed_of_valid authz ty _ value hvalue⟩,
      nestedSucceedFields_of_valid authz rest pd srcFields hrest⟩

theorem nestedSucceedAlt_of_valid (authz : Authorizer) : (alternatives : Fields) →
    (pd : ParamDescriptor) → (variantType : String) → (value : Value) →
    (validFromProtoAlt authz alternatives pd variantType value).isOk = true →
    NestedSucceedAlt authz alternatives pd variantType value
  | .nil, pd, variantType, value, h => by simp [validFromProtoAlt] at h
  | .cons name info ty rest, pd, variantType, value, h => by
    obtain ⟨hname, hvalue⟩ | ⟨hname, hvalue⟩ := (validFromProtoAlt_cons ..).mp h
    · exact .inl ⟨hname, fun dst => (fromProto_fst authz ty _ value dst).symm ▸ hvalue,
        nestedSucceed_of_valid authz ty _ value hvalue⟩
    · exact .inr ⟨hname, nestedSucceedAlt_of_valid authz rest pd variantType value hvalue⟩

end

/-- A write either fails and leaves its destination alone, or succeeds and leaves exactly the
denotation of its source, with no nested write failing. -/
theorem fromProto_atomic (authz : Authorizer) (t : Ty) (pd : ParamDescriptor) (src : Value)
    (dst : t.Val) :
    ((fromProto authz t pd src dst).1.isOk = false ∧ (fromProto authz t pd src dst).2 = dst) ∨
    ((fromProto authz t pd src dst).1.isOk = true ∧
      denote t pd src = some (fromProto authz t pd src dst).2 ∧
      NestedSucceed authz t pd src) := by
  cases h : (validFromProto authz t pd src).isOk with
  | false =>
    left
    rw [fromProto_invalid authz t pd src dst h]
    exact ⟨h, rfl⟩
  | true =>
    right
    rw [fromProto_fst]
    exact ⟨h, denote_eq_fromProto authz t pd src dst h, nestedSucceed_of_valid authz t pd src h⟩

end Catena.Store
