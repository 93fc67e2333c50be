import Catena.Store.Denote
import Catena.Store.Every

/-!
# Round trip of the serialization

`encode` is the protobuf value that a readable value is serialized to. Reading it back gives
the value again, with two exceptions: an empty array of variants is serialized to an unset
value, since only `add_struct_variants` would have set the member, and a string is checked
against the total length of its descriptor instead of the maximum length.
-/

namespace Catena.Store

open ExceptionWithStatus (ok)

mutual

/-- The value `toProto` writes into a fresh protobuf value. -/
def encode : (t : Ty) → t.Val → Value
  | .empty _ _, _ => .kindNotSet
  | .elem e, v => encodeElem e v
  | .vector .int32, v => .int32ArrayValues v
  | .vector .float, v => .float32ArrayValues v
  | .vector .string, v => .stringArrayValues v
  | .vector (.struct fields), v => .structArrayValues ((v : List _).map (encodeFields fields))
  | .vector (.variant name info ty alternatives), v =>
      match (v : List (ElemTy.variant name info ty alternatives).Val) with
      | [] => .kindNotSet
      | x :: xs => .structVariantArrayValues ((x :: xs).map fun item =>
          (encodeElem (.variant name info ty alternatives) item).mutableStructVariantValue)

def encodeElem : (e : ElemTy) → e.Val → Value
  | .int32, v => .int32Value v
  | .float, v => .float32Value v
  | .string, v => .stringValue v
  | .struct fields, v => .structValue (encodeFields fields v)
  | .variant name _ ty alternatives, v =>
      match v with
      | .inl x => .structVariantValue name (encode ty x)
      | .inr y => .structVariantValue (encodeAlt alternatives y).1 (encodeAlt alternatives y).2

def encodeFields : (fields : Fields) → fields.Vals → List (String × Value)
  | .nil, _ => []
  | .cons name _ ty rest, (x, xs) => (name, encode ty x) :: encodeFields rest xs

def encodeAlt : (alternatives : Fields) → alternatives.Alt → String × Value
  | .nil, v => Empty.elim v
  | .cons name _ ty rest, v =>
      match v with
      | .inl x => (name, encode ty x)
      | .inr y => encodeAlt rest y

end

mutual

/-- The client may read and write every descriptor of the tree that carries a value. -/
def Ty.Accessible (authz : Authorizer) : Ty → ParamDescriptor → Prop
  | .empty _ _, _ => True
  | .elem e, pd => e.Accessible authz pd
  | .vector e, pd => e.Accessible authz pd

def ElemTy.Accessible (authz : Authorizer) : ElemTy → ParamDescriptor → Prop
  | .struct fields, pd =>
      (authz.readAuthz pd = true ∧ authz.writeAuthz pd = true) ∧ fields.Accessible authz pd
  | .variant _ info ty alternatives, pd =>
      (authz.readAuthz pd = true ∧ authz.writeAuthz pd = true) ∧
        ty.Accessible authz (pd.getSubParam info ty) ∧ alternatives.Accessible authz pd
  | _, pd => authz.readAuthz pd = true ∧ authz.writeAuthz pd = true

def Fields.Accessible (authz : Authorizer) : Fields → ParamDescriptor → Prop
  | .nil, _ => True
  | .cons _ info ty rest, pd =>
      ty.Accessible authz (pd.getSubParam info ty) ∧ rest.Accessible authz pd

end

theorem ElemTy.Accessible.self {authz : Authorizer} {e : ElemTy} {pd : ParamDescriptor}
    (h : e.Accessible authz pd) : authz.readAuthz pd = true ∧ authz.writeAuthz pd = true := by
  cases e with
  | int32 | float | string => simpa [ElemTy.Accessible] using h
  | struct fields => exact (by simpa [ElemTy.Accessible] using h : _ ∧ _).1
  | variant name info ty alternatives => exact (by simpa [ElemTy.Accessible] using h : _ ∧ _).1

theorem serializeItems_eq_map {α β : Type} (item : α → ExceptionWithStatus × β) (f : α → β)
    (xs : List α) (h : ∀ x ∈ xs, item x = (ok, f x)) :
    serializeItems item xs = (ok, xs.map f) := by
  induction xs with
  | nil => rfl
  | cons x xs ih =>
    have hx : item x = (ok, f x) := h x (by simp)
    have hxs := ih fun y hy => h y (by simp [hy])
    simp [serializeItems, hx, hxs]

namespace Value

theorem insert_of_find_none (fields : List (String × Value)) (name : String) (value : Value)
    (h : find fields name = none) : insert fields name value = fields ++ [(name, value)] := by
  induction fields with
  | nil => rfl
  | cons field fields ih =>
    by_cases hn : field.1 = name
    · simp [find, hn] at h
    · have hf : find fields name = none := by simpa [find, hn] using h
      simp [insert, hn, ih hf]

theorem find_append_ne (fields : List (String × Value)) (name other : String) (value : Value)
    (h : name ≠ other) : find (fields ++ [(name, value)]) other = find fields other := by
  simp [find, List.find?_append, h]

theorem foldl_addStructVariant (xs items : List (String × Value)) :
    items.foldl addStructVariant (.structVariantArrayValues xs) =
      .structVariantArrayValues (xs ++ items) := by
  induction items generalizing xs with
  | nil => simp
  | cons item items ih => simp [addStructVariant, ih]

end Value

mutual

/-- Serialization of a readable value succeeds and writes its encoding. -/
theorem toProto_eq_encode (authz : Authorizer) : (t : Ty) → (pd : ParamDescriptor) →
    (v : t.Val) → t.WellFormed → t.Accessible authz pd →
    toProto authz t pd v .kindNotSet = (ok, encode t v)
  | .empty _ _, _, _, _, _ => rfl
  | .elem e, pd, v, hwf, ha => toProtoElem_eq_encode authz e pd v hwf ha
  | .vector .int32, pd, v, _, ha => by
    simp only [toProto, (ElemTy.Accessible.self ha).1, if_true, encode]
  | .vector .float, pd, v, _, ha => by
    simp only [toProto, (ElemTy.Accessible.self ha).1, if_true, encode]
  | .vector .string, pd, v, _, ha => by
    simp only [toProto, (ElemTy.Accessible.self ha).1, if_true, encode]
  | .vector (.struct fields), pd, v, hwf, ha => by
    have hitem := toProtoElem_eq_encode authz (.struct fields) pd
    have hitems := serializeItems_eq_map (fun item : (ElemTy.struct fields).Val =>
      let elemValue := toProtoElem authz (.struct fields) pd item .kindNotSet
      (elemValue.1, elemValue.2.mutableStructValue)) (encodeFields fields) v
      fun x _ => by simp only [hitem x hwf ha, encodeElem, Value.mutableStructValue]
    simp only [toProto, (ElemTy.Accessible.self ha).1, if_true, hitems, ExceptionWithStatus.isOk_ok,
      encode]
    rfl
  | .vector (.variant name info ty alternatives), pd, v, hwf, ha => by
    have hitem := toProtoElem_eq_encode authz (.variant name info ty alternatives) pd
    have hitems := serializeItems_eq_map
      (fun item : (ElemTy.variant name info ty alternatives).Val =>
        let elemValue := toProtoElem authz (.variant name info ty alternatives) pd item .kindNotSet
        (elemValue.1, elemValue.2.mutableStructVariantValue))
      (fun item =>
        (encodeElem (.variant name info ty alternatives) item).mutableStructVariantValue) v
      fun x _ => by simp only [hitem x hwf ha]
    simp only [toProto, (ElemTy.Accessible.self ha).1, if_true, hitems, ExceptionWithStatus.isOk_ok]
    cases v with
    | nil => rfl
    | cons x xs =>
      simp only [List.map_cons, List.foldl_cons, Value.clearStructVariantArrayValues,
        Value.addStructVariant, Value.foldl_addStructVariant]
      rfl

theorem toProtoElem_eq_encode (authz : Authorizer) : (e : ElemTy) → (pd : ParamDescriptor) →
    (v : e.Val) → e.WellFormed → e.Accessible authz pd →
    toProtoElem authz e pd v .kindNotSet = (ok, encodeElem e v)
  | .int32, pd, v, _, ha => by
    simp only [toProtoElem, (ElemTy.Accessible.self ha).1, if_true, encodeElem]
  | .float, pd, v, _, ha => by
    simp only [toProtoElem, (ElemTy.Accessible.self ha).1, if_true, encodeElem]
  | .string, pd, v, _, ha => by
    simp only [toProtoElem, (ElemTy.Accessible.self ha).1, if_true, encodeElem]
  | .struct fields, pd, v, hwf, ha => by
    have hfields := toProtoFields_eq_encode authz fields pd v [] hwf ha.2 fun _ _ => rfl
    simp only [toProtoElem, (ElemTy.Accessible.self ha).1, if_true, hfields,
      ExceptionWithStatus.isOk_ok, List.nil_append, encodeElem]
  | .variant name info ty alternatives, pd, .inl x, hwf, ha => by
    have hx := toProto_eq_encode authz ty (pd.getSubParam info ty) x hwf.2.1 ha.2.1
    simp only [toProtoElem, (ElemTy.Accessible.self ha).1, if_true, hx,
      ExceptionWithStatus.isOk_ok, encodeElem]
  | .variant name info ty alternatives, pd, .inr y, hwf, ha => by
    have hy := toProtoAlt_eq_encode authz alternatives pd y hwf.2.2 ha.2.2
    simp only [toProtoElem, (ElemTy.Accessible.self ha).1, if_true, hy,
      ExceptionWithStatus.isOk_ok, encodeElem]

theorem toProtoFields_eq_encode (authz : Authorizer) : (fields : Fields) →
    (pd : ParamDescriptor) → (xs : fields.Vals) → (dst : List (String × Value)) →
    fields.WellFormed → fields.Accessible authz pd →
    (∀ name ∈ fields.names, Value.find dst name = none) →
    toProtoFields authz fields pd xs ok dst = (ok, dst ++ encodeFields fields xs)
  | .nil, _, _, dst, _, _, _ => by simp [toProtoFields, encodeFields]
  | .cons name info ty rest, pd, (x, xs), dst, hwf, ha, hdst => by
    have hname : Value.find dst name = none := hdst name (by simp [Fields.names])
    have hx := toProto_eq_encode authz ty (pd.getSubParam info ty) x hwf.2.1 ha.1
    have hrest := toProtoFields_eq_encode authz rest pd xs (dst ++ [(name, encode ty x)])
      hwf.2.2 ha.2 fun other hother => by
        have hne : name ≠ other := fun h => hwf.1 (h ▸ hother)
        rw [Value.find_append_ne _ _ _ _ hne]
        exact hdst other (by simp [Fields.names, hother])
    simp only [toProtoFields, ExceptionWithStatus.isOk_ok, if_true, hname, Option.getD_none, hx,
      Value.insert_of_find_none _ _ _ hname, hrest, encodeFields, List.append_assoc,
      List.singleton_append]

theorem toProtoAlt_eq_encode (authz : Authorizer) : (alternatives : Fields) →
    (pd : ParamDescriptor) → (v : alternatives.Alt) → alternatives.WellFormed →
    alternatives.Accessible authz pd →
    toProtoAlt authz alternatives pd v =
      ((encodeAlt alternatives v).1, ok, (encodeAlt alternatives v).2)
  | .nil, _, v, _, _ => Empty.elim v
  | .cons name info ty rest, pd, .inl x, hwf, ha => by
    simp only [toProtoAlt, toProto_eq_encode authz ty _ x hwf.2.1 ha.1, encodeAlt]
  | .cons name info ty rest, pd, .inr y, hwf, ha => by
    simp only [toProtoAlt, toProtoAlt_eq_encode authz rest pd y hwf.2.2 ha.2, encodeAlt]

end

/-- A value within the lengths and constraints of its descriptor; a float has no range. -/
def WithinLimits : NodeProp
  | .elem .int32, pd, (i : Int32) =>
      ∀ c, pd.getConstraint = some c → c.satisfied (.int32Value i) = true
  | .elem .float, pd, (f : Float32) =>
      ∀ c, pd.getConstraint = some c → c.isRange = false ∧ c.satisfied (.float32Value f) = true
  | .elem .string, pd, (s : String) =>
      (∀ c, pd.getConstraint = some c → c.satisfied (.stringValue s) = true) ∧
        (pd.type = .string → s.utf8ByteSize ≤ pd.maxLength)
  | .vector e, pd, (v : List e.Val) =>
      v.length ≤ pd.maxLength ∧ (v.map e.size).sum ≤ pd.totalLength
  | _, _, _ => True

/-- What a value needs besides: an array of variants is not empty and a string is not longer
than the total length of its descriptor. -/
def Restorable : NodeProp
  | .elem .string, pd, (s : String) => pd.type = .string → s.utf8ByteSize ≤ pd.totalLength
  | .vector (.variant ..), _, v => v ≠ List.nil
  | _, _, _ => True

theorem size_encodeElem (e : ElemTy) (v : e.Val) : (encodeElem e v).size = e.size v := by
  cases e with
  | int32 | float | string | struct fields => rfl
  | variant name info ty alternatives => cases v <;> rfl

theorem items_encode (e : ElemTy) (pd : ParamDescriptor) (v : List e.Val)
    (h : Restorable (.vector e) pd v) :
    Value.items e (encode (.vector e) v) = some (v.map (encodeElem e)) := by
  cases e with
  | int32 | float | string => rfl
  | struct fields =>
    simp only [encode, Value.items]
    exact congrArg some List.map_map
  | variant name info ty alternatives =>
    cases v with
    | nil => exact absurd rfl h
    | cons x xs =>
      have hitem (item : (ElemTy.variant name info ty alternatives).Val) :
          Value.structVariantValue
            (encodeElem (.variant name info ty alternatives) item).mutableStructVariantValue.1
            (encodeElem (.variant name info ty alternatives) item).mutableStructVariantValue.2 =
          encodeElem (.variant name info ty alternatives) item := by
        cases item <;> rfl
      simp only [encode, Value.items, List.map_map, Function.comp_def, hitem]

theorem items_encode_none (e : ElemTy) (pd : ParamDescriptor) (v : List e.Val)
    (h : ¬Restorable (.vector e) pd v) : Value.items e (encode (.vector e) v) = none := by
  cases e with
  | int32 | float | string | struct fields => exact absurd trivial h
  | variant name info ty alternatives =>
    cases v with
    | nil => rfl
    | cons x xs => exact absurd (List.cons_ne_nil x xs) h

theorem violatesChoice_of_satisfied {pd : ParamDescriptor} {src : Value}
    (h : ∀ c, pd.getConstraint = some c → c.satisfied src = true) :
    violatesChoice pd src = false := by
  cases hc : pd.getConstraint with
  | none => simp [violatesChoice, hc]
  | some c => simp [violatesChoice, hc, h c hc]

theorem violatesConstraint_of_satisfied {pd : ParamDescriptor} {src : Value}
    (h : ∀ c, pd.getConstraint = some c → c.satisfied src = true) :
    violatesConstraint pd src = false := by
  cases hc : pd.getConstraint with
  | none => simp [violatesConstraint, hc]
  | some c => simp [violatesConstraint, hc, h c hc]

theorem applyInt_of_satisfied {min max step s : Int32}
    (h : (Constraint.intRange min max step).satisfied (.int32Value s) = true) :
    Constraint.applyInt min max step s = s := by
  obtain ⟨⟨hmin, hmax⟩, hstep⟩ : (min ≤ s ∧ s ≤ max) ∧ (step = 0 ∨ (s - min) % step = 0) := by
    simpa [Constraint.satisfied] using h
  have h1 : ¬s < min := Int32.not_lt.mpr hmin
  have h2 : ¬max < s := Int32.not_lt.mpr hmax
  have h3 : ¬(step ≠ 0 ∧ (s - min) % step ≠ 0) := by
    rintro ⟨hs, hr⟩
    exact hstep.elim hs hr
  simp only [Constraint.applyInt, gt_iff_lt, h1, h2, h3, if_false]

theorem constrained_int32 {pd : ParamDescriptor} {i : Int32}
    (h : ∀ c, pd.getConstraint = some c → c.satisfied (.int32Value i) = true) :
    (constrained pd (.int32Value i)).getInt32 = i := by
  cases hc : pd.getConstraint with
  | none => simp [constrained, hc, Value.getInt32]
  | some c =>
    have hs := h c hc
    cases c with
    | intRange min max step =>
      simp [constrained, hc, Constraint.isRange, Constraint.apply, applyInt_of_satisfied hs,
        Value.getInt32]
    | floatRange min max step => simp [Constraint.satisfied] at hs
    | _ => simp [constrained, hc, Constraint.isRange, Value.getInt32]

theorem constrained_float32 {pd : ParamDescriptor} {f : Float32}
    (h : ∀ c, pd.getConstraint = some c → c.isRange = false) :
    (constrained pd (.float32Value f)).getFloat32 = f := by
  cases hc : pd.getConstraint with
  | none => simp [constrained, hc, Value.getFloat32]
  | some c => simp [constrained, hc, h c hc, Value.getFloat32]

theorem mem_names_encodeAlt : (alternatives : Fields) → (v : alternatives.Alt) →
    (encodeAlt alternatives v).1 ∈ alternatives.names
  | .nil, v => Empty.elim v
  | .cons _ _ _ _, .inl _ => List.mem_cons_self
  | .cons _ _ _ rest, .inr y => List.mem_cons_of_mem _ (mem_names_encodeAlt rest y)

theorem find_encodeFields_cons (name : String) (info : Descriptor) (ty : Ty) (rest : Fields)
    (x : ty.Val) (xs : rest.Vals) (other : String) :
    Value.find (encodeFields (.cons name info ty rest) (x, xs)) other =
      if name = other then some (encode ty x) else Value.find (encodeFields rest xs) other := by
  by_cases h : name = other
  · simp [encodeFields, Value.find, h]
  · simp [encodeFields, Value.find, h]

mutual

/-- Of the values within their limits, exactly the restorable ones have a valid encoding. -/
theorem valid_encode (authz : Authorizer) : (t : Ty) → (pd : ParamDescriptor) → (v : t.Val) →
    t.WellFormed → t.Accessible authz pd → t.Every WithinLimits pd v →
    ((validFromProto authz t pd (encode t v)).isOk = true ↔ t.Every Restorable pd v)
  | .empty _ _, _, _, _, _, _ => by simp [validFromProto, Ty.Every, Restorable]
  | .elem e, pd, v, hwf, ha, hl => valid_encodeElem authz e pd v hwf ha hl
  | .vector e, pd, (v : List e.Val), hwf, ha, hl => by
    have helem (x : e.Val) (hx : x ∈ v) := valid_encodeElem authz e pd x hwf ha (hl.2 x hx)
    rw [validFromProto_vector]
    by_cases hr : Restorable (.vector e) pd v
    · have hitems := items_encode e pd v hr
      have hsizes : (v.map (encodeElem e)).map Value.size = v.map e.size := by
        simp [Function.comp_def, size_encodeElem]
      constructor
      · rintro ⟨_, items, hi, _, _, hvalid⟩
        obtain rfl : v.map (encodeElem e) = items := Option.some.inj (hitems.symm.trans hi)
        exact ⟨hr, fun x hx => (helem x hx).mp (hvalid _ (List.mem_map_of_mem hx))⟩
      · rintro ⟨_, hall⟩
        refine ⟨(ElemTy.Accessible.self ha).2, _, hitems, by simpa using hl.1.1,
          hsizes.symm ▸ hl.1.2, List.forall_mem_map.mpr fun x hx => ?_⟩
        exact (helem x hx).mpr (hall x hx)
    · refine iff_of_false ?_ fun h => hr h.1
      rintro ⟨_, items, hi, _⟩
      rw [items_encode_none e pd v hr] at hi
      cases hi

theorem valid_encodeElem (authz : Authorizer) : (e : ElemTy) → (pd : ParamDescriptor) →
    (v : e.Val) → e.WellFormed → e.Accessible authz pd → e.Every WithinLimits pd v →
    ((validFromProtoElem authz e pd (encodeElem e v)).isOk = true ↔ e.Every Restorable pd v)
  | .int32, pd, v, _, ha, hl => by
    rw [validFromProtoElem_int32]
    exact iff_of_true ⟨ha.self.2, violatesChoice_of_satisfied hl, v, rfl⟩ trivial
  | .float, pd, v, _, ha, hl => by
    rw [validFromProtoElem_float]
    exact iff_of_true
      ⟨ha.self.2, violatesChoice_of_satisfied fun c hc => (hl c hc).2, v, rfl⟩ trivial
  | .string, pd, v, _, ha, hl => by
    rw [validFromProtoElem_string]
    exact ⟨fun h => h.2.1,
      fun h => ⟨ha.self.2, h, violatesConstraint_of_satisfied hl.1, v, rfl⟩⟩
  | .struct fields, pd, v, hwf, ha, hl => by
    have hf := valid_encodeFields authz fields pd v (encodeFields fields v) hwf ha.2 hl.2
      fun _ _ => rfl
    rw [validFromProtoElem_struct]
    constructor
    · rintro ⟨_, srcFields, hsrc, hvalid⟩
      obtain rfl : encodeFields fields v = srcFields := Value.structValue.inj hsrc
      exact ⟨trivial, hf.mp hvalid⟩
    · rintro ⟨_, hr⟩
      exact ⟨ha.self.2, encodeFields fields v, rfl, hf.mpr hr⟩
  | .variant name info ty alternatives, pd, .inl x, hwf, ha, hl => by
    have hx := valid_encode authz ty (pd.getSubParam info ty) x hwf.2.1 ha.2.1 hl.2
    simpa [validFromProtoElem, encodeElem, ha.self.2, ElemTy.Every, Restorable] using hx
  | .variant name info ty alternatives, pd, .inr y, hwf, ha, hl => by
    have hy := valid_encodeAlt authz alternatives pd y hwf.2.2 ha.2.2 hl.2
    have hne : name ≠ (encodeAlt alternatives y).1 := fun h =>
      hwf.1 (h ▸ mem_names_encodeAlt alternatives y)
    simpa [validFromProtoElem, encodeElem, ha.self.2, ElemTy.Every, Restorable, hne] using hy

theorem valid_encodeFields (authz : Authorizer) : (fields : Fields) → (pd : ParamDescriptor) →
    (xs : fields.Vals) → (srcFields : List (String × Value)) → fields.WellFormed →
    fields.Accessible authz pd → fields.Every WithinLimits pd xs →
    (∀ name ∈ fields.names, Value.find srcFields name = Value.find (encodeFields fields xs) name) →
    ((validFromProtoFields authz fields pd srcFields).isOk = true ↔
      fields.Every Restorable pd xs)
  | .nil, _, _, _, _, _, _, _ => by simp [validFromProtoFields, Fields.Every]
  | .cons name info ty rest, pd, (x, xs), srcFields, hwf, ha, hl, hsrc => by
    have hname : Value.find srcFields name = some (encode ty x) := by
      rw [hsrc name (by simp [Fields.names]), find_encodeFields_cons, if_pos rfl]
    have hx := valid_encode authz ty (pd.getSubParam info ty) x hwf.2.1 ha.1 hl.1
    have hxs := valid_encodeFields authz rest pd xs srcFields hwf.2.2 ha.2 hl.2
      fun other hother => by
        have hne : name ≠ other := fun h => hwf.1 (h ▸ hother)
        rw [hsrc other (by simp [Fields.names, hother]), find_encodeFields_cons, if_neg hne]
    rw [validFromProtoFields_cons, hxs]
    simp only [hname, Option.some.injEq, exists_eq_left', hx, Fields.Every]

theorem valid_encodeAlt (authz : Authorizer) : (alternatives : Fields) →
    (pd : ParamDescriptor) → (v : alternatives.Alt) → alternatives.WellFormed →
    alternatives.Accessible authz pd → alternatives.EveryAlt WithinLimits pd v →
    ((validFromProtoAlt authz alternatives pd (encodeAlt alternatives v).1
        (encodeAlt alternatives v).2).isOk = true ↔ alternatives.EveryAlt Restorable pd v)
  | .nil, _, v, _, _, _ => Empty.elim v
  | .cons name info ty rest, pd, .inl x, hwf, ha, hl => by
    have hx := valid_encode authz ty (pd.getSubParam info ty) x hwf.2.1 ha.1 hl
    simpa [validFromProtoAlt, encodeAlt, Fields.EveryAlt] using hx
  | .cons name info ty rest, pd, .inr y, hwf, ha, hl => by
    have hy := valid_encodeAlt authz rest pd y hwf.2.2 ha.2 hl
    have hne : name ≠ (encodeAlt rest y).1 := fun h => hwf.1 (h ▸ mem_names_encodeAlt rest y)
    simpa [validFromProtoAlt, encodeAlt, Fields.EveryAlt, hne] using hy

end

mutual

theorem denote_encode : (t : Ty) → (pd : ParamDescriptor) → (v : t.Val) → t.WellFormed →
    t.Every WithinLimits pd v → t.Every Restorable pd v → denote t pd (encode t v) = some v
  | .empty _ _, _, _, _, _, _ => rfl
  | .elem e, pd, v, hwf, hl, hr => denote_encodeElem e pd v hwf hl hr
  | .vector e, pd, (v : List e.Val), hwf, hl, hr => by
    have hitems := items_encode e pd v hr.1
    simp only [denote, hitems]
    have hmap := mapM_eq_some_map (denoteElem e pd ∘ encodeElem e) id v fun x hx =>
      denote_encodeElem e pd x hwf (hl.2 x hx) (hr.2 x hx)
    rw [← List.mapM_map, List.map_id] at hmap
    exact hmap

theorem denote_encodeElem : (e : ElemTy) → (pd : ParamDescriptor) → (v : e.Val) →
    e.WellFormed → e.Every WithinLimits pd v → e.Every Restorable pd v →
    denoteElem e pd (encodeElem e v) = some v
  | .int32, pd, v, _, hl, _ => congrArg some (constrained_int32 hl)
  | .float, pd, v, _, hl, _ => congrArg some (constrained_float32 fun c hc => (hl c hc).1)
  | .string, _, _, _, _, _ => rfl
  | .struct fields, pd, v, hwf, hl, hr =>
    denote_encodeFields fields pd v (encodeFields fields v) hwf hl.2 hr.2 fun _ _ => rfl
  | .variant name info ty alternatives, pd, .inl x, hwf, hl, hr => by
    have hx := denote_encode ty (pd.getSubParam info ty) x hwf.2.1 hl.2 hr.2
    simp only [denoteElem, encodeElem, Value.structVariant?, Option.bind_some, if_true, hx]
    rfl
  | .variant name info ty alternatives, pd, .inr y, hwf, hl, hr => by
    have hy := denote_encodeAlt alternatives pd y hwf.2.2 hl.2 hr.2
    have hne : name ≠ (encodeAlt alternatives y).1 := fun h =>
      hwf.1 (h ▸ mem_names_encodeAlt alternatives y)
    simp only [denoteElem, encodeElem, Value.structVariant?, Option.bind_some, hne, if_false, hy]
    rfl

theorem denote_encodeFields : (fields : Fields) → (pd : ParamDescriptor) →
    (xs : fields.Vals) → (srcFields : List (String × Value)) → fields.WellFormed →
    fields.Every WithinLimits pd xs → fields.Every Restorable pd xs →
    (∀ name ∈ fields.names, Value.find srcFields name = Value.find (encodeFields fields xs) name) →
    denoteFields fields pd srcFields = some xs
  | .nil, _, _, _, _, _, _, _ => rfl
  | .cons name info ty rest, pd, (x, xs), srcFields, hwf, hl, hr, hsrc => by
    have hname : Value.find srcFields name = some (encode ty x) := by
      rw [hsrc name (by simp [Fields.names]), find_encodeFields_cons, if_pos rfl]
    have hx := denote_encode ty (pd.getSubParam info ty) x hwf.2.1 hl.1 hr.1
    have hxs := denote_encodeFields rest pd xs srcFields hwf.2.2 hl.2 hr.2 fun other hother => by
      have hne : name ≠ other := fun h => hwf.1 (h ▸ hother)
      rw [hsrc other (by simp [Fields.names, hother]), find_encodeFields_cons, if_neg hne]
    simp only [denoteFields, hname, Option.bind_some, hx, hxs]
    rfl

theorem denote_encodeAlt : (alternatives : Fields) → (pd : ParamDescriptor) →
    (v : alternatives.Alt) → alternatives.WellFormed → alternatives.EveryAlt WithinLimits pd v →
    alternatives.EveryAlt Restorable pd v →
    denoteAlt alternatives pd (encodeAlt alternatives v).1 (encodeAlt alternatives v).2 = some v
  | .nil, _, v, _, _, _ => Empty.elim v
  | .cons name info ty rest, pd, .inl x, hwf, hl, hr => by
    have hx := denote_encode ty (pd.getSubParam info ty) x hwf.2.1 hl hr
    simp only [denoteAlt, encodeAlt, if_true, hx]
    rfl
  | .cons name info ty rest, pd, .inr y, hwf, hl, hr => by
    have hy := denote_encodeAlt rest pd y hwf.2.2 hl hr
    have hne : name ≠ (encodeAlt rest y).1 := fun h => hwf.1 (h ▸ mem_names_encodeAlt rest y)
    simp only [denoteAlt, encodeAlt, hne, if_false, hy]
    rfl

end

/-- Serialization succeeds, and reading the result back into any destination succeeds and
leaves the value. -/
def RoundTrips (authz : Authorizer) (t : Ty) (pd : ParamDescriptor) (v : t.Val) : Prop :=
  (toProto authz t pd v .kindNotSet).1.isOk = true ∧ ∀ dst : t.Val,
    (fromProto authz t pd (toProto authz t pd v .kindNotSet).2 dst).1.isOk = true ∧
      (fromProto authz t pd (toProto authz t pd v .kindNotSet).2 dst).2 = v

/-- A value within its limits survives serialization exactly when it holds no empty array of
variants and no string longer than the total length of its descriptor. -/
theorem roundTrips_iff_restorable (authz : Authorizer) (t : Ty) (pd : ParamDescriptor)
    (v : t.Val) (hwf : t.WellFormed) (ha : t.Accessible authz pd)
    (hl : t.Every WithinLimits pd v) :
    RoundTrips authz t pd v ↔ t.Every Restorable pd v := by
  have hto := toProto_eq_encode authz t pd v hwf ha
  have hvalid := valid_encode authz t pd v hwf ha hl
  simp only [RoundTrips, hto, fromProto_fst]
  constructor
  · rintro ⟨_, h⟩
    exact hvalid.mp (h t.default).1
  · intro hr
    refine ⟨rfl, fun dst => ⟨hvalid.mpr hr, ?_⟩⟩
    have hden := denote_eq_fromProto authz t pd (encode t v) dst (hvalid.mpr hr)
    exact Option.some.inj (hden.symm.trans (denote_encode t pd v hwf hl hr))

/-- A STRUCT_VARIANT_ARRAY with one INT32 alternative. -/
def variantArray : Ty := .vector (.variant "int" { oid := "int" } (.elem .int32) .nil)

def variantArrayDescriptor : ParamDescriptor where
  type := .structVariantArray
  info := { oid := "va" }
  parents := []
  dev := { defaultScope := "st2138:op" }

theorem roundTrips_iff_restorable_nonempty :
    RoundTrips .kAuthzDisabled variantArray variantArrayDescriptor [.inl (7 : Int32)] ↔
      variantArray.Every Restorable variantArrayDescriptor [.inl (7 : Int32)] := by
  refine roundTrips_iff_restorable .kAuthzDisabled variantArray variantArrayDescriptor
    [.inl (7 : Int32)] ?_ ?_ ?_
  · exact ⟨List.not_mem_nil, trivial, trivial⟩
  · exact ⟨⟨rfl, rfl⟩, ⟨rfl, rfl⟩, trivial⟩
  · refine ⟨⟨by decide, by decide⟩, fun x hx => ?_⟩
    obtain rfl : x = .inl (7 : Int32) := List.mem_singleton.mp hx
    refine ⟨trivial, fun c hc => ?_⟩
    cases hc

/-- The empty array of variants is within its limits and does not survive. -/
theorem empty_variantArray_not_roundTrips :
    variantArray.WellFormed ∧ variantArray.Accessible .kAuthzDisabled variantArrayDescriptor ∧
      variantArray.Every WithinLimits variantArrayDescriptor List.nil ∧
      ¬RoundTrips .kAuthzDisabled variantArray variantArrayDescriptor List.nil := by
  refine ⟨⟨List.not_mem_nil, trivial, trivial⟩, ⟨⟨rfl, rfl⟩, ⟨rfl, rfl⟩, trivial⟩,
    ⟨⟨by decide, by decide⟩, fun x hx => absurd hx List.not_mem_nil⟩, fun h => ?_⟩
  have hok := (h.2 List.nil).1
  exact absurd hok (by decide)

end Catena.Store
