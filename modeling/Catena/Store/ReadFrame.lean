import Catena.Store.Invariant

/-!
# What a client can learn from `getValue`

Two stores look alike to a client when they agree wherever the whole chain of descriptors may
be read: same array lengths, same alternatives, same leaves. Below a descriptor that may not
be read nothing is compared. `getValue` answers the same on both.
-/

namespace Catena.Store

open ExceptionWithStatus (ok)

mutual

/-- The two values cannot be told apart through descriptors the client may read. -/
def Ty.Alike (authz : Authorizer) : (t : Ty) → ParamDescriptor → t.Val → t.Val → Prop
  | .empty _ _, _, _, _ => True
  | .elem e, pd, v, w => e.Alike authz pd v w
  | .vector e, pd, v, w => authz.readAuthz pd = true → List.Forall₂ (e.Alike authz pd) v w

def ElemTy.Alike (authz : Authorizer) : (e : ElemTy) → ParamDescriptor → e.Val → e.Val → Prop
  | .int32, pd, v, w => authz.readAuthz pd = true → v = w
  | .float, pd, v, w => authz.readAuthz pd = true → v = w
  | .string, pd, v, w => authz.readAuthz pd = true → v = w
  | .struct fields, pd, v, w => authz.readAuthz pd = true → fields.Alike authz pd.getSubParam v w
  | .variant _ info ty alternatives, pd, v, w => authz.readAuthz pd = true →
      match v, w with
      | .inl x, .inl y => ty.Alike authz (pd.getSubParam info ty) x y
      | .inr x, .inr y => alternatives.AlikeAlt authz pd.getSubParam x y
      | _, _ => False

def Fields.Alike (authz : Authorizer) : (fields : Fields) →
    (Descriptor → Ty → ParamDescriptor) → fields.Vals → fields.Vals → Prop
  | .nil, _, _, _ => True
  | .cons _ info ty rest, sub, (x, xs), (y, ys) =>
      ty.Alike authz (sub info ty) x y ∧ rest.Alike authz sub xs ys

def Fields.AlikeAlt (authz : Authorizer) : (alternatives : Fields) →
    (Descriptor → Ty → ParamDescriptor) → alternatives.Alt → alternatives.Alt → Prop
  | .nil, _, _, _ => True
  | .cons _ info ty rest, sub, v, w =>
      match v, w with
      | .inl x, .inl y => ty.Alike authz (sub info ty) x y
      | .inr x, .inr y => rest.AlikeAlt authz sub x y
      | _, _ => False

end

/-- The two stores cannot be told apart through descriptors the client may read. -/
def Device.Alike (d : Device) (authz : Authorizer) (s₁ s₂ : d.State) : Prop :=
  d.params.Alike authz d.descriptor s₁ s₂

theorem serializeItems_congr {α β : Type} {item : α → ExceptionWithStatus × β}
    {R : α → α → Prop} (hR : ∀ x y, R x y → item x = item y) {xs ys : List α}
    (h : List.Forall₂ R xs ys) : serializeItems item xs = serializeItems item ys := by
  induction h with
  | nil => rfl
  | cons hxy _ ih => simp only [serializeItems, hR _ _ hxy, ih]

theorem eq_of_forall₂_eq {α : Type} {R : α → α → Prop} (hR : ∀ x y, R x y → x = y)
    {xs ys : List α} (h : List.Forall₂ R xs ys) : xs = ys := by
  induction h with
  | nil => rfl
  | cons hxy _ ih => rw [hR _ _ hxy, ih]

mutual

/-- Values that look alike are serialized alike. -/
theorem toProto_alike (authz : Authorizer) : (t : Ty) → (pd : ParamDescriptor) → (v w : t.Val) →
    (dst : Value) → t.Alike authz pd v w → toProto authz t pd v dst = toProto authz t pd w dst
  | .empty _ _, _, _, _, _, _ => rfl
  | .elem e, pd, v, w, dst, h => toProtoElem_alike authz e pd v w dst h
  | .vector e, pd, v, w, dst, h => by
    by_cases hr : authz.readAuthz pd = true
    · have hall := h hr
      cases e with
      | int32 | float | string =>
        obtain rfl : v = w := eq_of_forall₂_eq (fun _ _ hxy => hxy hr) hall
        rfl
      | struct fields =>
        have hitems := serializeItems_congr (fun x y hxy => congrArg
          (fun r : ExceptionWithStatus × Value => (r.1, r.2.mutableStructValue))
          (toProtoElem_alike authz (.struct fields) pd x y .kindNotSet hxy)) hall
        simp only [toProto, hr, if_true]
        exact congrArg (fun items : ExceptionWithStatus × List (List (String × Value)) =>
          if items.1.isOk then (items.1, Value.structArrayValues items.2)
          else (items.1, .kindNotSet)) hitems
      | variant name info ty alternatives =>
        have hitems := serializeItems_congr (fun x y hxy => congrArg
          (fun r : ExceptionWithStatus × Value => (r.1, r.2.mutableStructVariantValue))
          (toProtoElem_alike authz (.variant name info ty alternatives) pd x y .kindNotSet hxy))
          hall
        simp only [toProto, hr, if_true]
        exact congrArg (fun items : ExceptionWithStatus × List (String × Value) =>
          if items.1.isOk then
            (items.1, items.2.foldl Value.addStructVariant dst.clearStructVariantArrayValues)
          else (items.1, (items.2.foldl Value.addStructVariant
            dst.clearStructVariantArrayValues).clearStructVariantArrayValues)) hitems
    · cases e <;> simp [toProto, hr]

theorem toProtoElem_alike (authz : Authorizer) : (e : ElemTy) → (pd : ParamDescriptor) →
    (v w : e.Val) → (dst : Value) → e.Alike authz pd v w →
    toProtoElem authz e pd v dst = toProtoElem authz e pd w dst
  | .int32, pd, v, w, dst, h => by
    by_cases hr : authz.readAuthz pd = true
    · rw [h hr]
    · simp [toProtoElem, hr]
  | .float, pd, v, w, dst, h => by
    by_cases hr : authz.readAuthz pd = true
    · rw [h hr]
    · simp [toProtoElem, hr]
  | .string, pd, v, w, dst, h => by
    by_cases hr : authz.readAuthz pd = true
    · rw [h hr]
    · simp [toProtoElem, hr]
  | .struct fields, pd, v, w, dst, h => by
    by_cases hr : authz.readAuthz pd = true
    · simp only [toProtoElem, hr, if_true, toProtoFields_alike authz fields pd v w ok [] (h hr)]
    · simp [toProtoElem, hr]
  | .variant name info ty alternatives, pd, .inl x, .inl y, dst, h => by
    by_cases hr : authz.readAuthz pd = true
    · simp only [toProtoElem, hr, if_true,
        toProto_alike authz ty (pd.getSubParam info ty) x y .kindNotSet (h hr)]
    · simp [toProtoElem, hr]
  | .variant name info ty alternatives, pd, .inr x, .inr y, dst, h => by
    by_cases hr : authz.readAuthz pd = true
    · simp only [toProtoElem, hr, if_true, toProtoAlt_alike authz alternatives pd x y (h hr)]
    · simp [toProtoElem, hr]
  | .variant name info ty alternatives, pd, .inl x, .inr y, dst, h => by
    by_cases hr : authz.readAuthz pd = true
    · exact (h hr).elim
    · simp [toProtoElem, hr]
  | .variant name info ty alternatives, pd, .inr x, .inl y, dst, h => by
    by_cases hr : authz.readAuthz pd = true
    · exact (h hr).elim
    · simp [toProtoElem, hr]

theorem toProtoFields_alike (authz : Authorizer) : (fields : Fields) →
    (pd : ParamDescriptor) → (xs ys : fields.Vals) → (rc : ExceptionWithStatus) →
    (dst : List (String × Value)) → fields.Alike authz pd.getSubParam xs ys →
    toProtoFields authz fields pd xs rc dst = toProtoFields authz fields pd ys rc dst
  | .nil, _, _, _, _, _, _ => rfl
  | .cons name info ty rest, pd, (x, xs), (y, ys), rc, dst, h => by
    simp only [toProtoFields, toProto_alike authz ty (pd.getSubParam info ty) x y _ h.1,
      toProtoFields_alike authz rest pd xs ys _ _ h.2]

theorem toProtoAlt_alike (authz : Authorizer) : (alternatives : Fields) →
    (pd : ParamDescriptor) → (v w : alternatives.Alt) →
    alternatives.AlikeAlt authz pd.getSubParam v w →
    toProtoAlt authz alternatives pd v = toProtoAlt authz alternatives pd w
  | .nil, _, v, _, _ => Empty.elim v
  | .cons name info ty rest, pd, .inl x, .inl y, h => by
    simp only [toProtoAlt, toProto_alike authz ty (pd.getSubParam info ty) x y _ h]
  | .cons name info ty rest, pd, .inr x, .inr y, h => by
    simp only [toProtoAlt, toProtoAlt_alike authz rest pd x y h]
  | .cons name info ty rest, pd, .inl x, .inr y, h => h.elim
  | .cons name info ty rest, pd, .inr x, .inl y, h => h.elim

end

/-- Two lookups with the same error, or with references to values that look alike. -/
inductive SameView {R : Type} (authz : Authorizer) :
    Except ExceptionWithStatus (Param R) → Except ExceptionWithStatus (Param R) → Prop where
  | error (why : ExceptionWithStatus) : SameView authz (.error why) (.error why)
  | ok (t : Ty) (pd : ParamDescriptor) (v w : t.Val) (f g : t.Val → R)
      (h : t.Alike authz pd v w) :
      SameView authz (.ok { ty := t, descriptor := pd, value := v, assign := f })
        (.ok { ty := t, descriptor := pd, value := w, assign := g })

/-- Two references to the same member, with values that look alike. -/
inductive SameMember {R : Type} (authz : Authorizer) (sub : Descriptor → Ty → ParamDescriptor) :
    Option (MemberRef R) → Option (MemberRef R) → Prop where
  | none : SameMember authz sub none none
  | some (info : Descriptor) (ty : Ty) (x y : ty.Val) (f g : ty.Val → R)
      (h : ty.Alike authz (sub info ty) x y) :
      SameMember authz sub (some ⟨info, ty, x, f⟩) (some ⟨info, ty, y, g⟩)

theorem Fields.Alike.findParamByName {authz : Authorizer}
    {sub : Descriptor → Ty → ParamDescriptor} (name : String) : (fields : Fields) →
    (xs ys : fields.Vals) → fields.Alike authz sub xs ys →
    SameMember authz sub (fields.findParamByName xs name) (fields.findParamByName ys name)
  | .nil, _, _, _ => .none
  | .cons field info ty rest, (x, xs), (y, ys), h => by
    by_cases hn : field = name
    · simp only [Fields.findParamByName, hn, if_true]
      exact .some info ty x y _ _ h.1
    · simp only [Fields.findParamByName, hn, if_false]
      have hrest := Fields.Alike.findParamByName name rest xs ys h.2
      generalize rest.findParamByName xs name = a at hrest
      generalize rest.findParamByName ys name = b at hrest
      cases hrest with
      | none => exact .none
      | some info' ty' x' y' f g h' => exact .some info' ty' x' y' _ _ h'

theorem Fields.AlikeAlt.visit {authz : Authorizer} {sub : Descriptor → Ty → ParamDescriptor} :
    (alternatives : Fields) → (v w : alternatives.Alt) → alternatives.AlikeAlt authz sub v w →
    (alternatives.visit v).1 = (alternatives.visit w).1 ∧
      SameMember authz sub (some (alternatives.visit v).2) (some (alternatives.visit w).2)
  | .nil, v, _, _ => Empty.elim v
  | .cons name info ty rest, .inl x, .inl y, h => ⟨rfl, .some info ty x y _ _ h⟩
  | .cons name info ty rest, .inr x, .inr y, h => by
    obtain ⟨hname, hmember⟩ := Fields.AlikeAlt.visit rest x y h
    refine ⟨hname, ?_⟩
    simp only [Fields.visit]
    generalize (rest.visit x).2 = a at hmember
    generalize (rest.visit y).2 = b at hmember
    cases hmember with
    | some info' ty' x' y' f g h' => exact .some info' ty' x' y' _ _ h'
  | .cons name info ty rest, .inl x, .inr y, h => h.elim
  | .cons name info ty rest, .inr x, .inl y, h => h.elim

theorem getElem?_of_forall₂ {α β : Type} {R : α → β → Prop} {xs : List α} {ys : List β}
    (h : List.Forall₂ R xs ys) (i : Nat) :
    (xs[i]? = none ∧ ys[i]? = none) ∨ ∃ x y, xs[i]? = some x ∧ ys[i]? = some y ∧ R x y := by
  induction h generalizing i with
  | nil => exact .inl ⟨rfl, rfl⟩
  | cons hxy _ ih =>
    cases i with
    | zero => exact .inr ⟨_, _, rfl, rfl, hxy⟩
    | succ i => exact ih i

/-- A lookup in values that look alike gives the same view. -/
theorem getParam_alike {R : Type} (authz : Authorizer) (fqoid : String) (path : List Segment)
    (t : Ty) (pd : ParamDescriptor) (v w : t.Val) (f g : t.Val → R)
    (h : t.Alike authz pd v w) :
    SameView authz (getParam authz fqoid path t pd v f) (getParam authz fqoid path t pd w g) := by
  induction path generalizing t pd with
  | nil =>
    by_cases hr : authz.readAuthz pd = true
    · cases t with
      | empty type subParams | vector e =>
        simp only [getParam, hr, if_true]
        exact .error _
      | elem e =>
        cases e <;> simp only [getParam, hr, if_true] <;> exact .error _
    · simp only [getParam, hr]
      exact .error _
  | cons segment rest ih =>
    by_cases hr : authz.readAuthz pd = true
    case neg =>
      simp only [getParam, hr]
      exact .error _
    cases t with
    | empty type subParams =>
      simp only [getParam, hr, if_true]
      cases hf : subParams.find segment.key with
      | none => exact .error _
      | some found =>
        simp only
        split
        · exact ih _ _ _ _ _ _ trivial
        · split
          · exact .ok _ _ _ _ _ _ trivial
          · exact .error _
    | vector e =>
      change List e.Val at v w
      cases segment with
      | name oid =>
        simp only [getParam, hr, if_true]
        exact .error _
      | index i =>
        have hall : List.Forall₂ (e.Alike authz pd) v w := h hr
        simp only [getParam, hr, if_true]
        obtain ⟨hv, hw⟩ | ⟨x, y, hv, hw, hxy⟩ := getElem?_of_forall₂ hall i
        · simp only [hv, hw]
          exact .error _
        · simp only [hv, hw]
          split
          · exact .ok (.elem e) pd x y _ _ hxy
          · split
            · exact ih (.elem e) pd x y _ _ hxy
            · exact .error _
    | elem e =>
      cases e with
      | int32 | float | string =>
        simp only [getParam, hr, if_true]
        exact .error _
      | struct fields =>
        simp only [getParam, hr, if_true]
        cases segment with
        | index i => exact .error _
        | name oid =>
          have hmember := Fields.Alike.findParamByName oid fields v w (h hr)
          simp only
          generalize fields.findParamByName v oid = a at hmember
          generalize fields.findParamByName w oid = b at hmember
          cases hmember with
          | none => exact .error _
          | some info ty x y p q hxy =>
            simp only
            split
            · exact ih _ _ _ _ _ _ hxy
            · split
              · exact .ok _ _ _ _ _ _ hxy
              · exact .error _
      | variant name info ty alternatives =>
        simp only [getParam, hr, if_true]
        cases segment with
        | index i => exact .error _
        | name oid =>
          have halt : (Fields.cons name info ty alternatives).AlikeAlt authz pd.getSubParam v w := by
            rcases v with x | x <;> rcases w with y | y <;> exact h hr
          obtain ⟨hname, hmember⟩ := Fields.AlikeAlt.visit (.cons ..) v w halt
          simp only [hname]
          generalize ((Fields.cons name info ty alternatives).visit v).2 = a at hmember
          generalize ((Fields.cons name info ty alternatives).visit w).2 = b at hmember
          cases hmember with
          | some info' ty' x y p q hxy =>
            split
            · exact .error _
            · simp only
              split
              · exact ih _ _ _ _ _ _ hxy
              · split
                · exact .ok _ _ _ _ _ _ hxy
                · exact .error _

theorem Device.getParam_alike (d : Device) (authz : Authorizer) (path : List Segment)
    (s₁ s₂ : d.State) (h : d.Alike authz s₁ s₂) :
    SameView authz (d.getParam s₁ path authz) (d.getParam s₂ path authz) := by
  match path with
  | [] | .index _ :: _ => exact .error _
  | .name oid :: rest =>
    have hmember := Fields.Alike.findParamByName oid d.params s₁ s₂ h
    simp only [Device.getParam]
    generalize d.params.findParamByName s₁ oid = a at hmember
    generalize d.params.findParamByName s₂ oid = b at hmember
    cases hmember with
    | none => exact .error _
    | some info ty x y f g hxy =>
      simp only
      split
      · exact .error _
      · split
        · exact .ok _ _ _ _ _ _ hxy
        · exact Store.getParam_alike authz _ rest ty _ x y f g hxy

/-- The client may read the descriptor of a node that carries a value. -/
def Readable (authz : Authorizer) : NodeProp
  | .empty _ _, _, _ => True
  | _, pd, _ => authz.readAuthz pd = true

theorem serializeItems_isOk {α β : Type} {item : α → ExceptionWithStatus × β} {xs : List α}
    (h : (serializeItems item xs).1.isOk = true) : ∀ x ∈ xs, (item x).1.isOk = true := by
  induction xs with
  | nil => simp
  | cons x xs ih =>
    by_cases hx : (item x).1.isOk = true
    · simp only [serializeItems, hx, if_true] at h
      exact List.forall_mem_cons.mpr ⟨hx, ih h⟩
    · simp only [serializeItems, hx] at h
      exact absurd h hx

mutual

/-- A value is serialized with an OK status only where all it holds may be read. -/
theorem readable_of_toProto (authz : Authorizer) : (t : Ty) → (pd : ParamDescriptor) →
    (v : t.Val) → (dst : Value) → (toProto authz t pd v dst).1.isOk = true →
    t.Every (Readable authz) pd v
  | .empty _ _, _, _, _, _ => trivial
  | .elem e, pd, v, dst, h => readable_of_toProtoElem authz e pd v dst h
  | .vector .int32, pd, v, dst, h => by
    by_cases hr : authz.readAuthz pd = true
    · exact ⟨hr, fun _ _ => hr⟩
    · simp [toProto, hr] at h
  | .vector .float, pd, v, dst, h => by
    by_cases hr : authz.readAuthz pd = true
    · exact ⟨hr, fun _ _ => hr⟩
    · simp [toProto, hr] at h
  | .vector .string, pd, v, dst, h => by
    by_cases hr : authz.readAuthz pd = true
    · exact ⟨hr, fun _ _ => hr⟩
    · simp [toProto, hr] at h
  | .vector (.struct fields), pd, v, dst, h => by
    by_cases hr : authz.readAuthz pd = true
    · simp only [toProto, hr, if_true, apply_ite Prod.fst, ite_self] at h
      exact ⟨hr, fun x hx => readable_of_toProtoElem authz (.struct fields) pd x .kindNotSet
        (serializeItems_isOk h x hx)⟩
    · simp [toProto, hr] at h
  | .vector (.variant name info ty alternatives), pd, v, dst, h => by
    by_cases hr : authz.readAuthz pd = true
    · simp only [toProto, hr, if_true, apply_ite Prod.fst, ite_self] at h
      exact ⟨hr, fun x hx => readable_of_toProtoElem authz (.variant name info ty alternatives) pd x
        .kindNotSet (serializeItems_isOk h x hx)⟩
    · simp [toProto, hr] at h

theorem readable_of_toProtoElem (authz : Authorizer) : (e : ElemTy) → (pd : ParamDescriptor) →
    (v : e.Val) → (dst : Value) → (toProtoElem authz e pd v dst).1.isOk = true →
    e.Every (Readable authz) pd v
  | .int32, pd, v, dst, h => by
    by_contra hr
    simp [toProtoElem, show ¬authz.readAuthz pd = true from hr] at h
  | .float, pd, v, dst, h => by
    by_contra hr
    simp [toProtoElem, show ¬authz.readAuthz pd = true from hr] at h
  | .string, pd, v, dst, h => by
    by_contra hr
    simp [toProtoElem, show ¬authz.readAuthz pd = true from hr] at h
  | .struct fields, pd, v, dst, h => by
    by_cases hr : authz.readAuthz pd = true
    · simp only [toProtoElem, hr, if_true, apply_ite Prod.fst, ite_self] at h
      exact ⟨hr, (readable_of_toProtoFields authz fields pd v ok [] h).2⟩
    · simp [toProtoElem, hr] at h
  | .variant name info ty alternatives, pd, .inl x, dst, h => by
    by_cases hr : authz.readAuthz pd = true
    · simp only [toProtoElem, hr, if_true, apply_ite Prod.fst, ite_self] at h
      exact ⟨hr, readable_of_toProto authz ty (pd.getSubParam info ty) x .kindNotSet h⟩
    · simp [toProtoElem, hr] at h
  | .variant name info ty alternatives, pd, .inr y, dst, h => by
    by_cases hr : authz.readAuthz pd = true
    · simp only [toProtoElem, hr, if_true, apply_ite Prod.fst, ite_self] at h
      exact ⟨hr, readable_of_toProtoAlt authz alternatives pd y h⟩
    · simp [toProtoElem, hr] at h

theorem readable_of_toProtoFields (authz : Authorizer) : (fields : Fields) →
    (pd : ParamDescriptor) → (xs : fields.Vals) → (rc : ExceptionWithStatus) →
    (dst : List (String × Value)) → (toProtoFields authz fields pd xs rc dst).1.isOk = true →
    rc.isOk = true ∧ fields.Every (Readable authz) pd xs
  | .nil, _, _, _, _, h => ⟨h, trivial⟩
  | .cons name info ty rest, pd, (x, xs), rc, dst, h => by
    by_cases hrc : rc.isOk = true
    · simp only [toProtoFields, hrc, if_true] at h
      obtain ⟨hx, hxs⟩ := readable_of_toProtoFields authz rest pd xs _ _ h
      exact ⟨hrc, readable_of_toProto authz ty (pd.getSubParam info ty) x _ hx, hxs⟩
    · simp only [toProtoFields, hrc] at h
      exact absurd (readable_of_toProtoFields authz rest pd xs rc dst h).1 hrc

theorem readable_of_toProtoAlt (authz : Authorizer) : (alternatives : Fields) →
    (pd : ParamDescriptor) → (v : alternatives.Alt) →
    (toProtoAlt authz alternatives pd v).2.1.isOk = true →
    alternatives.EveryAlt (Readable authz) pd v
  | .nil, _, v, _ => Empty.elim v
  | .cons _ info ty _, pd, .inl x, h =>
    readable_of_toProto authz ty (pd.getSubParam info ty) x .kindNotSet h
  | .cons _ _ _ rest, pd, .inr y, h => readable_of_toProtoAlt authz rest pd y h

end

theorem serializeItems_isOk_of_forall {α β : Type} {item : α → ExceptionWithStatus × β}
    {xs : List α} (h : ∀ x ∈ xs, (item x).1.isOk = true) :
    (serializeItems item xs).1.isOk = true := by
  induction xs with
  | nil => rfl
  | cons x xs ih =>
    simp only [serializeItems, h x List.mem_cons_self, if_true]
    exact ih fun y hy => h y (List.mem_cons_of_mem x hy)

mutual

/-- A value all of which may be read is serialized with an OK status. -/
theorem toProto_of_readable (authz : Authorizer) : (t : Ty) → (pd : ParamDescriptor) →
    (v : t.Val) → (dst : Value) → t.Every (Readable authz) pd v →
    (toProto authz t pd v dst).1.isOk = true
  | .empty _ _, _, _, _, _ => rfl
  | .elem e, pd, v, dst, h => toProtoElem_of_readable authz e pd v dst h
  | .vector .int32, pd, v, dst, h => by
    simp [toProto, show authz.readAuthz pd = true from h.1]
  | .vector .float, pd, v, dst, h => by
    simp [toProto, show authz.readAuthz pd = true from h.1]
  | .vector .string, pd, v, dst, h => by
    simp [toProto, show authz.readAuthz pd = true from h.1]
  | .vector (.struct fields), pd, v, dst, h => by
    simp only [toProto, show authz.readAuthz pd = true from h.1, if_true, apply_ite Prod.fst,
      ite_self]
    apply serializeItems_isOk_of_forall
    intro x hx
    exact toProtoElem_of_readable authz (.struct fields) pd x .kindNotSet (h.2 x hx)
  | .vector (.variant name info ty alternatives), pd, v, dst, h => by
    simp only [toProto, show authz.readAuthz pd = true from h.1, if_true, apply_ite Prod.fst,
      ite_self]
    apply serializeItems_isOk_of_forall
    intro x hx
    exact toProtoElem_of_readable authz (.variant name info ty alternatives) pd x .kindNotSet
      (h.2 x hx)

theorem toProtoElem_of_readable (authz : Authorizer) : (e : ElemTy) → (pd : ParamDescriptor) →
    (v : e.Val) → (dst : Value) → e.Every (Readable authz) pd v →
    (toProtoElem authz e pd v dst).1.isOk = true
  | .int32, pd, v, dst, h => by
    simp [toProtoElem, show authz.readAuthz pd = true from h]
  | .float, pd, v, dst, h => by
    simp [toProtoElem, show authz.readAuthz pd = true from h]
  | .string, pd, v, dst, h => by
    simp [toProtoElem, show authz.readAuthz pd = true from h]
  | .struct fields, pd, v, dst, h => by
    simp only [toProtoElem, show authz.readAuthz pd = true from h.1, if_true, apply_ite Prod.fst,
      ite_self]
    exact toProtoFields_of_readable authz fields pd v ok [] rfl h.2
  | .variant name info ty alternatives, pd, .inl x, dst, h => by
    simp only [toProtoElem, show authz.readAuthz pd = true from h.1, if_true, apply_ite Prod.fst,
      ite_self]
    exact toProto_of_readable authz ty (pd.getSubParam info ty) x .kindNotSet h.2
  | .variant name info ty alternatives, pd, .inr y, dst, h => by
    simp only [toProtoElem, show authz.readAuthz pd = true from h.1, if_true, apply_ite Prod.fst,
      ite_self]
    exact toProtoAlt_of_readable authz alternatives pd y h.2

theorem toProtoFields_of_readable (authz : Authorizer) : (fields : Fields) →
    (pd : ParamDescriptor) → (xs : fields.Vals) → (rc : ExceptionWithStatus) →
    (dst : List (String × Value)) → rc.isOk = true → fields.Every (Readable authz) pd xs →
    (toProtoFields authz fields pd xs rc dst).1.isOk = true
  | .nil, _, _, _, _, hrc, _ => hrc
  | .cons name info ty rest, pd, (x, xs), rc, dst, hrc, h => by
    simp only [toProtoFields, hrc, if_true]
    have hx := toProto_of_readable authz ty (pd.getSubParam info ty) x
      ((Value.find dst name).getD .kindNotSet) h.1
    exact toProtoFields_of_readable authz rest pd xs _ _ hx h.2

theorem toProtoAlt_of_readable (authz : Authorizer) : (alternatives : Fields) →
    (pd : ParamDescriptor) → (v : alternatives.Alt) →
    alternatives.EveryAlt (Readable authz) pd v →
    (toProtoAlt authz alternatives pd v).2.1.isOk = true
  | .nil, _, v, _ => Empty.elim v
  | .cons _ info ty _, pd, .inl x, h =>
    toProto_of_readable authz ty (pd.getSubParam info ty) x .kindNotSet h
  | .cons _ _ _ rest, pd, .inr y, h => toProtoAlt_of_readable authz rest pd y h

end

theorem toProto_isOk_iff (authz : Authorizer) (t : Ty) (pd : ParamDescriptor) (v : t.Val)
    (dst : Value) :
    (toProto authz t pd v dst).1.isOk = true ↔ t.Every (Readable authz) pd v :=
  ⟨readable_of_toProto authz t pd v dst, toProto_of_readable authz t pd v dst⟩

/-- `getValue` tells a client nothing about what it may not read: stores that look alike give
the same answer, and an OK answer passes through and contains readable descriptors only. -/
theorem getValue_noninterference (d : Device) (authz : Authorizer) :
    (∀ s₁ s₂, d.Alike authz s₁ s₂ → ∀ oid dst,
      d.getValue s₁ oid dst authz = d.getValue s₂ oid dst authz) ∧
    (∀ s oid dst, (d.getValue s oid dst authz).1.isOk = true →
      ∃ path n, Path.parse oid = .ok path ∧ d.nodeAt s path = some n ∧
        d.ReadableAlong authz path ∧ n.ty.Every (Readable authz) n.descriptor n.value) := by
  constructor
  · intro s₁ s₂ h oid dst
    simp only [Device.getValue]
    split
    · rfl
    · rfl
    · rename_i path _
      split
      · rfl
      · have hview := d.getParam_alike authz path s₁ s₂ h
        generalize d.getParam s₁ path authz = a at hview
        generalize d.getParam s₂ path authz = b at hview
        cases hview with
        | error why => rfl
        | ok t pd v w f g hvw => exact toProto_alike authz t pd v w dst hvw
  · intro s oid dst h
    simp only [Device.getValue] at h
    split at h
    · rename_i why hparse
      rw [Path.parse_error hparse] at h
      cases h
    · cases h
    · rename_i path hparse
      split at h
      · cases h
      · split at h
        · rename_i why hget
          rw [d.getParam_error hget] at h
          cases h
        · rename_i param hget
          obtain ⟨hread, hfocus⟩ := (d.getParam_ok_iff s path authz param).mp hget
          exact ⟨path, param.node, hparse, congrArg (Option.map Param.node) hfocus, hread,
            readable_of_toProto authz param.ty param.descriptor param.value dst h⟩

/-- A STRUCT with a field in the administrators' scope. -/
def accountDevice : Device where
  defaults := { defaultScope := "st2138:mon" }
  params := .cons "account" { oid := "account" } (.elem (.struct
    (.cons "name" { oid := "name" } (.elem .string)
      (.cons "key" { oid := "key", scope := "st2138:adm" } (.vector .int32) .nil)))) .nil
  wellFormed := ⟨List.not_mem_nil, ⟨by decide, trivial, List.not_mem_nil, trivial, trivial⟩, trivial⟩

theorem getValue_noninterference_account :
    accountDevice.getValue (("a", ([1, 2] : List Int32), ()), ()) "/account/key/1" .kindNotSet
        ⟨false, ["st2138:mon"]⟩ =
      accountDevice.getValue (("a", ([] : List Int32), ()), ()) "/account/key/1" .kindNotSet
        ⟨false, ["st2138:mon"]⟩ := by
  refine (getValue_noninterference accountDevice ⟨false, ["st2138:mon"]⟩).1 _ _ ?_ _ _
  refine ⟨fun _ => ⟨fun _ => rfl, fun h => absurd h (by decide), trivial⟩, trivial⟩

end Catena.Store
