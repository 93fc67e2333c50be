import Catena.Store.Invariant

/-!
# The frame of a client's writes

A client cannot change a leaf whose descriptor it may not write. Every leaf that a write
stores has been validated, and validation tests the authorization of every descriptor it
passes; all other leaves are kept.
-/

namespace Catena.Store

/-- A value without sub-parameters of its own: a scalar or an array of scalars. -/
def Ty.IsLeaf : Ty → Prop
  | .elem .int32 | .elem .float | .elem .string => True
  | .vector .int32 | .vector .float | .vector .string => True
  | _ => False

/-- The descriptor or an ancestor is read-only, or the client lacks the inherited scope with
`:w`. -/
def Protected (authz : Authorizer) (pd : ParamDescriptor) : Prop :=
  (pd.info.readOnly = true ∨ ∃ parent ∈ pd.parents, parent.readOnly = true) ∨
    authz.hasAuthz (pd.getScope ++ ":w") = false

theorem not_writeAuthz_of_protected {authz : Authorizer} {pd : ParamDescriptor}
    (h : Protected authz pd) : authz.writeAuthz pd = false := by
  obtain (hself | hparent) | hscope := h
  · simp [Authorizer.writeAuthz, ParamDescriptor.readOnly, hself]
  · have hany : pd.parents.any Descriptor.readOnly = true := by simpa using hparent
    simp [Authorizer.writeAuthz, ParamDescriptor.readOnly, hany]
  · simp [Authorizer.writeAuthz, Authorizer.writeAuthzScope, hscope]

/-- The client may write the descriptor of a node that carries a value. -/
def Writable (authz : Authorizer) : NodeProp
  | .empty _ _, _, _ => True
  | _, pd, _ => authz.writeAuthz pd = true

theorem writable_of_valid (authz : Authorizer) (t : Ty) (pd : ParamDescriptor) (src : Value)
    (x : t.Val) (hvalid : (validFromProto authz t pd src).isOk = true) :
    Writable authz t pd x := by
  cases t with
  | empty type subParams => trivial
  | elem e => exact writeAuthz_of_validElem authz pd src hvalid
  | vector e => exact ((validFromProto_vector authz pd src e).mp hvalid).1

theorem not_writable_of_protected {authz : Authorizer} {n : Node} (hleaf : n.ty.IsLeaf)
    (h : Protected authz n.descriptor) : ¬Writable authz n.ty n.descriptor n.value := by
  obtain ⟨t, pd, v⟩ := n
  intro hw
  cases t with
  | empty type subParams => cases hleaf
  | elem e | vector e => exact absurd hw (by simp [Writable, not_writeAuthz_of_protected h])

/-- All that a valid source denotes lies at descriptors the client may write. -/
theorem every_writable_of_valid {authz : Authorizer} {t : Ty} {pd : ParamDescriptor}
    {src : Value} {x : t.Val} (hvalid : (validFromProto authz t pd src).isOk = true)
    (hx : denote t pd src = some x) : t.Every (Writable authz) pd x :=
  every_of_valid authz (fun t pd src x hv _ => writable_of_valid authz t pd src x hv) t pd src x
    hvalid hx

theorem Ty.IsLeaf.child {t t' : Ty} {pd pd' : ParamDescriptor} {segment : Segment}
    (h : t.IsLeaf) (hc : t.child pd segment = some (t', pd')) :
    pd' = pd ∧ (t' = .elem .int32 ∨ t' = .elem .float ∨ t' = .elem .string) := by
  cases t with
  | empty type subParams => cases h
  | elem e => cases e <;> cases segment <;> first | exact False.elim h | cases hc
  | vector e =>
    cases segment with
    | name oid => cases hc
    | index i =>
      obtain ⟨rfl, rfl⟩ := Prod.mk.inj (Option.some.inj hc)
      cases e <;> first | exact False.elim h | simp

namespace Device

variable (d : Device)

/-- Every protected leaf of the second store was there in the first. -/
def Framed (authz : Authorizer) (s s' : d.State) : Prop :=
  ∀ path n, d.nodeAt s' path = some n → n.ty.IsLeaf → Protected authz n.descriptor →
    d.nodeAt s path = some n

theorem writable_target {authz : Authorizer} {path : List Segment} {src : Value}
    (hvalid : d.ValidEntry authz path src) :
    ∃ c, d.descend (Path.target path) = some c ∧
      ∀ v, Writable authz c.1 c.2 v := by
  by_cases happ : Path.IsAppend path
  · simp only [ValidEntry, Path.target, happ, if_true] at hvalid ⊢
    obtain ⟨e, pd, hd, hvalid⟩ := hvalid
    exact ⟨_, hd, fun _ => writeAuthz_of_validElem authz pd src hvalid⟩
  · simp only [ValidEntry, Path.target, happ, if_false] at hvalid ⊢
    obtain ⟨t, pd, hd, hvalid⟩ := hvalid
    exact ⟨_, hd, fun v => writable_of_valid authz t pd src v hvalid⟩

/-- An entry does not touch a protected leaf. -/
theorem framed_of_apply {authz : Authorizer} {path : List Segment} {src : Value}
    {s s₁ s₂ : d.State} (hvalid : d.ValidEntry authz path src)
    (h : d.apply path src s₁ = some ((), s₂)) (hs : d.Framed authz s s₁) :
    d.Framed authz s s₂ := by
  refine d.nodes_of_apply (fun q n => n.ty.IsLeaf → Protected authz n.descriptor →
    d.nodeAt s q = some n) h ?_ ?_ ?_ hs
  · intro happ t pd x r m hd hx hm hleaf hprot
    have hevery := every_writable_of_valid (hvalid.set happ hd) hx
    exact absurd (hevery.below (fun _ _ _ _ => trivial) hm) (not_writable_of_protected hleaf hprot)
  · intro happ e pd v x hn hx
    have helem := hvalid.push happ (d.descend_of_nodeAt hn)
    have hevery := every_writable_of_valid (show (validFromProto authz (.elem e) pd src).isOk = true
      from helem) hx
    refine ⟨fun _ hprot => ?_, fun r m hm hleaf hprot => ?_⟩
    · have hw := writeAuthz_of_validElem authz pd src helem
      rw [not_writeAuthz_of_protected hprot] at hw
      cases hw
    · exact absurd (hevery.below (fun _ _ _ _ => trivial) hm)
        (not_writable_of_protected hleaf hprot)
  · intro q segment r n v htarget hn _ _ hleaf hprot
    have hd : d.descend (Path.target path) =
        (n.ty.child n.descriptor segment).bind fun c => Ty.descend r c.1 c.2 := by
      rw [htarget, d.descend_append _ _ (d.ne_nil_of_nodeAt hn), d.descend_of_nodeAt hn]
      rfl
    obtain ⟨c, hc, hw⟩ := d.writable_target hvalid
    rw [hd] at hc
    obtain ⟨⟨t', pd'⟩, hchild, hrest⟩ := Option.bind_eq_some_iff.mp hc
    obtain ⟨rfl, ht'⟩ := hleaf.child hchild
    cases r with
    | nil =>
      obtain rfl := Option.some.inj hrest
      have hwrite : authz.writeAuthz n.descriptor = true := by
        obtain rfl | rfl | rfl := ht'
        · exact hw (0 : Int32)
        · exact hw (0 : Float32)
        · exact hw ""
      rw [not_writeAuthz_of_protected hprot] at hwrite
      cases hwrite
    | cons segment r => obtain rfl | rfl | rfl := ht' <;> cases segment <;> cases hrest

theorem every_writable_of_accepted {authz : Authorizer} {path : List Segment} {src : Value}
    {s : d.State} {n : Node} (h : Accepted d s authz path src)
    (hnew : d.newValue path src = some n) : n.ty.Every (Writable authz) n.descriptor n.value := by
  by_cases hnone : Path.backIndex path = some Path.kNone
  · have happ : ¬Path.IsAppend path := fun ha =>
      Path.kEnd_ne_kNone (Option.some.inj (ha.symm.trans hnone))
    simp only [newValue, happ, if_false] at hnew
    obtain ⟨⟨t, pd⟩, hd, hx⟩ := Option.bind_eq_some_iff.mp hnew
    obtain ⟨x, hden, rfl⟩ := Option.map_eq_some_iff.mp hx
    obtain ⟨type, subParams, rfl⟩ := d.empty_of_noIndex h hnone hd hden
    trivial
  · have hvalid := d.validEntry_of_accepted h hnone
    by_cases happ : Path.IsAppend path
    · simp only [newValue, happ, if_true] at hnew
      obtain ⟨⟨t, pd⟩, hd, hx⟩ := Option.bind_eq_some_iff.mp hnew
      cases t with
      | empty type subParams => cases hx
      | elem e => cases hx
      | vector e =>
        obtain ⟨x, hden, rfl⟩ := Option.map_eq_some_iff.mp hx
        exact every_writable_of_valid (show (validFromProto authz (.elem e) pd src).isOk = true
          from hvalid.push happ hd) hden
    · simp only [newValue, happ, if_false] at hnew
      obtain ⟨⟨t, pd⟩, hd, hx⟩ := Option.bind_eq_some_iff.mp hnew
      obtain ⟨x, hden, rfl⟩ := Option.map_eq_some_iff.mp hx
      exact every_writable_of_valid (hvalid.set happ hd) hden

def Rejected (s : d.State) (result : CallResult d.State) : Prop :=
  (∃ ans, result = .returned ans s ∧ ans.isOk = false) ∨ ∃ why, result = .threw why s

theorem rejected_of_protected {s : d.State} {c : Call} {payload : SetValuePayload}
    {n m : Node} {r : List Segment} (hmem : payload ∈ c.payloads)
    (hnew : d.newValue payload.path payload.value = some n) (hm : n.below r = some m)
    (hleaf : m.ty.IsLeaf) (hprot : Protected c.authz m.descriptor) :
    d.Rejected s (d.call s c) := by
  rw [call_eq_multiSetValue, multiSetValue]
  cases htry : d.tryMultiSetValue s c.payloads c.authz with
  | error why => exact .inr ⟨why, rfl⟩
  | ok ans =>
    cases hok : ans.isOk with
    | false => exact .inl ⟨ans, by simp [hok], hok⟩
    | true =>
      obtain ⟨_, hacc⟩ := d.accepted_of_try htry hok payload hmem
      have hevery := d.every_writable_of_accepted hacc hnew
      exact absurd (hevery.below (fun _ _ _ _ => trivial) hm)
        (not_writable_of_protected hleaf hprot)

theorem framed_run {authz : Authorizer} {s : d.State} {calls : List Call}
    (hauthz : ∀ c ∈ calls, c.authz = authz) : d.Framed authz s (d.run s calls) := by
  refine d.run_invariant (d.Framed authz s) calls ?_ s fun _ _ hn _ _ => hn
  intro c hc path src s₁ s₂ hvalid happly hI
  rw [hauthz c hc] at hvalid
  exact d.framed_of_apply hvalid happly hI

end Device

/-- The runs of one client leave every leaf it may not write unchanged, and each of its calls
that would write such a leaf is rejected. -/
theorem protected_leaves_unchanged (d : Device) (authz : Authorizer) (s : d.State)
    (calls : List Call) (hauthz : ∀ c ∈ calls, c.authz = authz) :
    (∀ path n n', d.nodeAt s path = some n → d.nodeAt (d.run s calls) path = some n' →
      n.ty.IsLeaf → Protected authz n.descriptor → n' = n) ∧
    (∀ (s₁ : d.State) (c : Call), c.authz = authz → ∀ payload ∈ c.payloads, ∀ n r m,
      d.newValue payload.path payload.value = some n → n.below r = some m → m.ty.IsLeaf →
      Protected authz m.descriptor → d.Rejected s₁ (d.call s₁ c)) := by
  constructor
  · intro path n n' hn hn' hleaf hprot
    have hstatic : some (n'.ty, n'.descriptor) = some (n.ty, n.descriptor) :=
      (d.descend_of_nodeAt hn').symm.trans (d.descend_of_nodeAt hn)
    obtain ⟨hty, hpd⟩ := Prod.mk.inj (Option.some.inj hstatic)
    have hframe := d.framed_run hauthz path n' hn' (hty ▸ hleaf) (hpd ▸ hprot)
    exact Option.some.inj (hframe.symm.trans hn)
  · rintro s₁ c rfl payload hmem n r m hnew hm hleaf hprot
    exact d.rejected_of_protected hmem hnew hm hleaf hprot

/-- A STRUCT of a read-only and a writable INT32. -/
def statusDevice : Device where
  defaults := { defaultScope := "st2138:op" }
  params := .cons "status" { oid := "status" } (.elem (.struct
    (.cons "uptime" { oid := "uptime", readOnly := true } (.elem .int32)
      (.cons "mode" { oid := "mode" } (.elem .int32) .nil)))) .nil
  wellFormed := ⟨List.not_mem_nil, ⟨by decide, trivial, List.not_mem_nil, trivial, trivial⟩, trivial⟩

theorem protected_leaves_unchanged_status :
    statusDevice.Rejected (((5 : Int32), (6 : Int32), ()), ())
      (statusDevice.call (((5 : Int32), (6 : Int32), ()), ()) (.setValue "/status"
        (.structValue [("uptime", .int32Value 1), ("mode", .int32Value 2)]) .kAuthzDisabled)) := by
  refine (protected_leaves_unchanged statusDevice .kAuthzDisabled
    (((5 : Int32), (6 : Int32), ()), ()) [] (by simp)).2 _ _ rfl _ (List.mem_singleton.mpr rfl)
    _ [.name "uptime"] _ rfl rfl trivial ?_
  exact .inl (.inl rfl)

end Catena.Store
