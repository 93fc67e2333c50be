import Catena.Store.Accept

/-!
# The effect of an entry

Above the code stands a simpler picture: an entry either sets the node at its path to what its
value denotes, or pushes what it denotes onto an array. A committed entry does exactly that,
or leaves the store alone.
-/

namespace Catena.Store

open Catena.Framework
open ExceptionWithStatus (ok)

def setAct (src : Value) : Act Unit := fun t pd _ => (denote t pd src).map fun x => ((), x)

def pushAct (src : Value) : Act Unit
  | .vector e, pd, v => (denoteElem e pd src).map fun x => ((), List.append v [x])
  | _, _, _ => none

def entryAct (path : List Segment) (src : Value) : Act Unit :=
  if Path.IsAppend path then pushAct src else setAct src

def Node.length : Node → Option Nat
  | ⟨.vector _, _, v⟩ => some (List.length v)
  | _ => none

namespace Device

variable (d : Device) {α : Type}

theorem descend_append (path path' : List Segment) (h : path ≠ []) :
    d.descend (path ++ path') = (d.descend path).bind fun c => Ty.descend path' c.1 c.2 := by
  have happend (p q : List Segment) (t : Ty) (pd : ParamDescriptor) :
      Ty.descend (p ++ q) t pd = (Ty.descend p t pd).bind fun c => Ty.descend q c.1 c.2 := by
    induction p generalizing t pd with
    | nil => rfl
    | cons segment p ih => simp only [List.cons_append, Ty.descend, ih, Option.bind_assoc]
  cases path with
  | nil => exact absurd rfl h
  | cons segment rest =>
    cases segment with
    | index i => rfl
    | name oid => simp only [List.cons_append, descend, happend, Option.bind_assoc]

def apply (path : List Segment) (src : Value) : Action d.State Unit :=
  if Path.IsAppend path then d.zoom (pushAct src) (Path.popBack path)
  else d.zoom (setAct src) path

/-- The value an entry leaves at its node, or appends to the array at its node. -/
def newValue (path : List Segment) (src : Value) : Option Node :=
  if Path.IsAppend path then
    (d.descend (Path.popBack path)).bind fun c =>
      match c with
      | (.vector e, pd) => (denoteElem e pd src).map fun x => ⟨.elem e, pd, x⟩
      | _ => none
  else (d.descend path).bind fun c => (denote c.1 c.2 src).map fun x => ⟨c.1, c.2, x⟩

/-- The value may be written to the node its own oid names. -/
def ValidEntry (authz : Authorizer) (path : List Segment) (src : Value) : Prop :=
  if Path.IsAppend path then ∃ e pd, d.descend (Path.popBack path) = some (.vector e, pd) ∧
    (validFromProtoElem authz e pd src).isOk = true
  else ∃ t pd, d.descend path = some (t, pd) ∧ (validFromProto authz t pd src).isOk = true

variable {d} in
theorem ValidEntry.set {authz : Authorizer} {path : List Segment} {src : Value} {t : Ty}
    {pd : ParamDescriptor} (h : d.ValidEntry authz path src) (happ : ¬Path.IsAppend path)
    (hd : d.descend path = some (t, pd)) : (validFromProto authz t pd src).isOk = true := by
  simp only [ValidEntry, happ, if_false] at h
  obtain ⟨t', pd', hd', hvalid⟩ := h
  obtain ⟨rfl, rfl⟩ := Prod.mk.inj (Option.some.inj (hd.symm.trans hd'))
  exact hvalid

variable {d} in
theorem ValidEntry.push {authz : Authorizer} {path : List Segment} {src : Value} {e : ElemTy}
    {pd : ParamDescriptor} (h : d.ValidEntry authz path src) (happ : Path.IsAppend path)
    (hd : d.descend (Path.popBack path) = some (.vector e, pd)) :
    (validFromProtoElem authz e pd src).isOk = true := by
  simp only [ValidEntry, happ, if_true] at h
  obtain ⟨e', pd', hd', hvalid⟩ := h
  obtain ⟨he, rfl⟩ := Prod.mk.inj (Option.some.inj (hd.symm.trans hd'))
  obtain rfl : e = e' := Ty.vector.inj he
  exact hvalid

theorem writeAct_valid {authz : Authorizer} {t : Ty} {pd : ParamDescriptor} {src : Value}
    (h : (validFromProto authz t pd src).isOk = true) (v : t.Val) :
    writeAct authz src t pd v =
      (setAct src t pd v).map fun r => (validFromProto authz t pd src, r.2) := by
  have hden := denote_eq_fromProto authz t pd src v h
  simp only [setAct, hden, writeAct, Option.map_some, Option.some.injEq]
  exact Prod.ext (fromProto_fst authz t pd src v) rfl

theorem appendAct_valid {authz : Authorizer} {e : ElemTy} {pd : ParamDescriptor} {src : Value}
    (h : (validFromProtoElem authz e pd src).isOk = true) (v : List e.Val)
    {rc : ExceptionWithStatus} {w : List e.Val} :
    appendAct authz src (.vector e) pd v = some (rc, w) ↔
      rc = validFromProtoElem authz e pd src ∧ v.length < pd.maxLength ∧
        pushAct src (.vector e) pd v = some ((), w) := by
  have hden := denoteElem_eq_fromProto authz e pd src e.default h
  have hfst := fromProtoElem_fst authz e pd src e.default
  have hw := writeAuthz_of_validElem authz pd src h
  by_cases hl : v.length < pd.maxLength
  · have happ : appendAct authz src (.vector e) pd v = some (validFromProtoElem authz e pd src,
        List.append v [(fromProtoElem authz e pd src e.default).2]) := by
      simp only [appendAct, hw, hl, and_self, if_true, hfst]
      rfl
    have hpush : pushAct src (.vector e) pd v =
        some ((), List.append v [(fromProtoElem authz e pd src e.default).2]) := by
      simp only [pushAct, hden, Option.map_some]
      rfl
    rw [happ, hpush]
    constructor
    · intro heq
      obtain ⟨hrc, hw⟩ := Prod.mk.inj (Option.some.inj heq)
      exact ⟨hrc.symm, hl, congrArg (fun w => some ((), w)) hw⟩
    · rintro ⟨rfl, _, heq⟩
      obtain ⟨_, hw⟩ := Prod.mk.inj (Option.some.inj heq)
      exact congrArg (fun w => some (_, w)) hw
  · simp [appendAct, hl]

/-- There is room in the array the entry appends to, if it appends. -/
def HasRoom (s : d.State) (path : List Segment) : Prop :=
  Path.IsAppend path → ∃ n len, d.nodeAt s (Path.popBack path) = some n ∧
    n.length = some len ∧ len < n.descriptor.maxLength

/-- A committed entry with a valid value has its intended effect. -/
theorem apply_of_commitStep {authz : Authorizer} {path : List Segment} {src : Value}
    {s s' : d.State} {rc : ExceptionWithStatus} (hvalid : d.ValidEntry authz path src)
    (h : d.commitStep authz path src s = some (rc, s')) :
    rc.isOk = true ∧ d.HasRoom s path ∧ d.apply path src s = some ((), s') := by
  by_cases happ : Path.IsAppend path
  · simp only [ValidEntry, commitStep, apply, happ, if_true] at hvalid h ⊢
    obtain ⟨e, pd, hd, hvalid⟩ := hvalid
    obtain ⟨⟨t, pd', v⟩, w, hn, hact, _⟩ := d.nodeAt_of_zoom h
    obtain ⟨rfl, rfl⟩ : t = .vector e ∧ pd' = pd := by
      simpa [hd, eq_comm] using d.descend_of_nodeAt hn
    obtain ⟨rfl, hroom, _⟩ := (appendAct_valid hvalid v).mp hact
    refine ⟨hvalid, fun _ => ⟨_, _, hn, rfl, hroom⟩, d.zoom_of_zoom h fun m w' hm hact' => ?_⟩
    obtain rfl := Option.some.inj (hn.symm.trans hm)
    exact ((appendAct_valid hvalid v).mp hact').2.2
  · simp only [ValidEntry, commitStep, apply, happ, if_false] at hvalid h ⊢
    obtain ⟨t, pd, hd, hvalid⟩ := hvalid
    obtain ⟨⟨t', pd', v⟩, w, hn, hact, _⟩ := d.nodeAt_of_zoom h
    obtain ⟨rfl, rfl⟩ : t' = t ∧ pd' = pd := by
      simpa [hd, eq_comm] using d.descend_of_nodeAt hn
    rw [writeAct_valid hvalid] at hact
    obtain ⟨_, _, he⟩ := Option.map_eq_some_iff.mp hact
    have hrc := (Prod.mk.inj he).1
    refine ⟨hrc ▸ hvalid, fun h => absurd h happ, d.zoom_of_zoom h fun m w' hm hact' => ?_⟩
    obtain rfl := Option.some.inj (hn.symm.trans hm)
    rw [writeAct_valid hvalid] at hact'
    obtain ⟨r, hr, he⟩ := Option.map_eq_some_iff.mp hact'
    exact hr.trans (congrArg some (Prod.ext rfl (Prod.mk.inj he).2))

theorem commitStep_of_apply {authz : Authorizer} {path : List Segment} {src : Value}
    {s s' : d.State} (hvalid : d.ValidEntry authz path src) (hroom : d.HasRoom s path)
    (h : d.apply path src s = some ((), s')) :
    ∃ rc, rc.isOk = true ∧ d.commitStep authz path src s = some (rc, s') := by
  by_cases happ : Path.IsAppend path
  · obtain ⟨n, len, hn, hlen, hlt⟩ := hroom happ
    simp only [ValidEntry, commitStep, apply, happ, if_true] at hvalid h ⊢
    obtain ⟨e, pd, hd, hvalid⟩ := hvalid
    refine ⟨_, hvalid, d.zoom_of_zoom h fun m w hm hpush => ?_⟩
    obtain rfl := Option.some.inj (hn.symm.trans hm)
    obtain ⟨t, pd', v⟩ := n
    obtain ⟨rfl, rfl⟩ : t = .vector e ∧ pd' = pd := by
      simpa [hd, eq_comm] using d.descend_of_nodeAt hn
    obtain rfl := Option.some.inj hlen
    exact (appendAct_valid hvalid v).mpr ⟨rfl, hlt, hpush⟩
  · simp only [ValidEntry, commitStep, apply, happ, if_false] at hvalid h ⊢
    obtain ⟨t, pd, hd, hvalid⟩ := hvalid
    refine ⟨_, hvalid, d.zoom_of_zoom h fun m w hm hset => ?_⟩
    obtain ⟨t', pd', v⟩ := m
    obtain ⟨rfl, rfl⟩ : t' = t ∧ pd' = pd := by
      simpa [hd, eq_comm] using d.descend_of_nodeAt hm
    rw [writeAct_valid hvalid, hset]
    rfl

theorem descend_of_popBack {path : List Segment} {i : Nat} {t : Ty} {pd : ParamDescriptor}
    (hindex : Path.backIndex path = some i) (h : d.descend (Path.popBack path) = some (t, pd)) :
    d.descend path = t.child pd (.index i) := by
  have hpath := Path.eq_popBack_append hindex
  have hne : Path.popBack path ≠ [] := by
    intro hnil
    rw [hnil] at h
    cases h
  rw [hpath, d.descend_append _ _ hne, h, Option.bind_some]
  cases hc : t.child pd (.index i) with
  | none => simp [Ty.descend, hc]
  | some c => simp [Ty.descend, hc]

/-- An accepted entry has a valid value, unless its last segment is the index that stands for
no index. -/
theorem validEntry_of_accepted {s : d.State} {authz : Authorizer} {path : List Segment}
    {src : Value} (h : Accepted d s authz path src) (hnone : Path.backIndex path ≠ some Path.kNone) :
    d.ValidEntry authz path src := by
  cases h with
  | whole n hindex hread hnode hvalid hsize =>
    have happ : ¬Path.IsAppend path := fun ha => by simp [Path.IsAppend, hindex] at ha
    simp only [ValidEntry, happ, if_false]
    exact ⟨n.ty, n.descriptor, d.descend_of_nodeAt hnode, hvalid⟩
  | element i e pd v hindex hend _ hread hnode hi hvalid hmax htotal =>
    have happ : ¬Path.IsAppend path := fun ha =>
      hend (Option.some.inj (hindex.symm.trans ha))
    simp only [ValidEntry, happ, if_false]
    exact ⟨.elem e, pd, d.descend_of_popBack hindex (d.descend_of_nodeAt hnode), hvalid⟩
  | append e pd v hindex hread hnode hvalid hmax htotal =>
    simp only [ValidEntry, show Path.IsAppend path from hindex, if_true]
    exact ⟨e, pd, d.descend_of_nodeAt hnode, hvalid⟩
  | noIndex n hindex hread hnode hvalid => exact absurd hindex hnone

theorem denoteElem_of_valid_vector {authz : Authorizer} {e : ElemTy} {pd : ParamDescriptor}
    {src : Value} (h : (validFromProto authz (.vector e) pd src).isOk = true) :
    denoteElem e pd src = none := by
  obtain ⟨_, items, hitems, _⟩ := (validFromProto_vector authz pd src e).mp h
  cases e <;> cases src <;> simp only [Value.items, reduceCtorEq] at hitems <;> rfl

/-- An entry that ends in the index that stands for no index has a new value only at a node
that carries none. -/
theorem empty_of_noIndex {s : d.State} {authz : Authorizer} {path : List Segment} {src : Value}
    {t : Ty} {pd : ParamDescriptor} {x : t.Val} (h : Accepted d s authz path src)
    (hnone : Path.backIndex path = some Path.kNone) (hd : d.descend path = some (t, pd))
    (hx : denote t pd src = some x) : ∃ type subParams, t = .empty type subParams := by
  cases h with
  | whole n hindex => rw [hindex] at hnone; cases hnone
  | element i e pd' v' hindex hend hi => exact absurd (Option.some.inj (hindex.symm.trans hnone)) hi
  | append e pd v hindex =>
    exact absurd (Option.some.inj (hindex.symm.trans hnone)) Path.kEnd_ne_kNone
  | noIndex n hindex hread hnode hvalid =>
    obtain ⟨t', pd', v'⟩ := n
    rw [d.descend_of_popBack hnone (d.descend_of_nodeAt hnode)] at hd
    cases t' with
    | empty type subParams =>
      obtain ⟨found, _, he⟩ := Option.map_eq_some_iff.mp hd
      exact ⟨_, _, (Prod.mk.inj he).1.symm⟩
    | elem e => cases e <;> cases hd
    | vector e =>
      obtain ⟨rfl, rfl⟩ := Prod.mk.inj (Option.some.inj hd)
      cases (denoteElem_of_valid_vector hvalid).symm.trans hx

theorem unchanged_of_noIndex {s₀ s s' : d.State} {authz : Authorizer} {path : List Segment}
    {src : Value} {rc : ExceptionWithStatus} (h : Accepted d s₀ authz path src)
    (hnone : Path.backIndex path = some Path.kNone)
    (hstep : d.commitStep authz path src s = some (rc, s')) : s' = s := by
  have happ : ¬Path.IsAppend path := fun ha =>
    Path.kEnd_ne_kNone (Option.some.inj (ha.symm.trans hnone))
  simp only [commitStep, happ, if_false] at hstep
  obtain ⟨⟨t, pd, v⟩, w, hn, hact, _⟩ := d.nodeAt_of_zoom hstep
  change t.Val at w
  have hunchanged : w = v := by
    cases hv : (validFromProto authz t pd src).isOk with
    | false =>
      have hno := fromProto_invalid authz t pd src v hv
      exact ((Prod.mk.inj (hno.symm.trans (Option.some.inj hact))).2).symm
    | true =>
      have hden := denote_eq_fromProto authz t pd src v hv
      obtain ⟨type, subParams, rfl⟩ := d.empty_of_noIndex h hnone (d.descend_of_nodeAt hn) hden
      rfl
  rw [hunchanged] at hact
  have hsame := d.zoom_of_unchanged (writeAct authz src) hn hact
  exact (congrArg Prod.snd (Option.some.inj (hsame.symm.trans hstep))).symm

end Device

end Catena.Store
