import Catena.Framework.Replay
import Catena.Store.Invariant

/-!
# Entries that overlap

Two entries of one multi-set act on diverging nodes, on the elements and the end of one array,
or one of them sets a node that contains the node of the other. Only in the last case can the
order of the two matter, unless the two write the same value there.
-/

namespace Catena.Store

open Catena.Framework

namespace Path

theorem target_of_append {path : List Segment} (h : IsAppend path) : target path = popBack path := by
  simp [target, h]

theorem target_of_not_append {path : List Segment} (h : ¬IsAppend path) : target path = path := by
  simp [target, h]

end Path

/-- The entry sets the node at the path or a node around it. -/
def SetValuePayload.SetsAround (p : SetValuePayload) (path : List Segment) : Prop :=
  ¬Path.IsAppend p.path ∧ p.path <+: path

instance (p : SetValuePayload) (path : List Segment) : Decidable (p.SetsAround path) :=
  inferInstanceAs (Decidable (¬Path.IsAppend p.path ∧ p.path <+: path))

/-- The entry sets a node that contains the node the other one acts on. -/
def Covers (p q : SetValuePayload) : Prop := p.SetsAround (Path.target q.path)

instance : DecidableRel Covers := fun p q =>
  inferInstanceAs (Decidable (p.SetsAround (Path.target q.path)))

def SetValuePayload.appendsTo (p : SetValuePayload) : Option (List Segment) :=
  if Path.IsAppend p.path then some (Path.popBack p.path) else none

theorem SetValuePayload.appendsTo_eq_some {p : SetValuePayload} {array : List Segment} :
    p.appendsTo = some array ↔ Path.IsAppend p.path ∧ Path.popBack p.path = array := by
  by_cases h : Path.IsAppend p.path <;> simp [appendsTo, h]

theorem push_both_zoomIndex {α E : Type} {v : List E} {i : Nat} {y : E} (hi : v[i]? = some y)
    (new : Option E) (b : Action E α) :
    Action.both (fun w => new.map fun x => ((), w ++ [x])) (zoomIndex i b) v =
      ((zoomIndex i b).both fun w => new.map fun x => ((), w ++ [x])).map Prod.swap v := by
  obtain ⟨hlt, _⟩ := List.getElem?_eq_some_iff.mp hi
  simp only [Action.both, Action.bind, Action.map, zoomIndex, hi, Option.bind_some]
  cases new with
  | none => cases b y <;> rfl
  | some x =>
    have hi' : (v ++ [x])[i]? = some y := by rw [List.getElem?_append_left hlt, hi]
    cases hb : b y with
    | none => simp [hi', hb]
    | some r => simp [hi', hb, List.set_append_left i r.2 hlt]

namespace Device

variable (d : Device)

theorem apply_eq_zoom (path : List Segment) (src : Value) :
    d.apply path src = d.zoom (entryAct path src) (Path.target path) := by
  by_cases h : Path.IsAppend path <;> simp [apply, entryAct, Path.target, h]

/-- The value an entry writes, at its own node. -/
def written (p : SetValuePayload) : Option Node := d.newValue p.path p.value

def effect (p : SetValuePayload) (s : d.State) : Option d.State :=
  (d.apply p.path p.value).exec s

/-- The entry has a value for its node, and its node is there. -/
def Ready (p : SetValuePayload) (s : d.State) : Prop :=
  (d.written p).isSome = true ∧ ∃ n, d.nodeAt s (Path.target p.path) = some n

theorem effect_eq_zoom (p : SetValuePayload) (s : d.State) :
    d.effect p s = (d.zoom (entryAct p.path p.value) (Path.target p.path)).exec s := by
  rw [effect, apply_eq_zoom]

theorem effect_eq_some {p : SetValuePayload} {s s' : d.State} :
    d.effect p s = some s' ↔
      d.zoom (entryAct p.path p.value) (Path.target p.path) s = some ((), s') := by
  rw [effect_eq_zoom, Action.exec_eq_some]

theorem written_set {p : SetValuePayload} (h : ¬Path.IsAppend p.path) {t : Ty}
    {pd : ParamDescriptor} (hd : d.descend p.path = some (t, pd)) :
    d.written p = (denote t pd p.value).map fun x => ⟨t, pd, x⟩ := by
  simp [written, newValue, h, hd]

theorem written_push {p : SetValuePayload} (h : Path.IsAppend p.path) {e : ElemTy}
    {pd : ParamDescriptor} (hd : d.descend (Path.popBack p.path) = some (.vector e, pd)) :
    d.written p = (denoteElem e pd p.value).map fun x => ⟨.elem e, pd, x⟩ := by
  simp only [written, newValue, h, if_true, hd, Option.bind_some]
  rfl

theorem vector_of_append {p : SetValuePayload} {s : d.State} (h : Path.IsAppend p.path)
    (hready : d.Ready p s) : ∃ (e : ElemTy) (pd : ParamDescriptor) (v : List e.Val) (x : e.Val),
      d.nodeAt s (Path.popBack p.path) = some ⟨.vector e, pd, v⟩ ∧
        denoteElem e pd p.value = some x := by
  obtain ⟨hsome, ⟨t, pd, v⟩, hn⟩ := hready
  rw [Path.target_of_append h] at hn
  have hd := d.descend_of_nodeAt hn
  simp only [written, newValue, h, if_true, hd, Option.bind_some] at hsome
  cases t with
  | empty type subParams => simp at hsome
  | elem e => simp at hsome
  | vector e =>
    obtain ⟨m, hm⟩ := Option.isSome_iff_exists.mp hsome
    obtain ⟨x, hx, _⟩ := Option.map_eq_some_iff.mp hm
    exact ⟨e, pd, v, x, hn, hx⟩

theorem set_of_not_append {p : SetValuePayload} {s : d.State} (h : ¬Path.IsAppend p.path)
    (hready : d.Ready p s) : ∃ (n : Node) (x : n.ty.Val), d.nodeAt s p.path = some n ∧
      denote n.ty n.descriptor p.value = some x ∧ d.written p = some ⟨n.ty, n.descriptor, x⟩ := by
  obtain ⟨hsome, n, hn⟩ := hready
  rw [Path.target_of_not_append h] at hn
  obtain ⟨m, hm⟩ := Option.isSome_iff_exists.mp hsome
  have hw := d.written_set h (d.descend_of_nodeAt hn)
  obtain ⟨x, hx, rfl⟩ := Option.map_eq_some_iff.mp (hw.symm.trans hm)
  exact ⟨n, x, hn, hx, hm⟩

theorem effect_of_ready (p : SetValuePayload) (s : d.State) (h : d.Ready p s) :
    ∃ s', d.effect p s = some s' := by
  by_cases happ : Path.IsAppend p.path
  · obtain ⟨e, pd, v, x, hn, hx⟩ := d.vector_of_append happ h
    have hact : pushAct p.value (.vector e) pd v = some ((), List.append v [x]) := by
      simp only [pushAct, hx, Option.map_some]
      rfl
    obtain ⟨s', hs', _⟩ := d.zoom_of_nodeAt (pushAct p.value) hn hact
    exact ⟨s', d.effect_eq_some.mpr (by simpa [entryAct, Path.target, happ] using hs')⟩
  · obtain ⟨n, x, hn, hx, _⟩ := d.set_of_not_append happ h
    have hact : setAct p.value n.ty n.descriptor n.value = some ((), x) := by simp [setAct, hx]
    obtain ⟨s', hs', _⟩ := d.zoom_of_nodeAt (setAct p.value) hn hact
    exact ⟨s', d.effect_eq_some.mpr (by simpa [entryAct, Path.target, happ] using hs')⟩

/-- The entries of a multi-set, as operations on the store. -/
def entries : Operations SetValuePayload d.State where
  step := d.effect
  Ready := d.Ready
  enabled := d.effect_of_ready

theorem nodeAt_of_set {p : SetValuePayload} {s s' : d.State} (h : ¬Path.IsAppend p.path)
    (hs' : d.effect p s = some s') : d.nodeAt s' p.path = d.written p := by
  have hz := d.effect_eq_some.mp hs'
  simp only [entryAct, Path.target, h, if_false] at hz
  obtain ⟨n, w, hn, hact, hn'⟩ := d.nodeAt_of_zoom hz
  obtain ⟨x, hx, he⟩ := Option.map_eq_some_iff.mp hact
  obtain ⟨_, rfl⟩ := Prod.mk.inj he
  rw [hn', d.written_set h (d.descend_of_nodeAt hn), hx]
  rfl

/-- An entry that appends leaves the elements of its array where they are. -/
theorem nodeAt_of_push {p : SetValuePayload} {s s' : d.State} {segment : Segment}
    {r : List Segment} {n : Node} (h : Path.IsAppend p.path) (hs' : d.effect p s = some s')
    (hn : d.nodeAt s (Path.popBack p.path ++ segment :: r) = some n) :
    d.nodeAt s' (Path.popBack p.path ++ segment :: r) = some n := by
  have hz := d.effect_eq_some.mp hs'
  simp only [entryAct, Path.target, h, if_true] at hz
  obtain ⟨⟨t, pd, v⟩, w, hA, hact, hA'⟩ := d.nodeAt_of_zoom hz
  have hne := d.ne_nil_of_nodeAt hA
  rw [d.nodeAt_append _ _ _ hne, hA, Option.bind_some] at hn
  rw [d.nodeAt_append _ _ _ hne, hA', Option.bind_some]
  cases t with
  | empty type subParams => cases hact
  | elem e => cases hact
  | vector e =>
    change List e.Val at v
    obtain ⟨x, _, he⟩ := Option.map_eq_some_iff.mp hact
    obtain ⟨_, rfl⟩ := Prod.mk.inj he
    cases segment with
    | name oid => cases hn
    | index i =>
      rw [Node.below_vector_index] at hn
      obtain ⟨y, hy, hrest⟩ := Option.bind_eq_some_iff.mp hn
      have hy' : (v ++ [x])[i]? = some y := by
        rw [List.getElem?_append_left (List.getElem?_eq_some_iff.mp hy).1, hy]
      have hbelow := Node.below_vector_index e pd (v ++ [x]) i r
      rw [hy', Option.bind_some] at hbelow
      exact hbelow.trans hrest

theorem nodeAt_of_effect_below {p : SetValuePayload} {s s' : d.State} {q : List Segment}
    {n : Node} (hq : q <+: Path.target p.path) (hs' : d.effect p s = some s')
    (hn : d.nodeAt s q = some n) : ∃ m, d.nodeAt s' q = some m := by
  have hz := d.effect_eq_some.mp hs'
  obtain ⟨r, hr⟩ := hq
  cases r with
  | nil =>
    rw [List.append_nil] at hr
    obtain ⟨_, _, _, _, hn'⟩ := d.nodeAt_of_zoom (hr ▸ hz)
    exact ⟨_, hn'⟩
  | cons segment r =>
    rw [← hr] at hz
    obtain ⟨_, _, _, _, hn'⟩ := d.nodeAt_of_zoom_above (d.ne_nil_of_nodeAt hn) hz
    exact ⟨_, hn'⟩

/-! When one entry keeps the node of another. -/

theorem safe_of_diverge {p q : SetValuePayload}
    (h : Diverge (Path.target p.path) (Path.target q.path)) : d.entries.Safe p q := by
  rintro s s' _ ⟨hsome, n, hn⟩ hs'
  exact ⟨hsome, n, (d.nodeAt_of_zoom_diverge h (d.effect_eq_some.mp hs')).trans hn⟩

theorem safe_of_below {p q : SetValuePayload} (h : Path.target q.path <+: Path.target p.path) :
    d.entries.Safe p q := by
  rintro s s' _ ⟨hsome, n, hn⟩ hs'
  exact ⟨hsome, d.nodeAt_of_effect_below h hs' hn⟩

theorem safe_of_push {p q : SetValuePayload} (happ : Path.IsAppend p.path)
    (h : Path.target p.path <+: Path.target q.path) : d.entries.Safe p q := by
  rintro s s' _ ⟨hsome, n, hn⟩ hs'
  obtain ⟨r, hr⟩ := h
  cases r with
  | nil =>
    rw [List.append_nil] at hr
    exact ⟨hsome, d.nodeAt_of_effect_below (hr ▸ List.prefix_refl _) hs' hn⟩
  | cons segment r =>
    rw [Path.target_of_append happ] at hr
    exact ⟨hsome, n, hr ▸ d.nodeAt_of_push happ hs' (hr ▸ hn)⟩

theorem safe_of_set {p q : SetValuePayload} (happ : ¬Path.IsAppend p.path) {r : List Segment}
    {n : Node} (hr : Path.target q.path = p.path ++ r)
    (hn : (d.written p).bind (fun m => m.below r) = some n) : d.entries.Safe p q := by
  rintro s s' ⟨_, m, hm⟩ ⟨hsome, _⟩ hs'
  rw [Path.target_of_not_append happ] at hm
  refine ⟨hsome, n, ?_⟩
  rw [hr, d.nodeAt_append s' _ _ (d.ne_nil_of_nodeAt hm), d.nodeAt_of_set happ hs', hn]

theorem safe_of_not_covers {p q : SetValuePayload} (h : ¬Covers p q) : d.entries.Safe p q := by
  obtain ⟨r, hr⟩ | ⟨segment, r, hr⟩ | hdiv :=
    prefix_or_diverge (Path.target p.path) (Path.target q.path)
  · by_cases happ : Path.IsAppend p.path
    · exact d.safe_of_push happ ⟨r, hr.symm⟩
    · refine absurd ⟨happ, ?_⟩ h
      rw [hr, Path.target_of_not_append happ]
      exact ⟨r, rfl⟩
  · exact d.safe_of_below ⟨segment :: r, hr.symm⟩
  · exact d.safe_of_diverge hdiv

/-! When the order of two entries does not matter. -/

theorem commutes_of_diverge {p q : SetValuePayload}
    (h : Diverge (Path.target p.path) (Path.target q.path)) : d.entries.Commutes p q := by
  intro s _ _
  have hcomm := d.zoom_commute (entryAct p.path p.value) (entryAct q.path q.value) h
  have hp : d.effect p = (d.zoom (entryAct p.path p.value) (Path.target p.path)).exec :=
    funext (d.effect_eq_zoom p)
  have hq : d.effect q = (d.zoom (entryAct q.path q.value) (Path.target q.path)).exec :=
    funext (d.effect_eq_zoom q)
  simp only [entries, hp, hq]
  exact hcomm.exec s

theorem exec_exchange {α β : Type} {a : Act α} {b : Act β} {path : List Segment} {s : d.State}
    {n : Node} (hn : d.nodeAt s path = some n)
    (h : a.both b n.ty n.descriptor n.value = (b.both a).map Prod.swap n.ty n.descriptor n.value) :
    ((d.zoom a path).exec s).bind (d.zoom b path).exec =
      ((d.zoom b path).exec s).bind (d.zoom a path).exec := by
  have hboth := d.zoom_congr_node hn h
  rw [d.zoom_map, d.zoom_both, d.zoom_both] at hboth
  have hexec := congrArg (Option.map Prod.snd) hboth
  change Action.exec _ s = Action.exec _ s at hexec
  rwa [Action.exec_map, Action.exec_both, Action.exec_both] at hexec

theorem push_both_index {e : ElemTy} {pd : ParamDescriptor} {v : List e.Val} {i : Nat} {y : e.Val}
    (hi : v[i]? = some y) (src : Value) (b : Act Unit) :
    (pushAct src).both (zoomChild (.index i) b) (.vector e) pd v =
      ((zoomChild (.index i) b).both (pushAct src)).map Prod.swap (.vector e) pd v :=
  push_both_zoomIndex hi (denoteElem e pd src) (b (.elem e) pd)

theorem effect_of_zoom {p : SetValuePayload} {path r : List Segment} (hne : path ≠ [])
    (h : Path.target p.path = path ++ r) :
    d.effect p = (d.zoom (Store.zoom (entryAct p.path p.value) r) path).exec := by
  funext s
  rw [d.effect_eq_zoom, h, d.zoom_append _ _ _ hne]

theorem commutes_push_below {p q : SetValuePayload} (happ : Path.IsAppend p.path)
    {segment : Segment} {r : List Segment}
    (h : Path.target q.path = Path.target p.path ++ segment :: r) : d.entries.Commutes p q := by
  rintro s hp ⟨_, m, hm⟩
  obtain ⟨e, pd, v, x, hn, _⟩ := d.vector_of_append happ hp
  have hne := d.ne_nil_of_nodeAt hn
  rw [Path.target_of_append happ] at h
  have heffect : d.effect p = (d.zoom (pushAct p.value) (Path.popBack p.path)).exec := by
    funext s
    rw [d.effect_eq_zoom, Path.target_of_append happ, entryAct, if_pos happ]
  simp only [entries, heffect, d.effect_of_zoom hne h]
  rw [h, d.nodeAt_append s _ _ hne, hn, Option.bind_some] at hm
  refine d.exec_exchange hn ?_
  cases segment with
  | name oid => cases hm
  | index i =>
    rw [Node.below_vector_index] at hm
    obtain ⟨y, hy, _⟩ := Option.bind_eq_some_iff.mp hm
    exact push_both_index hy p.value _

/-- An entry that sets a node makes void what the entry before did inside it. -/
theorem voids_of_covers {p q : SetValuePayload} (h : Covers p q) : d.entries.Voids p q := by
  rintro s hp hq
  obtain ⟨happ, r, hr⟩ := h
  obtain ⟨n, x, hn, hx, _⟩ := d.set_of_not_append happ hp
  have hne := d.ne_nil_of_nodeAt hn
  obtain ⟨s₁, hs₁⟩ := d.effect_of_ready q s hq
  obtain ⟨s₂, hs₂⟩ := d.effect_of_ready p s hp
  have hset : d.zoom (setAct p.value) p.path s = some ((), s₂) := by
    simpa [entryAct, Path.target, happ] using d.effect_eq_some.mp hs₂
  have hinner := d.effect_eq_some.mp hs₁
  rw [← hr, d.zoom_append _ _ _ hne] at hinner
  -- both steps act at the node of `p`, and the second forgets what the first did
  have hboth : d.zoom ((Store.zoom (entryAct q.path q.value) r).both (setAct p.value)) p.path s =
      some (((), ()), s₂) := by
    refine d.zoom_of_zoom hset fun m w hm hw => ?_
    obtain ⟨m', w', hm', hw', _⟩ := d.nodeAt_of_zoom hinner
    obtain rfl := Option.some.inj (hm.symm.trans hm')
    have hagain : setAct p.value m.ty m.descriptor w' = some ((), w) := hw
    simp [Act.both, Action.both, Action.bind, Action.map, hw', hagain]
  rw [d.zoom_both] at hboth
  obtain ⟨s₁', hs₁', hs₂'⟩ := Action.both_apply_eq_some.mp hboth
  obtain rfl : s₁ = s₁' := congrArg Prod.snd (Option.some.inj (hinner.symm.trans hs₁'))
  have hlast : d.effect p s₁ = some s₂ :=
    d.effect_eq_some.mpr (by simpa [entryAct, Path.target, happ] using hs₂')
  simp only [entries, hs₁, hs₂, Option.bind_some, hlast]

/-- The two entries write the same value at the node of the second. -/
def Agrees (p q : SetValuePayload) : Prop :=
  ∀ r, q.path = p.path ++ r → (d.written p).bind (fun n => n.below r) = d.written q

theorem commutes_of_agrees {p q : SetValuePayload} (hcov : Covers p q)
    (hq : ¬Path.IsAppend q.path) (h : d.Agrees p q) : d.entries.Commutes p q := by
  rintro s hp hready
  obtain ⟨happ, r, hr⟩ := id hcov
  rw [d.voids_of_covers hcov s hp hready]
  obtain ⟨s₁, hs₁⟩ := d.effect_of_ready p s hp
  have hstep : d.entries.step p s = some s₁ := hs₁
  rw [hstep, Option.bind_some]
  -- after `p`, the node of `q` already holds what `q` writes
  rw [Path.target_of_not_append hq] at hr
  obtain ⟨n, x, hn, hx, hw⟩ := d.set_of_not_append hq hready
  obtain ⟨_, _, hnp, _, _⟩ := d.set_of_not_append happ hp
  have hnode : d.nodeAt s₁ q.path = some ⟨n.ty, n.descriptor, x⟩ := by
    rw [← hr, d.nodeAt_append s₁ _ _ (d.ne_nil_of_nodeAt hnp), d.nodeAt_of_set happ hs₁,
      h r hr.symm, hw]
  have hact : setAct q.value n.ty n.descriptor x = some ((), x) := by simp [setAct, hx]
  have hsame := d.zoom_of_unchanged (setAct q.value) hnode hact
  exact d.effect_eq_some.mpr (by simpa [entryAct, Path.target, hq] using hsame)

theorem append_cases {q b : SetValuePayload} (hq : Path.IsAppend q.path) :
    Covers b q ∨ Operations.SameKey SetValuePayload.appendsTo q b ∨ d.entries.Commutes q b := by
  obtain ⟨r, hr⟩ | ⟨segment, r, hr⟩ | hdiv :=
    prefix_or_diverge (Path.target b.path) (Path.target q.path)
  · by_cases hb : Path.IsAppend b.path
    · cases r with
      | nil =>
        rw [List.append_nil, Path.target_of_append hq, Path.target_of_append hb] at hr
        exact .inr (.inl ⟨by simp [SetValuePayload.appendsTo, hq],
          by simp [SetValuePayload.appendsTo, hq, hb, hr]⟩)
      | cons segment r => exact .inr (.inr (d.commutes_push_below hb hr).symm)
    · rw [Path.target_of_not_append hb] at hr
      exact .inl ⟨hb, ⟨r, hr.symm⟩⟩
  · exact .inr (.inr (d.commutes_push_below hq hr))
  · exact .inr (.inr (d.commutes_of_diverge hdiv).symm)

/-- Whatever the first entry writes at the node of the second, the second writes too. -/
def Compatible (p q : SetValuePayload) : Prop :=
  Covers p q → ¬Path.IsAppend q.path ∧ d.Agrees p q

theorem safe_of_compatible {p q : SetValuePayload} (h : d.Compatible p q) : d.entries.Safe p q := by
  by_cases hcov : Covers p q
  · obtain ⟨hq, hagree⟩ := h hcov
    obtain ⟨happ, r, hr⟩ := hcov
    intro s s' hp hready hs'
    obtain ⟨n, hn⟩ := Option.isSome_iff_exists.mp hready.1
    have hbelow := (hagree r (by rw [hr, Path.target_of_not_append hq])).trans hn
    exact d.safe_of_set happ hr.symm hbelow s s' hp hready hs'
  · exact d.safe_of_not_covers hcov

/-- The order of two compatible entries matters only if they append to the same array. -/
theorem commutes_of_compatible {p q : SetValuePayload} (hpq : d.Compatible p q)
    (hqp : d.Compatible q p) :
    Operations.SameKey SetValuePayload.appendsTo p q ∨ d.entries.Commutes p q := by
  by_cases hp : Path.IsAppend p.path
  · obtain hcov | hsame | hcomm := d.append_cases (b := q) hp
    · exact absurd hp (hqp hcov).1
    · exact .inl hsame
    · exact .inr hcomm
  · by_cases hq : Path.IsAppend q.path
    · obtain hcov | hsame | hcomm := d.append_cases (b := p) hq
      · exact absurd hq (hpq hcov).1
      · exact .inl ⟨fun h => hsame.1 (hsame.2.trans h), hsame.2.symm⟩
      · exact .inr hcomm.symm
    · right
      obtain ⟨r, hr⟩ | ⟨segment, r, hr⟩ | hdiv :=
        prefix_or_diverge (Path.target p.path) (Path.target q.path)
      · have hcov : Covers p q := ⟨hp, r, by rw [hr, Path.target_of_not_append hp]⟩
        exact d.commutes_of_agrees hcov hq (hpq hcov).2
      · have hcov : Covers q p := ⟨hq, segment :: r, by rw [hr, Path.target_of_not_append hq]⟩
        exact (d.commutes_of_agrees hcov hp (hqp hcov).2).symm
      · exact d.commutes_of_diverge hdiv

end Device

end Catena.Store
