import Catena.Store.Overlap

/-!
# The lengths of arrays

What the entries of a multi-set do to the length of an array can be told from the entries: one
that appends to it adds an element, one that sets it or a node around it brings its own
elements, and all others leave the length alone.
-/

namespace Catena.Store

open Catena.Framework

theorem length_zoomChild {segment : Segment} {a : Act Unit} {n : Node} {v : n.ty.Val}
    (h : zoomChild segment a n.ty n.descriptor n.value = some ((), v)) :
    Node.length ⟨n.ty, n.descriptor, v⟩ = n.length := by
  obtain ⟨t, pd, w⟩ := n
  cases t with
  | empty type subParams => rfl
  | elem e => rfl
  | vector e =>
    change List e.Val at w
    cases segment with
    | name oid => cases h
    | index i =>
      obtain ⟨x, _, hr⟩ := Option.bind_eq_some_iff.mp h
      obtain ⟨r, _, he⟩ := Option.map_eq_some_iff.mp hr
      obtain ⟨_, rfl⟩ := Prod.mk.inj he
      exact congrArg some List.length_set

namespace Device

variable (d : Device)

def lengthAt (s : d.State) (path : List Segment) : Option Nat := (d.nodeAt s path).bind Node.length

/-- The number of elements an entry brings to the array at a path below its node. -/
def lengthBrought (p : SetValuePayload) (array : List Segment) : Option Nat :=
  (d.written p).bind fun n => (n.below (array.drop p.path.length)).bind Node.length

theorem lengthAt_of_written {p : SetValuePayload} {array : List Segment} {s : d.State} {n : Node}
    (h : p.SetsAround array) (hw : d.written p = some n) (hn : d.nodeAt s p.path = some n) :
    d.lengthAt s array = d.lengthBrought p array := by
  obtain ⟨_, r, rfl⟩ := h
  simp only [lengthAt, lengthBrought, List.drop_left, hw, hn, Option.bind_some,
    d.nodeAt_append s _ _ (d.ne_nil_of_nodeAt hn)]

theorem lengthAt_of_covers {p : SetValuePayload} {array : List Segment} {s s' : d.State}
    (h : p.SetsAround array) (hs' : d.effect p s = some s') :
    d.lengthAt s' array = d.lengthBrought p array := by
  have hz := d.effect_eq_some.mp hs'
  rw [Path.target_of_not_append h.1] at hz
  obtain ⟨_, _, _, _, hn⟩ := d.nodeAt_of_zoom hz
  exact d.lengthAt_of_written h ((d.nodeAt_of_set h.1 hs').symm.trans hn) hn

theorem node_of_lengthAt {s : d.State} {array : List Segment} {len : Nat}
    (h : d.lengthAt s array = some len) :
    ∃ n, d.nodeAt s array = some n ∧ n.length = some len := Option.bind_eq_some_iff.mp h

theorem lengthAt_of_push {p : SetValuePayload} {s s' : d.State} {array : List Segment}
    (hto : p.appendsTo = some array) (hs' : d.effect p s = some s') :
    ∃ len, d.lengthAt s array = some len ∧ d.lengthAt s' array = some (len + 1) := by
  obtain ⟨happ, rfl⟩ := SetValuePayload.appendsTo_eq_some.mp hto
  have hz := d.effect_eq_some.mp hs'
  simp only [entryAct, Path.target, happ, if_true] at hz
  obtain ⟨⟨t, pd, v⟩, w, hn, hact, hn'⟩ := d.nodeAt_of_zoom hz
  simp only [lengthAt, hn, hn', Option.bind_some]
  cases t with
  | empty type subParams => cases hact
  | elem e => cases hact
  | vector e =>
    change List e.Val at v
    obtain ⟨x, _, he⟩ := Option.map_eq_some_iff.mp hact
    obtain ⟨_, rfl⟩ := Prod.mk.inj he
    exact ⟨v.length, rfl, congrArg some (by simp : (v ++ [x]).length = v.length + 1)⟩

/-- All other entries leave the length of an array alone. -/
theorem lengthAt_of_other {p : SetValuePayload} {array : List Segment} {s s' : d.State} {n : Node}
    (hne : p.appendsTo ≠ some array) (hcov : ¬p.SetsAround array)
    (hn : d.nodeAt s array = some n) (hs' : d.effect p s = some s') :
    d.lengthAt s' array = d.lengthAt s array := by
  have hz := d.effect_eq_some.mp hs'
  obtain ⟨r, hr⟩ | ⟨segment, r, hr⟩ | hdiv := prefix_or_diverge (Path.target p.path) array
  · by_cases happ : Path.IsAppend p.path
    · rw [Path.target_of_append happ] at hr
      cases r with
      | nil =>
        rw [List.append_nil] at hr
        exact absurd (SetValuePayload.appendsTo_eq_some.mpr ⟨happ, hr.symm⟩) hne
      | cons segment r =>
        rw [hr] at hn ⊢
        simp only [lengthAt, hn, d.nodeAt_of_push happ hs' hn]
    · rw [Path.target_of_not_append happ] at hr
      exact absurd ⟨happ, r, hr.symm⟩ hcov
  · rw [hr] at hz
    obtain ⟨m, v, hm, hchild, hm'⟩ := d.nodeAt_of_zoom_above (d.ne_nil_of_nodeAt hn) hz
    simp only [lengthAt, hm, hm', Option.bind_some]
    exact length_zoomChild hchild
  · simp only [lengthAt, d.nodeAt_of_zoom_diverge hdiv hz]

/-- The length of an array after an entry, from its length before. -/
def lengthAfter (p : SetValuePayload) (array : List Segment) (len : Nat) : Option Nat :=
  if p.appendsTo = some array then some (len + 1)
  else if p.SetsAround array then d.lengthBrought p array
  else some len

theorem lengthAt_effect {p : SetValuePayload} {array : List Segment} {s s' : d.State} {len : Nat}
    (hlen : d.lengthAt s array = some len) (hs' : d.effect p s = some s') :
    d.lengthAt s' array = d.lengthAfter p array len := by
  simp only [lengthAfter]
  split
  · rename_i hto
    obtain ⟨len', hlen', hafter⟩ := d.lengthAt_of_push hto hs'
    obtain rfl := Option.some.inj (hlen.symm.trans hlen')
    exact hafter
  · rename_i hto
    split
    · rename_i hcov
      exact d.lengthAt_of_covers hcov hs'
    · rename_i hcov
      obtain ⟨n, hn, _⟩ := d.node_of_lengthAt hlen
      exact (d.lengthAt_of_other hto hcov hn hs').trans hlen

def maxLengthAt (array : List Segment) : Nat :=
  match d.descend array with
  | some c => c.2.maxLength
  | none => 0

/-- The length of an array after a list of entries; `none` if an entry finds it full. -/
def track (array : List Segment) : List SetValuePayload → Nat → Option Nat
  | [], len => some len
  | p :: ps, len =>
      if p.appendsTo = some array ∧ d.maxLengthAt array ≤ len then none
      else (d.lengthAfter p array len).bind (track array ps)

/-- Every entry that appends finds room in its array. -/
def RoomAlong : List SetValuePayload → d.State → Prop
  | [], _ => True
  | p :: ps, s => d.HasRoom s p.path ∧ ∀ s', d.effect p s = some s' → RoomAlong ps s'

theorem hasRoom_iff {p : SetValuePayload} {array : List Segment} {s : d.State} {len : Nat}
    (hto : p.appendsTo = some array) (hlen : d.lengthAt s array = some len) :
    d.HasRoom s p.path ↔ len < d.maxLengthAt array := by
  obtain ⟨n, hn, hnlen⟩ := d.node_of_lengthAt hlen
  have hmax : d.maxLengthAt array = n.descriptor.maxLength := by
    simp only [maxLengthAt, d.descend_of_nodeAt hn]
  obtain ⟨happ, rfl⟩ := SetValuePayload.appendsTo_eq_some.mp hto
  constructor
  · intro hroom
    obtain ⟨m, len', hm, hmlen, hlt⟩ := hroom happ
    obtain rfl := Option.some.inj (hn.symm.trans hm)
    obtain rfl := Option.some.inj (hnlen.symm.trans hmlen)
    rwa [hmax]
  · exact fun hlt _ => ⟨n, len, hn, hnlen, hmax ▸ hlt⟩

/-- Arrays whose lengths can be told from the entries have room for them. -/
theorem roomAlong_of_track {ps : List SetValuePayload} {s s' : d.State}
    (arrays : List Segment → Prop) (final : List Segment → Nat)
    (hto : ∀ p ∈ ps, ∀ array, p.appendsTo = some array → arrays array)
    (htrack : ∀ array, arrays array →
      (d.lengthAt s array).bind (d.track array ps) = some (final array))
    (hs' : replay d.effect ps s = some s') :
    d.RoomAlong ps s ∧ ∀ array, arrays array → d.lengthAt s' array = some (final array) := by
  induction ps generalizing s with
  | nil =>
    obtain rfl := Option.some.inj hs'
    exact ⟨trivial, fun array harray => by simpa [track] using htrack array harray⟩
  | cons p ps ih =>
    obtain ⟨s₁, hs₁, hrest⟩ := Option.bind_eq_some_iff.mp hs'
    have hstep (array : List Segment) (harray : arrays array) :
        (p.appendsTo = some array → d.HasRoom s p.path) ∧
          (d.lengthAt s₁ array).bind (d.track array ps) = some (final array) := by
      obtain ⟨len, hlen, hnext⟩ := Option.bind_eq_some_iff.mp (htrack array harray)
      simp only [track] at hnext
      split at hnext
      · cases hnext
      · rename_i hfits
        refine ⟨fun h => (d.hasRoom_iff h hlen).mpr (by simpa [h] using hfits), ?_⟩
        rw [d.lengthAt_effect hlen hs₁, hnext]
    obtain ⟨hroom, hfinal⟩ := ih (fun q hq => hto q (by simp [hq])) (fun array h => (hstep array h).2) hrest
    refine ⟨⟨fun happ => ?_, fun s₂ hs₂ => ?_⟩, hfinal⟩
    · have hp := SetValuePayload.appendsTo_eq_some.mpr ⟨happ, rfl⟩
      exact (hstep _ (hto p (by simp) _ hp)).1 hp happ
    · obtain rfl := Option.some.inj (hs₁.symm.trans hs₂)
      exact hroom

/-- The length of an array at the end of a run with room for every entry, as far as every entry
around it brings the array. -/
theorem track_of_roomAlong {ps : List SetValuePayload} {s s' : d.State} {array : List Segment}
    {len : Nat} (hlen : d.lengthAt s array = some len)
    (hbring : ∀ p ∈ ps, p.SetsAround array → (d.lengthBrought p array).isSome = true)
    (hroom : d.RoomAlong ps s) (hs' : replay d.effect ps s = some s') :
    ∃ len', d.track array ps len = some len' ∧ d.lengthAt s' array = some len' := by
  induction ps generalizing s len with
  | nil =>
    obtain rfl := Option.some.inj hs'
    exact ⟨len, rfl, hlen⟩
  | cons p ps ih =>
    obtain ⟨s₁, hs₁, hrest⟩ := Option.bind_eq_some_iff.mp hs'
    have hafter := d.lengthAt_effect hlen hs₁
    have hfits : ¬(p.appendsTo = some array ∧ d.maxLengthAt array ≤ len) := by
      rintro ⟨hto, hfull⟩
      have := (d.hasRoom_iff hto hlen).mp hroom.1
      omega
    have hsome : (d.lengthAfter p array len).isSome = true := by
      simp only [lengthAfter]
      split
      · rfl
      · split
        · exact hbring p (by simp) ‹_›
        · rfl
    obtain ⟨len₁, hlen₁⟩ := Option.isSome_iff_exists.mp hsome
    rw [track, if_neg hfits, hlen₁, Option.bind_some]
    exact ih (hafter.trans hlen₁) (fun q hq => hbring q (by simp [hq])) (hroom.2 s₁ hs₁) hrest

theorem track_append (array : List Segment) (ps qs : List SetValuePayload) (len : Nat) :
    d.track array (ps ++ qs) len = (d.track array ps len).bind (d.track array qs) := by
  induction ps generalizing len with
  | nil => rfl
  | cons p ps ih =>
    simp only [List.cons_append, track]
    split
    · rfl
    · cases d.lengthAfter p array len with
      | none => rfl
      | some len' => exact ih len'

def appendCount (array : List Segment) (ps : List SetValuePayload) : Nat :=
  (ps.filter (·.appendsTo = some array)).length

/-- An array that no entry sets grows by the entries that append to it. -/
theorem track_of_not_around {array : List Segment} {ps : List SetValuePayload} (len : Nat)
    (h : ∀ p ∈ ps, ¬p.SetsAround array) :
    d.track array ps len =
      if appendCount array ps = 0 ∨ len + appendCount array ps ≤ d.maxLengthAt array then
        some (len + appendCount array ps)
      else none := by
  induction ps generalizing len with
  | nil => simp [track, appendCount]
  | cons p ps ih =>
    have hrest := fun len => ih len fun q hq => h q (by simp [hq])
    by_cases hto : p.appendsTo = some array
    · have hcount : appendCount array (p :: ps) = appendCount array ps + 1 := by
        simp [appendCount, hto]
      simp only [track, lengthAfter, hto, true_and, if_true, Option.bind_some, hrest, hcount]
      by_cases hfull : d.maxLengthAt array ≤ len
      · rw [if_pos hfull, if_neg (by omega)]
      · rw [if_neg hfull, Nat.add_assoc, Nat.add_comm 1]
        by_cases hfit : len + (appendCount array ps + 1) ≤ d.maxLengthAt array
        · rw [if_pos (.inr hfit), if_pos (.inr hfit)]
        · rw [if_neg (by omega), if_neg (by omega)]
    · have hcount : appendCount array (p :: ps) = appendCount array ps := by
        simp [appendCount, hto]
      simp only [track, lengthAfter, hto, h p (by simp), false_and, if_false, Option.bind_some,
        hrest, hcount]

end Device

end Catena.Store
