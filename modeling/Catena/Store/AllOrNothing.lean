import Catena.Store.OrderIndependence

/-!
# All or nothing

`tryMultiSetValue` validates each entry against the store as it is before the commit. A
multi-set it accepts is applied as a whole exactly if the entries fit together: each is valid
where it points, entries that overlap agree, and every array has room for all its appends.
-/

namespace Catena.Store

open Catena.Framework
open ExceptionWithStatus (ok)

/-- The entry sets a node around the array the other one appends to. -/
def CoversAppend (p q : SetValuePayload) : Prop := Covers p q ∧ Path.IsAppend q.path

instance : DecidableRel CoversAppend := fun p q =>
  inferInstanceAs (Decidable (Covers p q ∧ Path.IsAppend q.path))

namespace Device

variable (d : Device)

def Appended (src : List SetValuePayload) (array : List Segment) : Prop :=
  ∃ p ∈ src, p.appendsTo = some array

/-- Every entry that sets a node has left its value there, and every array has as many more
elements as entries append to it. -/
structure AppliesAll (s : d.State) (src : List SetValuePayload) (s' : d.State) : Prop where
  sets : ∀ p ∈ src, ¬Path.IsAppend p.path →
    ∃ n, d.written p = some n ∧ d.nodeAt s' p.path = some n
  appends : ∀ array, Appended src array → ∃ len, d.lengthAt s array = some len ∧
    d.lengthAt s' array = some (len + appendCount array src)

/-- A multi-set that validates is applied as a whole, one that does not changes nothing. -/
def AllOrNothing (s : d.State) (src : List SetValuePayload) (authz : Authorizer) : Prop :=
  match d.tryMultiSetValue s src authz with
  | .error _ => (d.multiSetValue s src authz).store = s
  | .ok ans =>
      if ans.isOk then
        ∃ rc s', d.commitMultiSetValue s src authz = .returned rc s' ∧ rc.isOk = true ∧
          d.AppliesAll s src s'
      else (d.multiSetValue s src authz).store = s

/-- The entries fit the store and one another. -/
structure Fits (s : d.State) (src : List SetValuePayload) (authz : Authorizer) : Prop where
  valid : ∀ p ∈ src, ¬Path.IsAppend p.path → ∃ param, d.getParam s p.path authz = .ok param ∧
    (validFromProto authz param.ty param.descriptor p.value).isOk = true
  agree : ∀ p ∈ src, ∀ q ∈ src, Covers p q → ¬Path.IsAppend q.path → d.Agrees p q
  room : ∀ array, Appended src array → ∃ len, d.lengthAt s array = some len ∧
    d.track array src len = some (len + appendCount array src) ∧
    ∀ p ∈ src, p.SetsAround array → d.lengthBrought p array = some (len + appendCount array src)

variable {d} {authz : Authorizer} {s s' : d.State} {src : List SetValuePayload}

theorem validEntry_of_append {p : SetValuePayload} (h : Accepted d s authz p.path p.value)
    (happ : Path.IsAppend p.path) : d.ValidEntry authz p.path p.value :=
  d.validEntry_of_accepted h fun hnone =>
    Path.kEnd_ne_kNone (Option.some.inj (happ.symm.trans hnone))

theorem Fits.ready (h : d.Fits s src authz)
    (hacc : ∀ p ∈ src, Path.parse p.oid = .ok p.path ∧ Accepted d s authz p.path p.value)
    {p : SetValuePayload} (hp : p ∈ src) :
    d.ValidEntry authz p.path p.value ∧ d.ReadableAlong authz (Path.target p.path) ∧
      d.Ready p s := by
  by_cases happ : Path.IsAppend p.path
  · have hvalid := validEntry_of_append (hacc p hp).2 happ
    refine ⟨hvalid, ?_, (d.node_of_accepted (hacc p hp).2 (d.written_of_valid hvalid)).2⟩
    rw [Path.target_of_append happ]
    cases (hacc p hp).2 with
    | append e pd v hindex hread hnode => exact hread
    | whole n hindex => simp [Path.IsAppend, hindex] at happ
    | element i e pd v hindex hend => simp [Path.IsAppend, hindex, hend] at happ
    | noIndex n hindex =>
      exact absurd (Option.some.inj (happ.symm.trans hindex)) Path.kEnd_ne_kNone
  · obtain ⟨param, hget, hok⟩ := h.valid p hp happ
    obtain ⟨hread, hfocus⟩ := (d.getParam_ok_iff s p.path authz param).mp hget
    have hvalid : d.ValidEntry authz p.path p.value := by
      simp only [ValidEntry, happ, if_false]
      exact ⟨param.ty, param.descriptor, d.descend_of_focus hfocus, hok⟩
    rw [Path.target_of_not_append happ]
    refine ⟨hvalid, hread, d.written_of_valid hvalid, param.node, ?_⟩
    simp [Path.target_of_not_append happ, nodeAt, hfocus]

theorem Fits.allReady (h : d.Fits s src authz)
    (hacc : ∀ p ∈ src, Path.parse p.oid = .ok p.path ∧ Accepted d s authz p.path p.value) :
    d.entries.AllReady src s := by
  refine ⟨fun p hp => (h.ready hacc hp).2.2, fun p hp q hq => ?_⟩
  by_cases hq' : Path.IsAppend q.path
  · by_cases hcov : Covers p q
    · obtain ⟨len, _, _, hbrought⟩ :=
        h.room (Path.popBack q.path) ⟨q, hq, SetValuePayload.appendsTo_eq_some.mpr ⟨hq', rfl⟩⟩
      have haround : p.SetsAround (Path.popBack q.path) := Path.target_of_append hq' ▸ hcov
      obtain ⟨n, hn, hlen⟩ := Option.bind_eq_some_iff.mp (hbrought p hp haround)
      obtain ⟨m, hm, _⟩ := Option.bind_eq_some_iff.mp hlen
      obtain ⟨happ, r, hr⟩ := haround
      refine d.safe_of_set happ (r := r) (n := m) ?_ ?_
      · rw [Path.target_of_append hq', hr]
      · rw [← hr, List.drop_left] at hm
        rw [hn, Option.bind_some, hm]
    · exact d.safe_of_not_covers hcov
  · exact d.safe_of_compatible fun hcov => ⟨hq', h.agree p hp q hq hcov hq'⟩

/-- An entry that appends and is not made void by a later entry is not covered at all: each
entry around its array brings as many elements as there are in the end. -/
theorem Fits.not_covered (h : d.Fits s src authz) {p q : SetValuePayload} (hp : p ∈ src)
    (hq : q ∈ Operations.prune CoversAppend src) (happ : Path.IsAppend q.path) : ¬Covers p q := by
  intro hcov
  have hto := SetValuePayload.appendsTo_eq_some.mpr ⟨happ, rfl⟩
  have hqsrc := (Operations.prune_sublist CoversAppend src).subset hq
  obtain ⟨len, _, htrack, hbrought⟩ := h.room (Path.popBack q.path) ⟨q, hqsrc, hto⟩
  have haround : p.SetsAround (Path.popBack q.path) := Path.target_of_append happ ▸ hcov
  obtain ⟨before, c, after, hsplit, hc, hafter⟩ :=
    exists_last (P := fun p => p.SetsAround (Path.popBack q.path)) ⟨p, hp, haround⟩
  have hcto : ¬c.appendsTo = some (Path.popBack q.path) := fun hcto =>
    hc.1 (SetValuePayload.appendsTo_eq_some.mp hcto).1
  -- the length after the last entry around the array is the final one already
  have hnone : appendCount (Path.popBack q.path) after = 0 := by
    rw [hsplit, d.track_append] at htrack
    obtain ⟨len₁, _, hrest⟩ := Option.bind_eq_some_iff.mp htrack
    have hlast := hbrought c (by simp [hsplit]) hc
    simp only [track, lengthAfter, hcto, false_and, if_false, hc, if_true, hlast,
      Option.bind_some, d.track_of_not_around _ hafter] at hrest
    split at hrest
    · have := Option.some.inj hrest
      rw [hsplit] at this
      omega
    · cases hrest
  have hfree : q ∉ c :: after := by
    intro hmem
    rcases List.mem_cons.mp hmem with rfl | hmem
    · exact hc.1 happ
    · have hpos : q ∈ after.filter (·.appendsTo = some (Path.popBack q.path)) :=
        List.mem_filter.mpr ⟨hmem, by simpa using hto⟩
      rw [appendCount, List.length_eq_zero_iff] at hnone
      simp [hnone] at hpos
  have hcovers : CoversAppend c q :=
    ⟨show c.SetsAround (Path.target q.path) by rwa [Path.target_of_append happ], happ⟩
  exact Operations.not_mem_prune CoversAppend hcovers hfree (hsplit ▸ hq)

theorem Fits.compatible (h : d.Fits s src authz) {p q : SetValuePayload}
    (hp : p ∈ Operations.prune CoversAppend src) (hq : q ∈ Operations.prune CoversAppend src) :
    d.Compatible p q := by
  intro hcov
  have hsub := (Operations.prune_sublist CoversAppend src).subset
  by_cases happ : Path.IsAppend q.path
  · exact absurd hcov (h.not_covered (hsub hp) hq happ)
  · exact ⟨happ, h.agree p (hsub hp) q (hsub hq) hcov happ⟩

theorem replay_prune_covered (h : d.entries.AllReady src s) :
    replay d.effect src s = replay d.effect (Operations.prune CoversAppend src) s := by
  refine Operations.replay_prune SetValuePayload.appendsTo h ?_ ?_ ?_ ?_
  · exact fun p a hpa => d.voids_of_covers hpa.1
  · exact fun p a q hpa hqp => hpa.1.1 hqp.2
  · rintro p a b ⟨hcov, happ⟩ ⟨_, hsame⟩
    have hto := SetValuePayload.appendsTo_eq_some.mpr ⟨happ, rfl⟩
    obtain ⟨hb, harray⟩ := SetValuePayload.appendsTo_eq_some.mp (hsame.symm.trans hto)
    refine ⟨show p.SetsAround (Path.target b.path) from ?_, hb⟩
    rw [Path.target_of_append hb, harray, ← Path.target_of_append happ]
    exact hcov
  · intro p a b hpa
    exact (d.append_cases hpa.2).imp_left fun hcov => ⟨hcov, hpa.2⟩

theorem effect_last_of_compatible {ps : List SetValuePayload} (hready : d.entries.AllReady ps s)
    (hcompat : ∀ p ∈ ps, ∀ q ∈ ps, d.Compatible p q) (hs' : replay d.effect ps s = some s')
    {p : SetValuePayload} (hp : p ∈ ps) (happ : ¬Path.IsAppend p.path) :
    ∃ s₁, d.effect p s₁ = some s' := by
  obtain ⟨before, after, rfl⟩ := List.append_of_mem hp
  obtain ⟨s₁, hs₁, hready₁⟩ := hready.exists_replay before (by simp +contextual)
  have hmove : replay d.effect (p :: (after ++ [])) s₁ = replay d.effect (after ++ [p]) s₁ := by
    refine Operations.replay_move [] (hready₁.subset _ (by simp +contextual)) fun q hq => ?_
    refine (d.commutes_of_compatible (hcompat p (by simp) q (by simp [hq]))
      (hcompat q (by simp [hq]) p (by simp))).resolve_left fun hsame => hsame.1 ?_
    simp [SetValuePayload.appendsTo, happ]
  have hbefore : replay d.effect before s = some s₁ := hs₁
  rw [replay_append, hbefore, Option.bind_some, ← List.append_nil after, hmove, replay_append]
    at hs'
  obtain ⟨s₂, _, hlast⟩ := Option.bind_eq_some_iff.mp hs'
  obtain ⟨s₃, hs₃, hnil⟩ := Option.bind_eq_some_iff.mp hlast
  obtain rfl := Option.some.inj hnil
  exact ⟨s₂, hs₃⟩

/-- Accepted entries that fit are all applied. -/
theorem Fits.appliesAll (h : d.Fits s src authz)
    (hacc : ∀ p ∈ src, Path.parse p.oid = .ok p.path ∧ Accepted d s authz p.path p.value) :
    ∃ rc s', d.commitMultiSetValue s src authz = .returned rc s' ∧ rc.isOk = true ∧
      d.AppliesAll s src s' := by
  have hready := h.allReady hacc
  obtain ⟨s', hs', _⟩ := hready.exists_replay src fun _ hp => hp
  have hroom (array : List Segment) (harray : Appended src array) :
      (d.lengthAt s array).bind (d.track array src) =
        some ((d.lengthAt s array).getD 0 + appendCount array src) := by
    obtain ⟨len, hlen, htrack, _⟩ := h.room array harray
    rw [hlen, Option.bind_some, htrack, Option.getD_some]
  obtain ⟨hroomAlong, hlength⟩ := d.roomAlong_of_track (Appended src) _
    (fun p hp array hto => ⟨p, hp, hto⟩) hroom hs'
  have hparse : ∀ p ∈ src, Path.parse p.oid = .ok p.path := fun p hp => (hacc p hp).1
  have hvalid : ∀ p ∈ src, d.ValidEntry authz p.path p.value := fun p hp => (h.ready hacc hp).1
  obtain ⟨rc, hrc⟩ : ∃ rc, d.commitLoop authz src ok s = .returned rc s' :=
    (d.commitLoop_returned_iff hparse hvalid).mpr
      ⟨fun p hp => (h.ready hacc hp).2.1, hroomAlong, hs'⟩
  refine ⟨rc, s', hrc, d.commitLoop_isOk hparse hvalid rfl hrc, fun p hp happ => ?_, ?_⟩
  · have hpruned : replay d.effect (Operations.prune CoversAppend src) s = some s' :=
      (replay_prune_covered hready).symm.trans hs'
    have hmem : p ∈ Operations.prune CoversAppend src :=
      Operations.mem_prune CoversAppend hp fun q hq => happ hq.2
    obtain ⟨s₁, hs₁⟩ := effect_last_of_compatible
      (hready.subset _ (Operations.prune_sublist CoversAppend src).subset)
      (fun p hp q hq => h.compatible hp hq) hpruned hmem happ
    obtain ⟨n, hn⟩ := Option.isSome_iff_exists.mp (hready.ready p hp).1
    exact ⟨n, hn, (d.nodeAt_of_set happ hs₁).trans hn⟩
  · intro array harray
    obtain ⟨len, hlen, _⟩ := h.room array harray
    refine ⟨len, hlen, ?_⟩
    rw [hlength array harray, hlen, Option.getD_some]

/-- Accepted entries that are all applied fit. -/
theorem AppliesAll.fits (h : d.AppliesAll s src s') {rc : ExceptionWithStatus}
    (hrc : d.commitMultiSetValue s src authz = .returned rc s')
    (hacc : ∀ p ∈ src, Path.parse p.oid = .ok p.path ∧ Accepted d s authz p.path p.value) :
    d.Fits s src authz := by
  have hentry (p : SetValuePayload) (hp : p ∈ src) :
      d.ValidEntry authz p.path p.value ∧ d.Ready p s := by
    by_cases happ : Path.IsAppend p.path
    · have hvalid := validEntry_of_append (hacc p hp).2 happ
      exact d.node_of_accepted (hacc p hp).2 (d.written_of_valid hvalid)
    · obtain ⟨n, hn, _⟩ := h.sets p hp happ
      exact d.node_of_accepted (hacc p hp).2 (by rw [hn]; rfl)
  obtain ⟨hread, hroom, hreplay⟩ := (d.commitLoop_returned_iff (fun p hp => (hacc p hp).1)
    fun p hp => (hentry p hp).1).mp ⟨rc, hrc⟩
  have hbrought {array : List Segment} {p : SetValuePayload} (hp : p ∈ src)
      (haround : p.SetsAround array) : d.lengthAt s' array = d.lengthBrought p array := by
    obtain ⟨n, hw, hn⟩ := h.sets p hp haround.1
    exact d.lengthAt_of_written haround hw hn
  refine ⟨fun p hp happ => ?_, fun p hp q hq hcov hqapp r hr => ?_, fun array harray => ?_⟩
  · obtain ⟨hvalid, _, n, hn⟩ := hentry p hp
    have hreadp := hread p hp
    rw [Path.target_of_not_append happ] at hn hreadp
    obtain ⟨param, hfocus, rfl⟩ := Option.map_eq_some_iff.mp hn
    exact ⟨param, (d.getParam_ok_iff s p.path authz param).mpr ⟨hreadp, hfocus⟩,
      hvalid.set happ (d.descend_of_focus hfocus)⟩
  · obtain ⟨n, hw, hn⟩ := h.sets p hp hcov.1
    obtain ⟨m, hw', hm⟩ := h.sets q hq hqapp
    rw [hr, d.nodeAt_append s' _ _ (d.ne_nil_of_nodeAt hn), hn, Option.bind_some] at hm
    rw [hw, hw', Option.bind_some, hm]
  · obtain ⟨len, hlen, hlen'⟩ := h.appends array harray
    obtain ⟨len₁, htrack, hlen₁⟩ := d.track_of_roomAlong hlen
      (fun p hp haround => by rw [← hbrought hp haround, hlen']; rfl) hroom hreplay
    refine ⟨len, hlen, ?_, fun p hp haround => (hbrought hp haround).symm.trans hlen'⟩
    rw [htrack, ← hlen₁, hlen']

/-- A multi-set is applied as a whole or not at all exactly if its entries fit, when it
validates. -/
theorem allOrNothing_iff_fits (d : Device) (s : d.State) (src : List SetValuePayload)
    (authz : Authorizer) :
    d.AllOrNothing s src authz ↔
      ∀ ans, d.tryMultiSetValue s src authz = .ok ans → ans.isOk = true → d.Fits s src authz := by
  cases htry : d.tryMultiSetValue s src authz with
  | error why => simp [AllOrNothing, multiSetValue, htry, CallResult.store]
  | ok ans =>
    cases hok : ans.isOk with
    | false => simp [AllOrNothing, multiSetValue, htry, hok, CallResult.store]
    | true =>
      have hacc := d.accepted_of_try htry hok
      simp only [AllOrNothing, htry, hok, if_true, Except.ok.injEq, forall_eq', forall_const]
      constructor
      · rintro ⟨rc, s', hrc, _, happlies⟩
        exact happlies.fits hrc hacc
      · exact fun hfits => hfits.appliesAll hacc

end Device

/-- Each of two appends fits into the array, but not both of them. -/
theorem appends_not_allOrNothing :
    ¬levelDevice.AllOrNothing (([7] : List Int32), ())
      [⟨"/level/-", .int32Value 1⟩, ⟨"/level/-", .int32Value 2⟩] .kAuthzDisabled := by
  have hparse : Path.parse "/level/-" = .ok [.name "level", .index Path.kEnd] := rfl
  have htry : levelDevice.tryMultiSetValue (([7] : List Int32), ())
      [⟨"/level/-", .int32Value 1⟩, ⟨"/level/-", .int32Value 2⟩] .kAuthzDisabled =
        .ok ⟨"OK", .ok⟩ := by
    simp only [Device.tryMultiSetValue, Device.tryLoop, hparse]
    rfl
  have hcommit : levelDevice.commitMultiSetValue (([7] : List Int32), ())
      [⟨"/level/-", .int32Value 1⟩, ⟨"/level/-", .int32Value 2⟩] .kAuthzDisabled =
        .nullDereference (([7, 1] : List Int32), ()) := by
    simp only [Device.commitMultiSetValue, Device.commitLoop, hparse]
    rfl
  intro h
  simp only [Device.AllOrNothing, htry] at h
  obtain ⟨rc, s', hreturned, _⟩ := h
  cases hcommit.symm.trans hreturned

end Catena.Store
