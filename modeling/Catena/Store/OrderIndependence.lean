import Catena.Store.CommitReplay

/-!
# Committing a multi-set in another order

The overlap test of `tryMultiSetValue` compares the texts of the oids. Two texts can spell one
path in two ways, so that entries that overlap may be accepted. The order in which an accepted
multi-set is committed matters exactly if such entries do not agree.
-/

namespace Catena.Store

open Catena.Framework
open ExceptionWithStatus (ok)

namespace Device

variable (d : Device) {authz : Authorizer}

def commitEntry (authz : Authorizer) (p : SetValuePayload) (s : d.State) : Option d.State :=
  match Path.parse p.oid with
  | .error _ => none
  | .ok path => (d.commitTarget s path authz).bind fun param =>
      let written := param.fromProto authz p.value
      if written.1.isOk then some written.2 else none

/-- Every order that keeps the order of appends to the same array leaves the store `s'`. -/
def OrderIndependent (s : d.State) (src : List SetValuePayload) (authz : Authorizer)
    (s' : d.State) : Prop :=
  ∀ src', src'.Perm src →
    (∀ array, src'.filter (·.appendsTo = some array) = src.filter (·.appendsTo = some array)) →
      ∃ ans, d.commitMultiSetValue s src' authz = .returned ans s'

theorem valid_of_commitEntry {p : SetValuePayload} {s₀ s s' : d.State}
    (hparse : Path.parse p.oid = .ok p.path) (hacc : Accepted d s₀ authz p.path p.value)
    (h : d.commitEntry authz p s = some s') :
    d.ValidEntry authz p.path p.value ∧ d.ReadableAlong authz (Path.target p.path) ∧
      d.HasRoom s p.path ∧ d.effect p s = some s' := by
  simp only [commitEntry, hparse] at h
  obtain ⟨param, ht, hwritten⟩ := Option.bind_eq_some_iff.mp h
  split at hwritten
  · rename_i hrc
    obtain rfl := Option.some.inj hwritten
    obtain ⟨hread, hstep⟩ := (d.commitTarget_fromProto s _ p.path authz p.value _).mp
      (congrArg (Option.map _) ht)
    have hvalid : d.ValidEntry authz p.path p.value := by
      by_cases happ : Path.IsAppend p.path
      · refine d.validEntry_of_accepted hacc fun hnone => ?_
        exact Path.kEnd_ne_kNone (Option.some.inj (happ.symm.trans hnone))
      · simp only [commitStep, happ, if_false] at hstep
        simp only [ValidEntry, happ, if_false]
        obtain ⟨n, w, hn, hact, _⟩ := d.nodeAt_of_zoom hstep
        have hfst := fromProto_fst authz n.ty n.descriptor p.value n.value
        rw [Option.some.inj hact] at hfst
        exact ⟨n.ty, n.descriptor, d.descend_of_nodeAt hn, hfst ▸ hrc⟩
    obtain ⟨_, hroom, happly⟩ := d.apply_of_commitStep hvalid hstep
    exact ⟨hvalid, hread, hroom, Action.exec_eq_some.mpr happly⟩
  · cases hwritten

theorem replay_of_commitEntry {src : List SetValuePayload} {s₀ s s' : d.State}
    (hacc : ∀ p ∈ src, Path.parse p.oid = .ok p.path ∧ Accepted d s₀ authz p.path p.value)
    (h : replay (d.commitEntry authz) src s = some s') :
    (∀ p ∈ src, d.ValidEntry authz p.path p.value ∧ d.ReadableAlong authz (Path.target p.path)) ∧
      d.RoomAlong src s ∧ replay d.effect src s = some s' := by
  induction src generalizing s with
  | nil => exact ⟨by simp, trivial, h⟩
  | cons p ps ih =>
    obtain ⟨s₁, hs₁, hrest⟩ := Option.bind_eq_some_iff.mp h
    obtain ⟨hparse, hp⟩ := hacc p (by simp)
    obtain ⟨hvalid, hread, hroom, heffect⟩ := d.valid_of_commitEntry hparse hp hs₁
    obtain ⟨hall, hrooms, hreplay⟩ := ih (fun q hq => hacc q (by simp [hq])) hrest
    refine ⟨List.forall_mem_cons.mpr ⟨⟨hvalid, hread⟩, hall⟩, ⟨hroom, fun s₂ hs₂ => ?_⟩, ?_⟩
    · obtain rfl := Option.some.inj (heffect.symm.trans hs₂)
      exact hrooms
    · exact (replay_cons_some heffect ps).trans hreplay

theorem replay_of_orderIndependent {src src' : List SetValuePayload} {s s' : d.State}
    (hsrc : ∀ p ∈ src, Path.parse p.oid = .ok p.path ∧ d.ValidEntry authz p.path p.value)
    (h : d.OrderIndependent s src authz s') (hperm : src'.Perm src)
    (hkey : ∀ array,
      src'.filter (·.appendsTo = some array) = src.filter (·.appendsTo = some array)) :
    d.RoomAlong src' s ∧ replay d.effect src' s = some s' := by
  have hreturned := h src' hperm hkey
  have hmem : ∀ p ∈ src', p ∈ src := fun p hp => hperm.mem_iff.mp hp
  exact ((d.commitLoop_returned_iff (fun p hp => (hsrc p (hmem p hp)).1)
    fun p hp => (hsrc p (hmem p hp)).2).mp hreturned).2

/-- If the order does not matter, an entry that sets a node can come last. -/
theorem effect_last {src : List SetValuePayload} {s s' : d.State}
    (hsrc : ∀ p ∈ src, Path.parse p.oid = .ok p.path ∧ d.ValidEntry authz p.path p.value)
    (h : d.OrderIndependent s src authz s') {p : SetValuePayload} (hp : p ∈ src)
    (happ : ¬Path.IsAppend p.path) : ∃ s₁, d.effect p s₁ = some s' := by
  obtain ⟨before, after, rfl⟩ := List.append_of_mem hp
  have hto (array : List Segment) : ¬p.appendsTo = some array := by
    simp [SetValuePayload.appendsTo, happ]
  have hperm : (before ++ after ++ [p]).Perm (before ++ p :: after) :=
    (List.perm_append_singleton p _).trans List.perm_middle.symm
  obtain ⟨_, hreplay⟩ := d.replay_of_orderIndependent hsrc h hperm fun array => by
    simp [List.filter_append, hto array]
  rw [replay_append] at hreplay
  obtain ⟨s₁, _, hlast⟩ := Option.bind_eq_some_iff.mp hreplay
  obtain ⟨s₂, hs₂, hnil⟩ := Option.bind_eq_some_iff.mp hlast
  obtain rfl := Option.some.inj hnil
  exact ⟨s₁, hs₂⟩

/-- If the order does not matter, no entry sets a node around an array that another entry
appends to: the array would have one element more when the set comes before the last append. -/
theorem not_around_of_orderIndependent {src : List SetValuePayload} {s s' : d.State}
    (hsrc : ∀ p ∈ src, Path.parse p.oid = .ok p.path ∧ d.ValidEntry authz p.path p.value)
    (h : d.OrderIndependent s src authz s') {array : List Segment}
    (hto : ∃ q ∈ src, q.appendsTo = some array) {p : SetValuePayload} (hp : p ∈ src) :
    ¬p.SetsAround array := by
  intro haround
  obtain ⟨s₁, hs₁⟩ := d.effect_last hsrc h hp haround.1
  have hlast := d.lengthAt_of_covers haround hs₁
  obtain ⟨before, q, after, rfl, hq, hafter⟩ := exists_last hto
  have hpto (a : List Segment) : ¬p.appendsTo = some a := by
    simp [SetValuePayload.appendsTo, haround.1]
  have hpq : p ∈ before ++ after := by
    rcases List.mem_append.mp hp with hp | hp
    · simp [hp]
    · rcases List.mem_cons.mp hp with rfl | hp
      · exact absurd hq (hpto array)
      · simp [hp]
  obtain ⟨left, right, hsplit⟩ := List.append_of_mem hpq
  have hperm : (left ++ right ++ [p, q]).Perm (before ++ q :: after) := by
    have hmove : (left ++ right ++ [p]).Perm (before ++ after) :=
      hsplit ▸ (List.perm_append_singleton p _).trans List.perm_middle.symm
    calc (left ++ right ++ [p, q]).Perm (left ++ right ++ [p] ++ [q]) := by simp
      List.Perm _ (before ++ after ++ [q]) := hmove.append_right [q]
      List.Perm _ (before ++ q :: after) :=
        (List.perm_append_singleton q _).trans List.perm_middle.symm
  obtain ⟨hroom, hreplay⟩ := d.replay_of_orderIndependent hsrc h hperm fun a => by
    have hrest : (left ++ right).filter (·.appendsTo = some a) =
        (before ++ after).filter (·.appendsTo = some a) := by
      simp [hsplit, List.filter_append, hpto a]
    rw [List.filter_append, hrest]
    by_cases ha : q.appendsTo = some a
    · obtain rfl : array = a := Option.some.inj (hq.symm.trans ha)
      have hnone : after.filter (·.appendsTo = some array) = [] :=
        List.filter_eq_nil_iff.mpr fun x hx => by simpa using hafter x hx
      simp [List.filter_append, hpto, ha, hnone]
    · simp [List.filter_append, hpto, ha]
  rw [replay_append] at hreplay
  obtain ⟨s₂, _, hend⟩ := Option.bind_eq_some_iff.mp hreplay
  obtain ⟨s₃, hs₃, hend⟩ := Option.bind_eq_some_iff.mp hend
  obtain ⟨s₄, hs₄, hnil⟩ := Option.bind_eq_some_iff.mp hend
  obtain rfl := Option.some.inj hnil
  obtain ⟨len, hlen, hmore⟩ := d.lengthAt_of_push hq hs₄
  rw [hlast, ← d.lengthAt_of_covers haround hs₃, hlen] at hmore
  exact absurd (Option.some.inj hmore) (by omega)

theorem compatible_of_orderIndependent {src : List SetValuePayload} {s s' : d.State}
    (hsrc : ∀ p ∈ src, Path.parse p.oid = .ok p.path ∧ d.ValidEntry authz p.path p.value)
    (h : d.OrderIndependent s src authz s') : ∀ p ∈ src, ∀ q ∈ src, d.Compatible p q := by
  intro p hp q hq hcov
  by_cases hqapp : Path.IsAppend q.path
  · have hto := SetValuePayload.appendsTo_eq_some.mpr ⟨hqapp, rfl⟩
    refine absurd ?_ (d.not_around_of_orderIndependent hsrc h ⟨q, hq, hto⟩ hp)
    exact Path.target_of_append hqapp ▸ hcov
  · obtain ⟨s₁, hs₁⟩ := d.effect_last hsrc h hp hcov.1
    obtain ⟨s₂, hs₂⟩ := d.effect_last hsrc h hq hqapp
    refine ⟨hqapp, fun r hr => ?_⟩
    have hpath : p.path ≠ [] := by
      obtain ⟨n, _, hn, _⟩ := d.nodeAt_of_zoom (d.effect_eq_some.mp hs₁)
      exact Path.target_of_not_append hcov.1 ▸ d.ne_nil_of_nodeAt hn
    rw [← d.nodeAt_of_set hcov.1 hs₁, ← d.nodeAt_of_set hqapp hs₂, hr,
      d.nodeAt_append s' _ _ hpath]

theorem not_around_of_compatible {src : List SetValuePayload}
    (h : ∀ p ∈ src, ∀ q ∈ src, d.Compatible p q) {array : List Segment}
    (hto : ∃ q ∈ src, q.appendsTo = some array) : ∀ p ∈ src, ¬p.SetsAround array := by
  intro p hp haround
  obtain ⟨q, hq, hqto⟩ := hto
  obtain ⟨happ, rfl⟩ := SetValuePayload.appendsTo_eq_some.mp hqto
  have hcov : p.SetsAround (Path.target q.path) := by rwa [Path.target_of_append happ]
  exact (h p hp q hq hcov).1 happ

theorem roomAlong_of_perm {src src' : List SetValuePayload} {s s' : d.State}
    (hcompat : ∀ p ∈ src, ∀ q ∈ src, d.Compatible p q) (hperm : src'.Perm src)
    (hkey : ∀ array,
      src'.filter (·.appendsTo = some array) = src.filter (·.appendsTo = some array))
    (hlength : ∀ p ∈ src, ∀ array, p.appendsTo = some array → ∃ len, d.lengthAt s array = some len)
    (hroom : d.RoomAlong src s) (hs : replay d.effect src s = some s')
    (hs' : replay d.effect src' s = some s') : d.RoomAlong src' s := by
  have hmem : ∀ p ∈ src', p ∈ src := fun p hp => hperm.mem_iff.mp hp
  refine (d.roomAlong_of_track (fun array => ∃ q ∈ src, q.appendsTo = some array)
    (fun array => (d.lengthAt s' array).getD 0) (fun p hp array hto => ⟨p, hmem p hp, hto⟩) ?_ hs').1
  intro array hto
  have hfree := d.not_around_of_compatible hcompat hto
  obtain ⟨q, hq, hqto⟩ := id hto
  obtain ⟨len, hlen⟩ := hlength q hq array hqto
  obtain ⟨len', htrack, hlen'⟩ := d.track_of_roomAlong hlen
    (fun p hp haround => absurd haround (hfree p hp)) hroom hs
  rw [d.track_of_not_around len hfree] at htrack
  rw [hlen, Option.bind_some, d.track_of_not_around len fun p hp => hfree p (hmem p hp),
    appendCount, hkey, ← appendCount, htrack, hlen', Option.getD_some]

theorem orderIndependent_of_compatible {src : List SetValuePayload} {s s' : d.State}
    (hsrc : ∀ p ∈ src, Path.parse p.oid = .ok p.path ∧ d.ValidEntry authz p.path p.value)
    (hread : ∀ p ∈ src, d.ReadableAlong authz (Path.target p.path))
    (hready : ∀ p ∈ src, d.Ready p s) (hroom : d.RoomAlong src s)
    (hs' : replay d.effect src s = some s') (h : ∀ p ∈ src, ∀ q ∈ src, d.Compatible p q) :
    d.OrderIndependent s src authz s' := by
  intro src' hperm hkey
  have hmem : ∀ p ∈ src', p ∈ src := fun p hp => hperm.mem_iff.mp hp
  have hall : d.entries.AllReady src s :=
    ⟨hready, fun p hp q hq => d.safe_of_compatible (h p hp q hq)⟩
  have hreplay : replay d.effect src' s = some s' := by
    rw [← hs']
    exact Operations.replay_perm SetValuePayload.appendsTo hperm hkey hall
      fun p hp q hq => d.commutes_of_compatible (h p hp q hq) (h q hq p hp)
  refine (d.commitLoop_returned_iff (fun p hp => (hsrc p (hmem p hp)).1)
    fun p hp => (hsrc p (hmem p hp)).2).mpr ⟨fun p hp => hread p (hmem p hp), ?_, hreplay⟩
  refine d.roomAlong_of_perm h hperm hkey (fun p hp array hto => ?_) hroom hs' hreplay
  obtain ⟨happ, rfl⟩ := SetValuePayload.appendsTo_eq_some.mp hto
  obtain ⟨e, pd, v, _, hn, _⟩ := d.vector_of_append happ (hready p hp)
  exact ⟨v.length, by simp only [lengthAt, hn, Option.bind_some]; rfl⟩

/-- An accepted multi-set whose commit succeeds at every step leaves the same store in every
order that keeps the order of appends to the same array, exactly if all pairs of entries that
overlap write the same and none sets a node around an array another one appends to. -/
theorem orderIndependent_iff_compatible (s s' : d.State) (src : List SetValuePayload)
    (authz : Authorizer) (ans : ExceptionWithStatus)
    (htry : d.tryMultiSetValue s src authz = .ok ans) (hok : ans.isOk = true)
    (hcommit : replay (d.commitEntry authz) src s = some s') :
    d.OrderIndependent s src authz s' ↔ ∀ p ∈ src, ∀ q ∈ src, d.Compatible p q := by
  have hacc := d.accepted_of_try htry hok
  obtain ⟨hvalid, hroom, hreplay⟩ := d.replay_of_commitEntry hacc hcommit
  have hsrc : ∀ p ∈ src, Path.parse p.oid = .ok p.path ∧ d.ValidEntry authz p.path p.value :=
    fun p hp => ⟨(hacc p hp).1, (hvalid p hp).1⟩
  have hready : ∀ p ∈ src, d.Ready p s := fun p hp =>
    (d.node_of_accepted (hacc p hp).2 (d.written_of_valid (hvalid p hp).1)).2
  exact ⟨d.compatible_of_orderIndependent hsrc, d.orderIndependent_of_compatible hsrc
    (fun p hp => (hvalid p hp).2) hready hroom hreplay⟩

theorem agrees_self (p : SetValuePayload) : d.Agrees p p := by
  intro r hr
  obtain rfl : r = [] := by simpa using hr
  cases d.written p <;> rfl

end Device

/-- A device with one INT32_ARRAY of at most two elements. -/
def levelDevice : Device where
  defaults := { defaultScope := "st2138:op" }
  params := .cons "level" { oid := "level", maxLength := 2 } (.vector .int32) .nil
  wellFormed := ⟨List.not_mem_nil, trivial, trivial⟩

theorem orderIndependent_iff_compatible_level :
    levelDevice.OrderIndependent (([7] : List Int32), ())
      [⟨"/level/0", .int32Value 5⟩, ⟨"/level/-", .int32Value 9⟩] .kAuthzDisabled
      (([5, 9] : List Int32), ()) := by
  have hparse : Path.parse "/level/0" = .ok [.name "level", .index 0] := rfl
  have hparse' : Path.parse "/level/-" = .ok [.name "level", .index Path.kEnd] := rfl
  have htry : levelDevice.tryMultiSetValue (([7] : List Int32), ())
      [⟨"/level/0", .int32Value 5⟩, ⟨"/level/-", .int32Value 9⟩] .kAuthzDisabled =
        .ok ⟨"OK", .ok⟩ := by
    simp only [Device.tryMultiSetValue, Device.tryLoop, hparse, hparse']
    rfl
  have hset : levelDevice.commitEntry .kAuthzDisabled ⟨"/level/0", .int32Value 5⟩
      (([7] : List Int32), ()) = some (([5] : List Int32), ()) := by
    simp only [Device.commitEntry, hparse]
    rfl
  have hpush : levelDevice.commitEntry .kAuthzDisabled ⟨"/level/-", .int32Value 9⟩
      (([5] : List Int32), ()) = some (([5, 9] : List Int32), ()) := by
    simp only [Device.commitEntry, hparse']
    rfl
  have hpath : SetValuePayload.path ⟨"/level/0", .int32Value 5⟩ = [.name "level", .index 0] := rfl
  have hpath' : SetValuePayload.path ⟨"/level/-", .int32Value 9⟩ =
    [.name "level", .index Path.kEnd] := rfl
  refine (levelDevice.orderIndependent_iff_compatible (([7] : List Int32), ())
    (([5, 9] : List Int32), ()) [⟨"/level/0", .int32Value 5⟩, ⟨"/level/-", .int32Value 9⟩]
    .kAuthzDisabled ⟨"OK", .ok⟩ htry rfl
    ((replay_cons_some hset _).trans (replay_cons_some hpush _))).mpr ?_
  intro p hp q hq hcov
  simp only [List.mem_cons, List.not_mem_nil, or_false] at hp hq
  obtain rfl | rfl := hp
  · obtain rfl | rfl := hq
    · exact ⟨hcov.1, levelDevice.agrees_self _⟩
    · simp only [Covers, SetValuePayload.SetsAround, hpath, hpath'] at hcov
      exact absurd hcov (by decide)
  · exact absurd (by rw [hpath']; decide) hcov.1

/-- One element under two spellings of its index. -/
theorem spellings_not_orderIndependent :
    (levelDevice.tryMultiSetValue (([7, 8] : List Int32), ())
      [⟨"/level/1", .int32Value 5⟩, ⟨"/level/01", .int32Value 6⟩] .kAuthzDisabled =
        .ok ⟨"OK", .ok⟩) ∧
    replay (levelDevice.commitEntry .kAuthzDisabled)
      [⟨"/level/1", .int32Value 5⟩, ⟨"/level/01", .int32Value 6⟩] (([7, 8] : List Int32), ()) =
        some (([7, 6] : List Int32), ()) ∧
    ¬levelDevice.OrderIndependent (([7, 8] : List Int32), ())
      [⟨"/level/1", .int32Value 5⟩, ⟨"/level/01", .int32Value 6⟩] .kAuthzDisabled
      (([7, 6] : List Int32), ()) := by
  have hparse : Path.parse "/level/1" = .ok [.name "level", .index 1] := rfl
  have hparse' : Path.parse "/level/01" = .ok [.name "level", .index 1] := rfl
  have htry : levelDevice.tryMultiSetValue (([7, 8] : List Int32), ())
      [⟨"/level/1", .int32Value 5⟩, ⟨"/level/01", .int32Value 6⟩] .kAuthzDisabled =
        .ok ⟨"OK", .ok⟩ := by
    simp only [Device.tryMultiSetValue, Device.tryLoop, hparse, hparse']
    rfl
  have hfirst : levelDevice.commitEntry .kAuthzDisabled ⟨"/level/1", .int32Value 5⟩
      (([7, 8] : List Int32), ()) = some (([7, 5] : List Int32), ()) := by
    simp only [Device.commitEntry, hparse]
    rfl
  have hsecond : levelDevice.commitEntry .kAuthzDisabled ⟨"/level/01", .int32Value 6⟩
      (([7, 5] : List Int32), ()) = some (([7, 6] : List Int32), ()) := by
    simp only [Device.commitEntry, hparse']
    rfl
  have hswapped : levelDevice.commitMultiSetValue (([7, 8] : List Int32), ())
      [⟨"/level/01", .int32Value 6⟩, ⟨"/level/1", .int32Value 5⟩] .kAuthzDisabled =
        .returned ⟨"", .ok⟩ (([7, 5] : List Int32), ()) := by
    simp only [Device.commitMultiSetValue, Device.commitLoop, hparse, hparse']
    rfl
  have hpath : SetValuePayload.path ⟨"/level/1", .int32Value 5⟩ = [.name "level", .index 1] := rfl
  have hpath' : SetValuePayload.path ⟨"/level/01", .int32Value 6⟩ = [.name "level", .index 1] := rfl
  have hsets : ¬Path.IsAppend [.name "level", .index 1] := by decide
  refine ⟨htry, (replay_cons_some hfirst _).trans (replay_cons_some hsecond _), fun h => ?_⟩
  obtain ⟨ans, hans⟩ := h [⟨"/level/01", .int32Value 6⟩, ⟨"/level/1", .int32Value 5⟩]
    (List.Perm.swap _ _ _) fun array => by
      simp [SetValuePayload.appendsTo, hpath, hpath', hsets]
  have hstore := congrArg Prod.fst (CallResult.returned.inj (hswapped.symm.trans hans)).2
  have hne : ([7, 5] : List Int32) ≠ [7, 6] := by decide
  exact hne hstore

end Catena.Store
