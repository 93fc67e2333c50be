import Catena.Store.Lengths

/-!
# A commit is a replay

The commit of valid entries that may be read replays their effects, as long as every entry
that appends finds room. What validation has established makes the entries ready for that.
-/

namespace Catena.Store

open Catena.Framework
open ExceptionWithStatus (ok)

namespace Device

variable (d : Device) {authz : Authorizer}

theorem commitLoop_cons_returned {payload : SetValuePayload} {payloads : List SetValuePayload}
    {ans ans' : ExceptionWithStatus} {s s' : d.State}
    (hparse : Path.parse payload.oid = .ok payload.path) :
    d.commitLoop authz (payload :: payloads) ans s = .returned ans' s' ↔
      d.ReadableAlong authz (Path.target payload.path) ∧ ∃ rc s₁,
        d.commitStep authz payload.path payload.value s = some (rc, s₁) ∧
          d.commitLoop authz payloads rc s₁ = .returned ans' s' := by
  have hstep := fun rc s₁ =>
    d.commitTarget_fromProto s s₁ payload.path authz payload.value rc
  simp only [commitLoop, hparse]
  cases ht : d.commitTarget s payload.path authz with
  | none =>
    simp only [reduceCtorEq, false_iff]
    rintro ⟨hread, rc, s₁, hs₁, _⟩
    have hsome := (hstep rc s₁).mpr ⟨hread, hs₁⟩
    rw [ht] at hsome
    cases hsome
  | some param =>
    constructor
    · intro h
      obtain ⟨hread, hs₁⟩ := (hstep _ _).mp (congrArg (Option.map _) ht)
      exact ⟨hread, _, _, hs₁, h⟩
    · rintro ⟨hread, rc, s₁, hs₁, h⟩
      have hsome := (hstep rc s₁).mpr ⟨hread, hs₁⟩
      rw [ht] at hsome
      have hwritten : param.fromProto authz payload.value = (rc, s₁) := Option.some.inj hsome
      simp only [hwritten]
      exact h

/-- The commit of valid entries. -/
theorem commitLoop_returned_iff {payloads : List SetValuePayload} {ans : ExceptionWithStatus}
    {s s' : d.State} (hparse : ∀ p ∈ payloads, Path.parse p.oid = .ok p.path)
    (hvalid : ∀ p ∈ payloads, d.ValidEntry authz p.path p.value) :
    (∃ ans', d.commitLoop authz payloads ans s = .returned ans' s') ↔
      (∀ p ∈ payloads, d.ReadableAlong authz (Path.target p.path)) ∧ d.RoomAlong payloads s ∧
        replay d.effect payloads s = some s' := by
  induction payloads generalizing ans s with
  | nil => simp [commitLoop, RoomAlong, replay]
  | cons p ps ih =>
    have hv := hvalid p (by simp)
    have ih' (ans s) := @ih ans s (fun q hq => hparse q (by simp [hq]))
      fun q hq => hvalid q (by simp [hq])
    simp only [d.commitLoop_cons_returned (hparse p (by simp))]
    constructor
    · rintro ⟨ans', hread, rc, s₁, hs₁, hloop⟩
      obtain ⟨_, hroom, happly⟩ := d.apply_of_commitStep hv hs₁
      have heffect : d.effect p s = some s₁ := Action.exec_eq_some.mpr happly
      obtain ⟨hreads, hrooms, hreplay⟩ := (ih' rc s₁).mp ⟨ans', hloop⟩
      refine ⟨List.forall_mem_cons.mpr ⟨hread, hreads⟩, ⟨hroom, fun s₂ hs₂ => ?_⟩, ?_⟩
      · obtain rfl := Option.some.inj (heffect.symm.trans hs₂)
        exact hrooms
      · exact (replay_cons_some heffect ps).trans hreplay
    · rintro ⟨hreads, ⟨hroom, hrooms⟩, hreplay⟩
      obtain ⟨s₁, heffect, hrest⟩ := Option.bind_eq_some_iff.mp hreplay
      obtain ⟨rc, _, hs₁⟩ := d.commitStep_of_apply hv hroom (Action.exec_eq_some.mp heffect)
      obtain ⟨ans', hloop⟩ := (ih' rc s₁).mpr
        ⟨fun q hq => hreads q (by simp [hq]), hrooms s₁ heffect, hrest⟩
      exact ⟨ans', hreads p (by simp), rc, s₁, hs₁, hloop⟩

theorem commitLoop_isOk {payloads : List SetValuePayload} {ans ans' : ExceptionWithStatus}
    {s s' : d.State} (hparse : ∀ p ∈ payloads, Path.parse p.oid = .ok p.path)
    (hvalid : ∀ p ∈ payloads, d.ValidEntry authz p.path p.value) (hans : ans.isOk = true)
    (h : d.commitLoop authz payloads ans s = .returned ans' s') : ans'.isOk = true := by
  induction payloads generalizing ans s with
  | nil =>
    obtain ⟨rfl, _⟩ := CallResult.returned.inj h
    exact hans
  | cons p ps ih =>
    obtain ⟨_, rc, s₁, hs₁, hloop⟩ := (d.commitLoop_cons_returned (hparse p (by simp))).mp h
    exact ih (fun q hq => hparse q (by simp [hq])) (fun q hq => hvalid q (by simp [hq]))
      (d.apply_of_commitStep (hvalid p (by simp)) hs₁).1 hloop

/-! What validation has established. -/

theorem written_of_valid {p : SetValuePayload} (h : d.ValidEntry authz p.path p.value) :
    (d.written p).isSome = true := by
  by_cases happ : Path.IsAppend p.path
  · simp only [ValidEntry, happ, if_true] at h
    obtain ⟨e, pd, hd, hvalid⟩ := h
    rw [d.written_push happ hd, denoteElem_eq_fromProto authz e pd p.value e.default hvalid]
    rfl
  · simp only [ValidEntry, happ, if_false] at h
    obtain ⟨t, pd, hd, hvalid⟩ := h
    rw [d.written_set happ hd, denote_eq_fromProto authz t pd p.value t.default hvalid]
    rfl

/-- An accepted entry that has a value for its node is valid, and its node is there. -/
theorem node_of_accepted {s : d.State} {p : SetValuePayload}
    (h : Accepted d s authz p.path p.value) (hsome : (d.written p).isSome = true) :
    d.ValidEntry authz p.path p.value ∧ d.Ready p s := by
  cases hacc : id h with
  | whole n hindex _ hnode =>
    have hnone : Path.backIndex p.path ≠ some Path.kNone := by simp [hindex]
    have happ : ¬Path.IsAppend p.path := by simp [Path.IsAppend, hindex]
    refine ⟨d.validEntry_of_accepted h hnone, hsome, n, ?_⟩
    rw [Path.target_of_not_append happ, hnode]
  | element i e pd v hindex hend hi _ hnode hlt =>
    have hnone : Path.backIndex p.path ≠ some Path.kNone := by simpa [hindex] using hi
    have happ : ¬Path.IsAppend p.path := by simpa [Path.IsAppend, hindex] using hend
    refine ⟨d.validEntry_of_accepted h hnone, hsome, ⟨.elem e, pd, v[i]⟩, ?_⟩
    rw [Path.target_of_not_append happ, Path.eq_popBack_append hindex,
      d.nodeAt_append _ _ _ (d.ne_nil_of_nodeAt hnode), hnode, Option.bind_some,
      Node.below_vector_index, List.getElem?_eq_getElem hlt]
    rfl
  | append e pd v hindex _ hnode =>
    have hnone : Path.backIndex p.path ≠ some Path.kNone := by
      simp [hindex, Path.kEnd_ne_kNone]
    refine ⟨d.validEntry_of_accepted h hnone, hsome, ⟨.vector e, pd, v⟩, ?_⟩
    rw [Path.target_of_append hindex, hnode]
  | noIndex n hindex _ hnode =>
    have happ : ¬Path.IsAppend p.path := by
      simpa [Path.IsAppend, hindex] using Path.kEnd_ne_kNone.symm
    obtain ⟨m, hm⟩ := Option.isSome_iff_exists.mp hsome
    simp only [written, newValue, happ, if_false] at hm
    obtain ⟨⟨t, pd⟩, hd, hx⟩ := Option.bind_eq_some_iff.mp hm
    obtain ⟨x, hx, _⟩ := Option.map_eq_some_iff.mp hx
    obtain ⟨type, subParams, rfl⟩ := d.empty_of_noIndex h hindex hd hx
    refine ⟨?_, hsome, ⟨.empty type subParams, pd, ()⟩, ?_⟩
    · simp only [ValidEntry, happ, if_false]
      exact ⟨_, pd, hd, rfl⟩
    · -- only an EMPTY node has an EMPTY node below it
      obtain ⟨t', pd', v'⟩ := n
      rw [d.descend_of_popBack hindex (d.descend_of_nodeAt hnode)] at hd
      rw [Path.target_of_not_append happ, Path.eq_popBack_append hindex,
        d.nodeAt_append _ _ _ (d.ne_nil_of_nodeAt hnode), hnode, Option.bind_some, Node.below_cons]
      cases t' with
      | elem e => cases e <;> cases hd
      | vector e => cases hd
      | empty type' subParams' =>
        obtain ⟨found, hfound, he⟩ := Option.map_eq_some_iff.mp hd
        obtain ⟨ht, rfl⟩ := Prod.mk.inj he
        obtain ⟨rfl, rfl⟩ := Ty.empty.inj ht
        simp only [focusChild, hfound, Option.map_some, Option.bind_some]
        rfl

end Device

end Catena.Store
