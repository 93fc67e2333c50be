import Mathlib.Data.List.Basic
import Mathlib.Data.List.Pairwise

/-!
# Values written back

A log is filled entry by entry. An entry with a value writes it into itself and into every
earlier entry with the same key. So in the end each entry carries the last value that is written
under its key from it on.
-/

namespace Catena.Framework

/-- Predicates of which one implies the other agree on a list if they hold equally often. -/
theorem of_countP_le {α : Type} {p q : α → Bool} {l : List α} (himp : ∀ a ∈ l, p a → q a)
    (hle : l.countP q ≤ l.countP p) : ∀ a ∈ l, q a → p a := by
  induction l with
  | nil => exact fun a ha => nomatch ha
  | cons b l ih =>
    have htail : ∀ a ∈ l, p a → q a := fun a ha => himp a (List.mem_cons_of_mem _ ha)
    have hmono : l.countP p ≤ l.countP q := List.countP_mono_left htail
    rw [List.countP_cons, List.countP_cons] at hle
    intro a ha hq
    by_cases hpb : p b = true
    · have hqb := himp b List.mem_cons_self hpb
      rw [if_pos hpb, if_pos hqb] at hle
      rcases List.mem_cons.mp ha with rfl | ha
      · exact hpb
      · exact ih htail (by omega) a ha hq
    · rw [if_neg hpb] at hle
      by_cases hqb : q b = true
      · rw [if_pos hqb] at hle
        omega
      · rcases List.mem_cons.mp ha with rfl | ha
        · exact absurd hq hqb
        · exact ih htail (by rw [if_neg hqb] at hle; omega) a ha hq

variable {α κ : Type} [DecidableEq κ] (key : α → κ) (value : α → Nat)

/-- The last value under a key, 0 if there is none. -/
def lastValue (k : κ) : List α → Nat
  | [] => 0
  | a :: as =>
      if lastValue k as ≠ 0 then lastValue k as else if key a = k then value a else 0

/-- Every entry with the last value under its key from it on. -/
def stamp : List α → List (α × Nat)
  | [] => []
  | a :: as => (a, lastValue key value (key a) (a :: as)) :: stamp as

variable {key value}

theorem lastValue_cons_of_ne {k : κ} {as : List α} (h : lastValue key value k as ≠ 0) (a : α) :
    lastValue key value k (a :: as) = lastValue key value k as := by
  rw [lastValue, if_pos h]

theorem lastValue_cons_of_eq {k : κ} {as : List α} (h : lastValue key value k as = 0) (a : α) :
    lastValue key value k (a :: as) = if key a = k then value a else 0 := by
  rw [lastValue, if_neg (by simp [h])]

theorem lastValue_cons_of_value_eq {a : α} (h : value a = 0) (k : κ) (as : List α) :
    lastValue key value k (a :: as) = lastValue key value k as := by
  by_cases hlast : lastValue key value k as = 0
  · rw [lastValue_cons_of_eq hlast, h, hlast, ite_self]
  · exact lastValue_cons_of_ne hlast a

theorem exists_of_lastValue_ne {k : κ} {as : List α} (h : lastValue key value k as ≠ 0) :
    ∃ a ∈ as, key a = k ∧ value a = lastValue key value k as := by
  induction as with
  | nil => exact absurd rfl h
  | cons a as ih =>
    by_cases hlast : lastValue key value k as = 0
    · rw [lastValue_cons_of_eq hlast] at h ⊢
      by_cases hkey : key a = k
      · exact ⟨a, List.mem_cons_self, hkey, (if_pos hkey).symm⟩
      · exact absurd (if_neg hkey) h
    · obtain ⟨b, hb, hkey, hvalue⟩ := ih hlast
      exact ⟨b, List.mem_cons_of_mem _ hb, hkey, by rw [hvalue, lastValue_cons_of_ne hlast]⟩

theorem map_fst_stamp (as : List α) : (stamp key value as).map Prod.fst = as := by
  induction as with
  | nil => rfl
  | cons a as ih => rw [stamp, List.map_cons, ih]

theorem mem_of_mem_stamp {as : List α} {x : α × Nat} (h : x ∈ stamp key value as) : x.1 ∈ as := by
  have hmem := List.mem_map_of_mem (f := Prod.fst) h
  rwa [map_fst_stamp] at hmem

theorem stamp_eq {as : List α} {x : α × Nat} (h : x ∈ stamp key value as) :
    x.2 = 0 ∨ x.2 = lastValue key value (key x.1) as := by
  induction as with
  | nil => cases h
  | cons a as ih =>
    rcases List.mem_cons.mp h with rfl | h
    · exact Or.inr rfl
    · rcases ih h with hzero | hlast
      · exact Or.inl hzero
      · by_cases hne : lastValue key value (key x.1) as = 0
        · exact Or.inl (hlast.trans hne)
        · exact Or.inr (hlast.trans (lastValue_cons_of_ne hne a).symm)

theorem stamp_ne_zero {as : List α} {x : α × Nat} (h : x ∈ stamp key value as)
    (hvalue : value x.1 ≠ 0) : x.2 ≠ 0 := by
  induction as with
  | nil => cases h
  | cons a as ih =>
    rcases List.mem_cons.mp h with rfl | h
    · by_cases hlast : lastValue key value (key a) as = 0
      · simpa [lastValue_cons_of_eq hlast] using hvalue
      · rwa [lastValue_cons_of_ne hlast]
    · exact ih h

/-- Every entry carries its own value exactly if no later entry writes another one into it. -/
theorem stamp_own_iff {as : List α} :
    (∀ x ∈ stamp key value as, x.2 = value x.1) ↔
      as.Pairwise fun a b => key a = key b → value b ≠ 0 → value a = value b := by
  induction as with
  | nil => exact ⟨fun _ => List.Pairwise.nil, fun _ x hx => nomatch hx⟩
  | cons a as ih =>
    rw [List.pairwise_cons, ← ih]
    constructor
    · intro h
      have htail : ∀ x ∈ stamp key value as, x.2 = value x.1 :=
        fun x hx => h x (List.mem_cons_of_mem _ hx)
      refine ⟨?_, htail⟩
      intro b hb hkey hvalue
      have hb' : b ∈ (stamp key value as).map Prod.fst := by rwa [map_fst_stamp]
      obtain ⟨x, hx, rfl⟩ := List.mem_map.mp hb'
      have hne := stamp_ne_zero hx hvalue
      have hlast := (stamp_eq hx).resolve_left hne
      have hhead : lastValue key value (key a) (a :: as) = value a := h _ List.mem_cons_self
      rw [hkey, lastValue_cons_of_ne (hlast ▸ hne), ← hlast, htail x hx] at hhead
      exact hhead.symm
    · rintro ⟨hhead, htail⟩ x hx
      rcases List.mem_cons.mp hx with rfl | hx
      · by_cases hlast : lastValue key value (key a) as = 0
        · rw [lastValue_cons_of_eq hlast, if_pos rfl]
        · obtain ⟨b, hb, hkey, hvalue⟩ := exists_of_lastValue_ne hlast
          rw [lastValue_cons_of_ne hlast, ← hvalue]
          exact (hhead b hb hkey.symm (hvalue ▸ hlast)).symm
      · exact htail x hx

theorem lastValue_filter {keep : α → Bool} {as : List α}
    (h : ∀ a ∈ as, value a ≠ 0 → keep a = true) (k : κ) :
    lastValue key value k (as.filter keep) = lastValue key value k as := by
  induction as with
  | nil => rfl
  | cons a as ih =>
    have htail := ih fun b hb => h b (List.mem_cons_of_mem _ hb)
    by_cases hkeep : keep a = true
    · rw [List.filter_cons_of_pos hkeep, lastValue, lastValue, htail]
    · have hvalue : value a = 0 := by
        by_contra hne
        exact hkeep (h a List.mem_cons_self hne)
      rw [List.filter_cons_of_neg hkeep, htail, lastValue_cons_of_value_eq hvalue]

theorem stamp_filter {keep : α → Bool} {as : List α}
    (h : ∀ a ∈ as, value a ≠ 0 → keep a = true) :
    stamp key value (as.filter keep) = (stamp key value as).filter fun x => keep x.1 := by
  induction as with
  | nil => rfl
  | cons a as ih =>
    have htail := ih fun b hb => h b (List.mem_cons_of_mem _ hb)
    rw [stamp]
    by_cases hkeep : keep a = true
    · have hall : lastValue key value (key a) ((a :: as).filter keep) =
          lastValue key value (key a) (a :: as) := lastValue_filter h (key a)
      rw [List.filter_cons_of_pos hkeep] at hall
      rw [List.filter_cons_of_pos hkeep, stamp, htail, hall, List.filter_cons, if_pos hkeep]
    · rw [List.filter_cons_of_neg hkeep, htail, List.filter_cons, if_neg hkeep]

/-- If the entries with what they carry are, in some order, the entries with their own values,
then each entry carries its own value. -/
theorem own_of_perm {β : Type} {info : α → β} {infoKey : β → κ} {as : List α}
    (hkey : ∀ a, infoKey (info a) = key a)
    (hperm : ((stamp key value as).map fun x => (info x.1, x.2)).Perm
      (as.map fun a => (info a, value a))) :
    ∀ x ∈ stamp key value as, x.2 = value x.1 := by
  have hown : as.map (fun a => (info a, value a)) =
      (stamp key value as).map fun x => (info x.1, value x.1) := by
    have hfst : (stamp key value as).map Prod.fst = as := map_fst_stamp as
    rw [← congrArg (List.map fun a => (info a, value a)) hfst, List.map_map]
    rfl
  rw [hown] at hperm
  -- every value is the last one under its key
  have hvalue : ∀ x ∈ stamp key value as, value x.1 ≠ 0 →
      value x.1 = lastValue key value (key x.1) as := by
    intro x hx hne
    have hmem := hperm.mem_iff.mpr (List.mem_map_of_mem
      (f := fun x => (info x.1, value x.1)) hx)
    obtain ⟨y, hy, heq⟩ := List.mem_map.mp hmem
    obtain ⟨hinfo, hlast⟩ := Prod.mk.inj heq
    have hsame : key y.1 = key x.1 := by rw [← hkey, ← hkey, hinfo]
    rw [← hlast] at hne ⊢
    rw [(stamp_eq hy).resolve_left hne, hsame]
  intro x hx
  by_cases hzero : x.2 = 0
  · by_contra hne
    exact stamp_ne_zero hx (fun h => hne (hzero.trans h.symm)) hzero
  · -- as many entries carry a value under the key as have one
    have hcount := hperm.countP_eq fun r => decide (infoKey r.1 = key x.1 ∧ r.2 ≠ 0)
    rw [List.countP_map, List.countP_map] at hcount
    have hne := of_countP_le
      (p := fun y : α × Nat => decide (infoKey (info y.1) = key x.1 ∧ value y.1 ≠ 0))
      (q := fun y : α × Nat => decide (infoKey (info y.1) = key x.1 ∧ y.2 ≠ 0)) ?_
      (Nat.le_of_eq hcount) x hx (by simp [hkey, hzero])
    · rw [decide_eq_true_eq] at hne
      rw [(stamp_eq hx).resolve_left hzero, hvalue x hx hne.2]
    · intro y hy hp
      rw [decide_eq_true_eq] at hp ⊢
      exact ⟨hp.1, stamp_ne_zero hy hp.2⟩

end Catena.Framework
