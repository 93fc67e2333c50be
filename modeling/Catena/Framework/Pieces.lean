import Mathlib.Data.List.Infix

/-!
# Pieces between occurrences

A list is cut at the occurrences of a sequence, each time at the first one behind the last cut,
so that no two of them overlap. The pieces are determined by the list, none of them holds the
sequence, and with the sequence between them they give the list back. Another sequence between
the pieces is what a substitution makes of the list.
-/

namespace Catena.Framework

variable {α : Type}

/-- The first occurrence of `seq` stands between `before` and `after`. -/
structure FirstOccurrence (seq text before after : List α) : Prop where
  eq : text = before ++ seq ++ after
  first : ∀ a b, text = a ++ seq ++ b → before.length ≤ a.length

/-- The maximal pieces between the occurrences of `seq` from left to right. -/
inductive Pieces (seq : List α) : List α → List (List α) → Prop
  | last {text : List α} (h : ¬seq <:+: text) : Pieces seq text [text]
  | cut {text before after : List α} {ps : List (List α)}
      (h : FirstOccurrence seq text before after) (hafter : Pieces seq after ps) :
      Pieces seq text (before :: ps)

variable {seq rep text out before after : List α} {ps qs : List (List α)}

namespace FirstOccurrence

theorem here : FirstOccurrence seq (seq ++ after) [] after :=
  ⟨rfl, fun a _ _ => Nat.zero_le a.length⟩

theorem skip {c : α} (hc : ¬seq <+: c :: text) (h : FirstOccurrence seq text before after) :
    FirstOccurrence seq (c :: text) (c :: before) after := by
  refine ⟨by rw [h.eq]; rfl, fun a b hab => ?_⟩
  cases a with
  | nil => exact absurd ⟨b, hab.symm⟩ hc
  | cons x a =>
    have htext : text = a ++ seq ++ b := (List.cons.inj hab).2
    exact Nat.succ_le_succ (h.first a b htext)

theorem isInfix (h : FirstOccurrence seq text before after) : seq <:+: text := by
  rw [h.eq]
  exact List.infix_append before seq after

theorem unique {before' after' : List α} (h : FirstOccurrence seq text before after)
    (h' : FirstOccurrence seq text before' after') : before = before' ∧ after = after' := by
  have hlength : before.length = before'.length :=
    Nat.le_antisymm (h.first _ _ h'.eq) (h'.first _ _ h.eq)
  have heq : before ++ (seq ++ after) = before' ++ (seq ++ after') := by
    rw [← List.append_assoc, ← List.append_assoc, ← h.eq, ← h'.eq]
  obtain ⟨hbefore, hrest⟩ := List.append_inj heq hlength
  exact ⟨hbefore, List.append_cancel_left hrest⟩

/-- The sequence does not occur in what comes before its first occurrence. -/
theorem not_isInfix (hseq : seq ≠ []) (h : FirstOccurrence seq text before after) :
    ¬seq <:+: before := by
  rintro ⟨a, b, hab⟩
  have htext : text = a ++ seq ++ (b ++ seq ++ after) := by
    rw [h.eq, ← hab]
    simp only [List.append_assoc]
  have hle := h.first _ _ htext
  have hpos := List.length_pos_iff.mpr hseq
  rw [← hab, List.length_append, List.length_append] at hle
  omega

end FirstOccurrence

namespace Pieces

theorem nil (hseq : seq ≠ []) : Pieces seq [] [[]] :=
  .last fun h => hseq (List.infix_nil.mp h)

theorem here (h : Pieces seq after ps) : Pieces seq (seq ++ after) ([] :: ps) := .cut .here h

theorem skip {c : α} {p : List α} (hc : ¬seq <+: c :: text) (h : Pieces seq text (p :: ps)) :
    Pieces seq (c :: text) ((c :: p) :: ps) := by
  cases h with
  | last h => exact .last fun hinfix => (List.infix_cons_iff.mp hinfix).elim hc h
  | cut h hafter => exact .cut (h.skip hc) hafter

theorem exists_cons (h : Pieces seq text ps) : ∃ p qs, ps = p :: qs := by
  cases h with
  | last => exact ⟨_, _, rfl⟩
  | cut => exact ⟨_, _, rfl⟩

theorem ne_nil (h : Pieces seq text ps) : ps ≠ [] := by
  obtain ⟨p, qs, rfl⟩ := h.exists_cons
  exact List.cons_ne_nil p qs

theorem exists_pieces (hseq : seq ≠ []) (text : List α) : ∃ ps, Pieces seq text ps := by
  induction hn : text.length using Nat.strongRecOn generalizing text with
  | _ n ih =>
    cases text with
    | nil => exact ⟨_, nil hseq⟩
    | cons c text =>
      rw [List.length_cons] at hn
      by_cases hc : seq <+: c :: text
      · obtain ⟨after, hafter⟩ := hc
        have hlength := congrArg List.length hafter
        have hpos := List.length_pos_iff.mpr hseq
        rw [List.length_append, List.length_cons] at hlength
        obtain ⟨ps, hps⟩ := ih after.length (by omega) after rfl
        exact ⟨_, hafter ▸ hps.here⟩
      · obtain ⟨ps, hps⟩ := ih text.length (by omega) text rfl
        obtain ⟨p, qs, rfl⟩ := hps.exists_cons
        exact ⟨_, hps.skip hc⟩

theorem unique (h : Pieces seq text ps) (h' : Pieces seq text qs) : ps = qs := by
  induction h generalizing qs with
  | last h =>
    cases h' with
    | last => rfl
    | cut h' => exact absurd h'.isInfix h
  | cut h _ ih =>
    cases h' with
    | last h' => exact absurd h.isInfix h'
    | cut h' hafter' =>
      obtain ⟨rfl, rfl⟩ := h.unique h'
      rw [ih hafter']

theorem join (h : Pieces seq text ps) : seq.intercalate ps = text := by
  induction h with
  | last => exact List.intercalate_singleton
  | cut h hafter ih => rw [List.intercalate_cons_of_ne_nil hafter.ne_nil, ih, h.eq]

theorem not_isInfix (hseq : seq ≠ []) (h : Pieces seq text ps) : ∀ p ∈ ps, ¬seq <:+: p := by
  induction h with
  | last h =>
    intro p hp
    rw [List.mem_singleton.mp hp]
    exact h
  | cut h _ ih =>
    intro p hp
    rcases List.mem_cons.mp hp with rfl | hp
    · exact h.not_isInfix hseq
    · exact ih p hp

end Pieces

/-- `out` is `text` with `rep` in the place of each of its `n` occurrences of `seq`. -/
def Substitutes (seq rep : List α) (n : Nat) (text out : List α) : Prop :=
  ∃ ps, Pieces seq text ps ∧ ps.length = n + 1 ∧ rep.intercalate ps = out

namespace Substitutes

theorem nil (hseq : seq ≠ []) : Substitutes seq rep 0 [] [] :=
  ⟨_, .nil hseq, rfl, List.intercalate_singleton⟩

theorem skip {c : α} {n : Nat} (hc : ¬seq <+: c :: text) (h : Substitutes seq rep n text out) :
    Substitutes seq rep n (c :: text) (c :: out) := by
  obtain ⟨ps, hps, hlength, rfl⟩ := h
  obtain ⟨p, qs, rfl⟩ := hps.exists_cons
  exact ⟨_, hps.skip hc, hlength, List.intercalate_cons_cons_left⟩

theorem here {n : Nat} (h : Substitutes seq rep n text out) :
    Substitutes seq rep (n + 1) (seq ++ text) (rep ++ out) := by
  obtain ⟨ps, hps, hlength, rfl⟩ := h
  refine ⟨_, hps.here, congrArg (· + 1) hlength, ?_⟩
  rw [List.intercalate_cons_of_ne_nil hps.ne_nil, List.nil_append]

theorem flatMap [DecidableEq α] (c : α) (rep text : List α) :
    Substitutes [c] rep (text.count c) text (text.flatMap fun x => if x = c then rep else [x]) := by
  induction text with
  | nil => exact .nil (List.cons_ne_nil c [])
  | cons x text ih =>
    rw [List.flatMap_cons]
    by_cases hx : x = c
    · subst hx
      rw [if_pos rfl, List.count_cons_self]
      exact ih.here
    · have hskip : ¬[c] <+: x :: text := fun h => hx (List.cons_prefix_cons.mp h).1.symm
      rw [if_neg hx, List.count_cons_of_ne hx]
      exact ih.skip hskip

end Substitutes

theorem intercalate_append (hps : ps ≠ []) (hqs : qs ≠ []) :
    seq.intercalate (ps ++ qs) = seq.intercalate ps ++ seq ++ seq.intercalate qs := by
  induction ps with
  | nil => exact absurd rfl hps
  | cons p ps ih =>
    cases ps with
    | nil => rw [List.singleton_append, List.intercalate_cons_of_ne_nil hqs,
        List.intercalate_singleton]
    | cons p' ps =>
      have hne : p' :: ps ≠ [] := List.cons_ne_nil p' ps
      have happend : p' :: ps ++ qs ≠ [] := List.append_ne_nil_of_left_ne_nil hne qs
      rw [List.cons_append, List.intercalate_cons_of_ne_nil happend, ih hne,
        List.intercalate_cons_of_ne_nil hne]
      simp only [List.append_assoc]

theorem countP_intercalate {p : α → Bool} (h : seq.countP p = rep.countP p)
    (ps : List (List α)) : (seq.intercalate ps).countP p = (rep.intercalate ps).countP p := by
  induction ps with
  | nil => rfl
  | cons q ps ih =>
    cases ps with
    | nil => rw [List.intercalate_singleton, List.intercalate_singleton]
    | cons q' ps =>
      rw [List.intercalate_cons_cons, List.intercalate_cons_cons, List.countP_append,
        List.countP_append, List.countP_append, List.countP_append, h, ih]

end Catena.Framework
