import Catena.Framework.Pieces
import Catena.Store.PathGrammar

/-!
# Substitution and splitting

`catena::subs` and `catena::split` run the same loop: they find the next occurrence, write what
comes before it and go on behind it, a thousand times at most. While they have turns left they
cut the text into its pieces. What they write last starts where the last turn began, so when the
turns are used up the last piece is written again with all that follows it.
-/

namespace Catena.Common

open Catena.Framework Catena.Store.Path

/-- The loop of `catena::split`, with the turns that are left, the text from `prev` on and the
text from `pos` on. -/
def splitFrom (delim : List Char) : Nat → List Char → List Char → List (List Char)
  | 0, prev, _ => [prev]
  | turns + 1, _, pos =>
      match findSeq delim pos with
      | none => [pos]
      | some (before, after) => before :: splitFrom delim turns pos after

/-- `catena::split`. -/
def split (str delim : List Char) : List (List Char) :=
  if delim = [] then [str] else splitFrom delim 1000 str str

variable {seq text before after : List Char} {ps : List (List Char)}

/-! ## `std::string::find` -/

theorem findSeq_eq_some (h : findSeq seq text = some (before, after)) :
    FirstOccurrence seq text before after := by
  induction text generalizing before after with
  | nil =>
    rw [findSeq] at h
    obtain ⟨rfl, hnil⟩ := Option.ite_none_right_eq_some.mp h
    obtain ⟨rfl, rfl⟩ := Prod.mk.inj (Option.some.inj hnil)
    exact .here
  | cons c text ih =>
    rw [findSeq] at h
    by_cases hstart : seq.isPrefixOf (c :: text) = true
    · rw [if_pos hstart] at h
      obtain ⟨rfl, rfl⟩ := Prod.mk.inj (Option.some.inj h)
      obtain ⟨rest, hrest⟩ := List.isPrefixOf_iff_prefix.mp hstart
      rw [← hrest, List.drop_left]
      exact .here
    · rw [if_neg hstart] at h
      obtain ⟨⟨first, rest⟩, hfound, hpair⟩ := Option.map_eq_some_iff.mp h
      obtain ⟨rfl, rfl⟩ := Prod.mk.inj hpair
      exact (ih hfound).skip fun hp => hstart (List.isPrefixOf_iff_prefix.mpr hp)

theorem findSeq_eq_none (h : findSeq seq text = none) : ¬seq <:+: text := by
  induction text with
  | nil =>
    rw [findSeq, ite_eq_right_iff] at h
    exact fun hinfix => Option.some_ne_none _ (h (List.infix_nil.mp hinfix))
  | cons c text ih =>
    rw [findSeq] at h
    by_cases hstart : seq.isPrefixOf (c :: text) = true
    · rw [if_pos hstart] at h
      cases h
    · rw [if_neg hstart, Option.map_eq_none_iff] at h
      intro hinfix
      rcases List.infix_cons_iff.mp hinfix with hp | hinfix
      · exact hstart (List.isPrefixOf_iff_prefix.mpr hp)
      · exact ih h hinfix

theorem findSeq_of_first (h : FirstOccurrence seq text before after) :
    findSeq seq text = some (before, after) := by
  cases hfind : findSeq seq text with
  | none => exact absurd h.isInfix (findSeq_eq_none hfind)
  | some found =>
    obtain ⟨hbefore, hafter⟩ := (findSeq_eq_some hfind).unique h
    rw [← hbefore, ← hafter]

theorem findSeq_of_not_isInfix (h : ¬seq <:+: text) : findSeq seq text = none := by
  cases hfind : findSeq seq text with
  | none => rfl
  | some found => exact absurd (findSeq_eq_some hfind).isInfix h

/-! ## The loop -/

theorem splitFrom_ne_nil (delim : List Char) (turns : Nat) (prev pos : List Char) :
    splitFrom delim turns prev pos ≠ [] := by
  cases turns with
  | zero => exact List.cons_ne_nil _ _
  | succ turns =>
    rw [splitFrom]
    cases findSeq delim pos <;> exact List.cons_ne_nil _ _

theorem subsFrom_eq_join (seq rep : List Char) (turns : Nat) (prev pos : List Char) :
    subsFrom seq rep turns prev pos = rep.intercalate (splitFrom seq turns prev pos) := by
  induction turns generalizing prev pos with
  | zero => exact List.intercalate_singleton.symm
  | succ turns ih =>
    rw [subsFrom, splitFrom]
    cases findSeq seq pos with
    | none => exact List.intercalate_singleton.symm
    | some found =>
      rw [List.intercalate_cons_of_ne_nil (splitFrom_ne_nil _ _ _ _), ← ih]

theorem subs_eq_join (str seq rep : List Char) :
    subs str seq rep = rep.intercalate (split str seq) := by
  rw [subs, split]
  by_cases hseq : seq = []
  · rw [if_pos hseq, if_pos hseq, List.intercalate_singleton]
  · rw [if_neg hseq, if_neg hseq, subsFrom_eq_join]

theorem splitFrom_of_le (h : Pieces seq text ps) {turns : Nat} (hturns : ps.length ≤ turns)
    (prev : List Char) : splitFrom seq turns prev text = ps := by
  induction h generalizing turns prev with
  | last h =>
    cases turns with
    | zero => cases hturns
    | succ turns => rw [splitFrom, findSeq_of_not_isInfix h]
  | cut h _ ih =>
    cases turns with
    | zero => cases hturns
    | succ turns =>
      rw [splitFrom, findSeq_of_first h]
      exact congrArg _ (ih (Nat.le_of_succ_le_succ hturns) _)

/-- When the turns are used up the last piece is taken again, with all that follows it. -/
theorem splitFrom_of_lt (h : Pieces seq text ps) {turns : Nat} (hturns : turns + 1 < ps.length)
    (prev : List Char) : splitFrom seq (turns + 1) prev text =
      ps.take (turns + 1) ++ [seq.intercalate (ps.drop turns)] := by
  induction h generalizing turns prev with
  | last h =>
    rw [List.length_singleton] at hturns
    omega
  | cut h hafter ih =>
    rw [splitFrom, findSeq_of_first h]
    cases turns with
    | zero =>
      rw [List.drop_zero, (Pieces.cut h hafter).join]
      rfl
    | succ turns => exact congrArg _ (ih (Nat.lt_of_succ_lt_succ hturns) _)

theorem split_of_le (hseq : seq ≠ []) (h : Pieces seq text ps) (hfew : ps.length ≤ 1000) :
    split text seq = ps := by
  rw [split, if_neg hseq, splitFrom_of_le h hfew]

theorem split_of_lt (hseq : seq ≠ []) (h : Pieces seq text ps) (hmany : 1000 < ps.length) :
    split text seq = ps.take 1000 ++ [seq.intercalate (ps.drop 999)] := by
  rw [split, if_neg hseq, splitFrom_of_lt h hmany]

theorem take_split (hseq : seq ≠ []) (h : Pieces seq text ps) :
    (split text seq).take 1000 = ps.take 1000 := by
  by_cases hfew : ps.length ≤ 1000
  · rw [split_of_le hseq h hfew]
  · have hmany : 1000 < ps.length := by omega
    have hlength : (ps.take 1000).length = 1000 := List.length_take_of_le (Nat.le_of_lt hmany)
    rw [split_of_lt hseq h hmany, List.take_left' hlength]

/-! ## Substitution and splitting -/

/-- A substitution is a splitting with the replacement between the parts. Up to a thousand parts
are the pieces between the occurrences; when these are all the pieces, the parts are what the
text is made of and every occurrence is replaced. -/
theorem split_subs_pieces (s : List Char) {d : List Char} (hd : d ≠ []) (rep : List Char) :
    ∃ ps, (∀ qs, Pieces d s qs ↔ qs = ps) ∧
      subs s d rep = rep.intercalate (split s d) ∧
      (split s d).take 1000 = ps.take 1000 ∧
      (ps.length ≤ 1000 →
        split s d = ps ∧ d.intercalate (split s d) = s ∧ subs s d rep = rep.intercalate ps) := by
  obtain ⟨ps, hps⟩ := Pieces.exists_pieces hd s
  refine ⟨ps, fun qs => ⟨fun hqs => hqs.unique hps, fun hqs => hqs ▸ hps⟩, subs_eq_join s d rep,
    take_split hd hps, fun hfew => ?_⟩
  have hsplit := split_of_le hd hps hfew
  refine ⟨hsplit, ?_, ?_⟩
  · rw [hsplit, hps.join]
  · rw [subs_eq_join, hsplit]

theorem split_subs_pieces_comma :
    ∃ ps, (∀ qs, Pieces [','] "a,b".toList qs ↔ qs = ps) ∧
      subs "a,b".toList [','] [';'] = [';'].intercalate (split "a,b".toList [',']) ∧
      (split "a,b".toList [',']).take 1000 = ps.take 1000 ∧
      (ps.length ≤ 1000 → split "a,b".toList [','] = ps ∧
        [','].intercalate (split "a,b".toList [',']) = "a,b".toList ∧
        subs "a,b".toList [','] [';'] = [';'].intercalate ps) :=
  split_subs_pieces "a,b".toList (List.cons_ne_nil _ _) [';']

example : split "comma,seperated,values".toList [','] =
    ["comma".toList, "seperated".toList, "values".toList] := rfl

theorem pieces_replicate (c : Char) (n : Nat) :
    Pieces [c] (List.replicate n c) (List.replicate (n + 1) []) := by
  induction n with
  | zero => exact .nil (List.cons_ne_nil c [])
  | succ n ih => exact ih.here

/-- The text of 1001 commas has 1002 pieces. After a thousand turns some commas are left in the
last part, and a substitution leaves them as they are. -/
theorem split_times_out :
    ¬Pieces [','] (List.replicate 1001 ',') (split (List.replicate 1001 ',') [',']) ∧
    ',' ∈ subs (List.replicate 1001 ',') [','] [';'] := by
  have hpieces := pieces_replicate ',' 1001
  have hsplit : split (List.replicate 1001 ',') [','] =
      List.replicate 1000 [] ++ [[',', ',']] := by
    rw [split_of_lt (List.cons_ne_nil _ _) hpieces (by rw [List.length_replicate]; decide),
      List.take_replicate, List.drop_replicate]
    rfl
  constructor
  · intro h
    have hlength := congrArg List.length (h.unique hpieces)
    rw [hsplit, List.length_append, List.length_replicate, List.length_replicate] at hlength
    cases hlength
  · have hparts : List.replicate 1000 ([] : List Char) ≠ [] := by
      rw [List.replicate_succ]
      exact List.cons_ne_nil _ _
    rw [subs_eq_join, hsplit, intercalate_append hparts (List.cons_ne_nil _ _),
      List.intercalate_singleton]
    exact List.mem_append_right _ List.mem_cons_self

end Catena.Common
