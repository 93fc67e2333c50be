import Catena.Common.Substitution

/-!
# Escapes of json pointers

`Path::escape_` writes `~0` for a tilde and then `~1` for a solidus. `Path::unescape_` undoes the
two substitutions in the same order, so that a tilde it has just restored can be taken for the
start of `~1`: the round trip makes a solidus of every `~1` in a text. A substitution that runs
out of turns only adds to a text.
-/

namespace Catena.Common

open Catena.Framework Catena.Store.Path

/-- `Path::escape_`. -/
def escape_ (str : List Char) : List Char := subs (subs str ['~'] ['~', '0']) ['/'] ['~', '1']

def roundTrip : List Char → List Char
  | '~' :: '1' :: text => '/' :: roundTrip text
  | c :: text => c :: roundTrip text
  | [] => []

def escapeTildes (text : List Char) : List Char :=
  text.flatMap fun x => if x = '~' then ['~', '0'] else [x]

def escapeSolidi (text : List Char) : List Char :=
  text.flatMap fun x => if x = '/' then ['~', '1'] else [x]

variable {seq rep text out : List Char} {n : Nat}

/-! ## Substitutions -/

theorem subs_of_few (hseq : seq ≠ []) (h : Substitutes seq rep n text out) (hn : n < 1000) :
    subs text seq rep = out := by
  obtain ⟨ps, hps, hlength, rfl⟩ := h
  rw [subs_eq_join, split_of_le hseq hps (by omega)]

section Counts

variable {p : Char → Bool} {ps : List (List Char)}

theorem ne_nil_of_countP (hseq : seq.countP p = 1) : seq ≠ [] := by
  rintro rfl
  cases hseq

variable (hseq : seq.countP p = 1) (hrep : rep.countP p = 1)
include hseq hrep

/-- While there are turns left a substitution keeps the number of characters with a property
that exactly one character of the sequence and one of the replacement has. -/
theorem countP_subs_of_le (h : Pieces seq text ps) (hfew : ps.length ≤ 1000) :
    (subs text seq rep).countP p = text.countP p := by
  rw [subs_eq_join, split_of_le (ne_nil_of_countP hseq) h hfew,
    ← countP_intercalate (hseq.trans hrep.symm), h.join]

/-- When it runs out of turns it writes one occurrence twice. -/
theorem countP_lt_subs (h : Pieces seq text ps) (hmany : 1000 < ps.length) :
    text.countP p < (subs text seq rep).countP p := by
  have htake : ps.take 1000 ≠ [] := by
    apply List.ne_nil_of_length_pos
    rw [List.length_take_of_le (Nat.le_of_lt hmany)]
    decide
  have hdrop : ps.drop 1000 ≠ [] := by
    apply List.ne_nil_of_length_pos
    rw [List.length_drop]
    omega
  have htext : text.countP p = (seq.intercalate (ps.take 1000)).countP p + seq.countP p +
      (seq.intercalate (ps.drop 1000)).countP p := by
    conv_lhs => rw [← h.join, ← List.take_append_drop 1000 ps, intercalate_append htake hdrop]
    rw [List.countP_append, List.countP_append]
  have hlast : (seq.intercalate (ps.drop 999)).countP p = (ps[999].countP p + seq.countP p) +
      (seq.intercalate (ps.drop 1000)).countP p := by
    rw [List.drop_eq_getElem_cons (by omega), List.intercalate_cons_of_ne_nil hdrop,
      List.countP_append, List.countP_append]
  rw [subs_eq_join, split_of_lt (ne_nil_of_countP hseq) h hmany,
    ← countP_intercalate (hseq.trans hrep.symm),
    intercalate_append htake (List.cons_ne_nil _ _), List.intercalate_singleton,
    List.countP_append, List.countP_append, hlast, htext]
  omega

theorem countP_le_of_subs (h : subs text seq rep = out) : text.countP p ≤ out.countP p := by
  subst h
  obtain ⟨ps, hps⟩ := Pieces.exists_pieces (ne_nil_of_countP hseq) text
  by_cases hmany : 1000 < ps.length
  · exact Nat.le_of_lt (countP_lt_subs hseq hrep hps hmany)
  · exact Nat.le_of_eq (countP_subs_of_le hseq hrep hps (by omega)).symm

theorem few_of_countP_le {out' : List Char} (h : subs text seq rep = out)
    (hsubst : Substitutes seq rep n text out') (hle : out.countP p ≤ text.countP p) :
    n < 1000 ∧ out = out' := by
  have hfew : n < 1000 := by
    obtain ⟨ps, hps, hlength, -⟩ := hsubst
    by_contra hmany
    have hlt := countP_lt_subs hseq hrep hps (by omega)
    rw [h] at hlt
    omega
  exact ⟨hfew, h.symm.trans (subs_of_few (ne_nil_of_countP hseq) hsubst hfew)⟩

end Counts

/-! ## Escaped texts -/

theorem mem_subsFrom {x c : Char} (hne : x ≠ c) (turns : Nat) {prev pos : List Char}
    (hprev : x ∈ prev) (hpos : x ∈ pos) : x ∈ subsFrom [c] rep turns prev pos := by
  induction turns generalizing prev pos with
  | zero => exact hprev
  | succ turns ih =>
    rw [subsFrom]
    split
    · exact hpos
    · rename_i before after hfind
      have htext := (findSeq_eq_some hfind).1
      have hmem := hpos
      rw [htext, List.append_assoc, List.mem_append, List.singleton_append, List.mem_cons] at hmem
      rcases hmem with hbefore | hx | hafter
      · simp [hbefore]
      · exact absurd hx hne
      · exact List.mem_append_right _ (ih hpos hafter)

theorem mem_subs_of_ne {x c : Char} (hne : x ≠ c) (h : x ∈ text) : x ∈ subs text [c] rep := by
  rw [subs, if_neg (List.cons_ne_nil _ _)]
  exact mem_subsFrom hne 1000 h h

theorem mem_subs_of_mem {x c : Char} (hrep : x ∈ rep) (h : c ∈ text) :
    x ∈ subs text [c] rep := by
  rw [subs, if_neg (List.cons_ne_nil _ _), subsFrom]
  split
  · rename_i hfind
    obtain ⟨a, b, rfl⟩ := List.append_of_mem h
    exact absurd ⟨a, b, by simp⟩ (findSeq_eq_none hfind)
  · simp [hrep]

theorem escape_of_plain (htilde : '~' ∉ text) (hsolidus : '/' ∉ text) : escape_ text = text := by
  rw [escape_, subs_of_not_mem htilde, subs_of_not_mem hsolidus]

theorem tilde_mem_escape (h : '~' ∈ text ∨ '/' ∈ text) : '~' ∈ escape_ text := by
  have hrep : '~' ∈ ['~', '1'] := List.mem_cons_self
  rcases h with htilde | hsolidus
  · exact mem_subs_of_ne (by decide) (mem_subs_of_mem List.mem_cons_self htilde)
  · exact mem_subs_of_mem hrep (mem_subs_of_ne (by decide) hsolidus)

/-! ## The round trip -/

theorem substitutes_tildes (text : List Char) :
    Substitutes ['~'] ['~', '0'] (text.count '~') text (escapeTildes text) :=
  .flatMap '~' ['~', '0'] text

theorem substitutes_solidi (text : List Char) :
    Substitutes ['/'] ['~', '1'] (text.count '/') text (escapeSolidi text) :=
  .flatMap '/' ['~', '1'] text

theorem count_escapeTildes (text : List Char) : (escapeTildes text).count '/' = text.count '/' := by
  induction text with
  | nil => rfl
  | cons c text ih =>
    rw [escapeTildes, List.flatMap_cons, List.count_append, ← escapeTildes, ih]
    by_cases hc : c = '~'
    · subst hc
      simp
    · rw [if_neg hc, ← List.count_append]
      rfl

theorem not_mem_escapeSolidi (text : List Char) : '/' ∉ escapeSolidi text := by
  rw [escapeSolidi, List.mem_flatMap]
  rintro ⟨c, -, hc⟩
  by_cases hsolidus : c = '/'
  · rw [if_pos hsolidus] at hc
    simp at hc
  · rw [if_neg hsolidus] at hc
    exact hsolidus (List.mem_singleton.mp hc).symm

/-- Unescaping `~0` gives the tildes back. -/
theorem substitutes_escapedTildes (text : List Char) :
    Substitutes ['~', '0'] ['~'] (text.count '~') (escapeSolidi (escapeTildes text))
      (escapeSolidi text) := by
  induction text with
  | nil => exact .nil (List.cons_ne_nil _ _)
  | cons c text ih =>
    by_cases hc : c = '~'
    · subst hc
      rw [List.count_cons_self]
      exact ih.here
    · rw [List.count_cons_of_ne hc]
      have hcons : escapeTildes (c :: text) = c :: escapeTildes text := by
        simp [escapeTildes, hc]
      by_cases hsolidus : c = '/'
      · subst hsolidus
        rw [hcons]
        exact (ih.skip (by simp)).skip (by simp)
      · have hone (rest : List Char) : escapeSolidi (c :: rest) = c :: escapeSolidi rest := by
          simp [escapeSolidi, hsolidus]
        rw [hcons, hone, hone]
        exact ih.skip fun h => hc (List.cons_prefix_cons.mp h).1.symm

theorem exists_of_prefix_escapeSolidi {text rest : List Char}
    (h : '1' :: rest <+: escapeSolidi text) : ∃ text', text = '1' :: text' := by
  cases text with
  | nil => cases List.prefix_nil.mp h
  | cons c text =>
    rw [escapeSolidi, List.flatMap_cons] at h
    by_cases hc : c = '/'
    · rw [if_pos hc] at h
      exact absurd (List.cons_prefix_cons.mp h).1 (by decide)
    · rw [if_neg hc] at h
      exact ⟨text, by rw [(List.cons_prefix_cons.mp h).1]⟩

/-- Unescaping `~1` gives the solidi back, and takes every `~1` of the text for one. -/
theorem substitutes_escapedSolidi (text : List Char) :
    Substitutes ['~', '1'] ['/'] ((roundTrip text).count '/') (escapeSolidi text)
      (roundTrip text) := by
  induction text using roundTrip.induct with
  | case1 text ih =>
    rw [roundTrip, List.count_cons_self]
    exact ih.here
  | case2 c text hne ih =>
    rw [roundTrip.eq_2 _ _ hne]
    by_cases hc : c = '/'
    · subst hc
      rw [List.count_cons_self]
      exact ih.here
    · have hcons : escapeSolidi (c :: text) = c :: escapeSolidi text := by
        simp [escapeSolidi, hc]
      rw [hcons, List.count_cons_of_ne hc]
      apply ih.skip
      intro hstart
      obtain ⟨hc, hrest⟩ := List.cons_prefix_cons.mp hstart
      obtain ⟨text', rfl⟩ := exists_of_prefix_escapeSolidi hrest
      exact hne text' hc.symm rfl
  | case3 => exact .nil (List.cons_ne_nil _ _)

theorem roundTrip_eq_self_iff {text : List Char} :
    roundTrip text = text ↔ ¬['~', '1'] <:+: text := by
  induction text using roundTrip.induct with
  | case1 text ih =>
    rw [roundTrip]
    refine iff_of_false (fun h => absurd (List.cons.inj h).1 (by decide)) (not_not_intro ?_)
    exact ⟨[], text, rfl⟩
  | case2 c text hne ih =>
    have hstart : ¬['~', '1'] <+: c :: text := by
      rintro ⟨rest, hrest⟩
      obtain ⟨hc, htext⟩ := List.cons.inj hrest
      exact hne rest hc.symm htext.symm
    rw [roundTrip.eq_2 _ _ hne, List.cons.injEq, List.infix_cons_iff, not_or, ih]
    simp [hstart]
  | case3 => simp [roundTrip]

def isEscaped (c : Char) : Bool := c = '~' || c = '/'

/-- If the four substitutions give the text back, none of them has run out of turns. -/
theorem few_of_round {s : List Char} (h : unescape_ (escape_ s) = s) :
    s.count '~' < 1000 ∧ s.count '/' < 1000 ∧ roundTrip s = s := by
  obtain ⟨t₁, ht₁⟩ : ∃ t, subs s ['~'] ['~', '0'] = t := ⟨_, rfl⟩
  obtain ⟨t₂, ht₂⟩ : ∃ t, subs t₁ ['/'] ['~', '1'] = t := ⟨_, rfl⟩
  obtain ⟨t₃, ht₃⟩ : ∃ t, subs t₂ ['~', '0'] ['~'] = t := ⟨_, rfl⟩
  rw [unescape_, escape_, ht₁, ht₂, ht₃] at h
  -- no substitution takes a tilde or a solidus away, so none of them adds one
  have h₁ : s.countP isEscaped ≤ t₁.countP isEscaped :=
    countP_le_of_subs rfl rfl ht₁
  have h₂ : t₁.countP isEscaped ≤ t₂.countP isEscaped :=
    countP_le_of_subs rfl rfl ht₂
  have h₃ : t₂.countP isEscaped ≤ t₃.countP isEscaped :=
    countP_le_of_subs rfl rfl ht₃
  have h₄ : t₃.countP isEscaped ≤ s.countP isEscaped :=
    countP_le_of_subs rfl rfl h
  obtain ⟨htildes, rfl⟩ := few_of_countP_le (p := isEscaped) rfl rfl ht₁
    (substitutes_tildes s) (h₂.trans (h₃.trans h₄))
  obtain ⟨hsolidi, rfl⟩ := few_of_countP_le (p := isEscaped) rfl rfl ht₂
    (substitutes_solidi (escapeTildes s)) (h₃.trans (h₄.trans h₁))
  obtain ⟨-, rfl⟩ := few_of_countP_le (p := isEscaped) rfl rfl ht₃
    (substitutes_escapedTildes s) (h₄.trans (h₁.trans h₂))
  obtain ⟨-, hself⟩ := few_of_countP_le (p := isEscaped) rfl rfl h
    (substitutes_escapedSolidi s) (h₁.trans (h₂.trans h₃))
  rw [count_escapeTildes] at hsolidi
  exact ⟨htildes, hsolidi, hself.symm⟩

/-- An escaped text has no solidus and is unescaped to itself exactly if it has no `~1` and
neither of its substitutions runs out of turns. -/
theorem escape_invertible_iff (s : List Char) :
    unescape_ (escape_ s) = s ∧ '/' ∉ escape_ s ↔
      ¬['~', '1'] <:+: s ∧ s.count '~' < 1000 ∧ s.count '/' < 1000 := by
  constructor
  · rintro ⟨hround, -⟩
    obtain ⟨htildes, hsolidi, hself⟩ := few_of_round hround
    exact ⟨roundTrip_eq_self_iff.mp hself, htildes, hsolidi⟩
  · rintro ⟨hfree, htildes, hsolidi⟩
    have hself := roundTrip_eq_self_iff.mpr hfree
    have hslots : (escapeTildes s).count '/' < 1000 := by rwa [count_escapeTildes]
    have hescape : escape_ s = escapeSolidi (escapeTildes s) := by
      rw [escape_, subs_of_few (List.cons_ne_nil _ _) (substitutes_tildes s) htildes,
        subs_of_few (List.cons_ne_nil _ _) (substitutes_solidi _) hslots]
    have hlast := substitutes_escapedSolidi s
    rw [hself] at hlast
    refine ⟨?_, ?_⟩
    · rw [hescape, unescape_,
        subs_of_few (List.cons_ne_nil _ _) (substitutes_escapedTildes s) htildes,
        subs_of_few (List.cons_ne_nil _ _) hlast hsolidi]
    · rw [hescape]
      exact not_mem_escapeSolidi _

/-- A tilde in front of a `1` is taken for an escape. -/
theorem tilde_one_unescaped :
    unescape_ (escape_ ['~', '1']) = ['/'] ∧ unescape_ (escape_ ['~', '1']) ≠ ['~', '1'] :=
  ⟨rfl, by decide⟩

end Catena.Common
