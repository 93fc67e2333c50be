import Mathlib.Computability.Language
import Catena.Store.Pointer

/-!
# The grammar of json pointers

`Path::Path` validates a text against a regular expression, iterates over the matches of one
segment, unescapes each and converts digit strings with `std::stoul`. The texts it accepts are
those of the grammar, as long as every digit string fits in 64 bits. The three largest numbers
that do are the indices with a meaning of their own.
-/

namespace Catena.Store

open Computability

namespace Path

/-- `Path::kError`, the index that signals an error. -/
def kError : Nat := kEnd - 1

/-! ## Substitution -/

/-- `std::string::find`: what comes before the first occurrence of `seq`, and what follows it. -/
def findSeq (seq : List Char) : List Char → Option (List Char × List Char)
  | [] => if seq = [] then some ([], []) else none
  | c :: text =>
      if seq.isPrefixOf (c :: text) then some ([], (c :: text).drop seq.length)
      else (findSeq seq text).map fun found => (c :: found.1, found.2)

/-- The loop of `catena::subs`, with the turns that are left, the text from `prev` on and the
text from `pos` on. When it runs out of turns, the last part is written again. -/
def subsFrom (seq rep : List Char) : Nat → List Char → List Char → List Char
  | 0, prev, _ => prev
  | turns + 1, _, pos =>
      match findSeq seq pos with
      | none => pos
      | some (before, after) => before ++ rep ++ subsFrom seq rep turns pos after

/-- `catena::subs`. -/
def subs (str seq rep : List Char) : List Char :=
  if seq = [] then str else subsFrom seq rep 1000 str str

/-- `Path::unescape_`. -/
def unescape_ (str : List Char) : List Char := subs (subs str ['~', '0'] ['~']) ['~', '1'] ['/']

theorem findSeq_of_not_mem {c : Char} {seq text : List Char} (h : c ∉ text) :
    findSeq (c :: seq) text = none := by
  induction text with
  | nil => rfl
  | cons a text ih =>
    rw [List.mem_cons, not_or] at h
    have hne : (c :: seq).isPrefixOf (a :: text) = false := by
      rw [List.isPrefixOf_cons_cons, beq_eq_false_iff_ne.mpr h.1, Bool.false_and]
    rw [findSeq, hne, ih h.2]
    rfl

theorem subs_of_not_mem {c : Char} {seq rep text : List Char} (h : c ∉ text) :
    subs text (c :: seq) rep = text := by
  rw [subs, if_neg (List.cons_ne_nil _ _), subsFrom, findSeq_of_not_mem h]

theorem unescape_of_not_mem {text : List Char} (h : '~' ∉ text) : unescape_ text = text := by
  rw [unescape_, subs_of_not_mem h, subs_of_not_mem h]

/-! ## The constructor -/

/-- `kMatchOid`. -/
def kMatchOid : Language Char :=
  {text | ∃ c cs, text = '/' :: c :: cs ∧ isWordStart c = true ∧ cs.all isWordChar = true}

/-- `kMatchIdx`. -/
def kMatchIdx : Language Char :=
  {text | ∃ c cs, text = '/' :: c :: cs ∧ (c :: cs).all Char.isDigit = true}

/-- `kMatchEnd`. -/
def kMatchEnd : Language Char := {['/', '-']}

def kSegmentRegex : Language Char := kMatchOid + kMatchIdx + kMatchEnd

def kPathRegex : Language Char := kSegmentRegex∗

/-- The body of a match, unescaped and without its solidus. -/
def strip (body : List Char) : List Char := (unescape_ ('/' :: body)).drop 1

/-- The match of `kSegmentRegex` where the text begins, as far as it goes, and the text behind
it. -/
def matchSegment : List Char → Option (Match × List Char)
  | '/' :: c :: cs =>
      if isWordStart c then
        some (.oid (String.ofList (strip (c :: cs.takeWhile isWordChar))), cs.dropWhile isWordChar)
      else if c.isDigit then
        some (.idx (strip (c :: cs.takeWhile Char.isDigit)), cs.dropWhile Char.isDigit)
      else if c = '-' then some (.last, cs)
      else none
  | _ => none

theorem length_matchSegment {text rest : List Char} {m : Match}
    (h : matchSegment text = some (m, rest)) : rest.length < text.length := by
  unfold matchSegment at h
  split at h
  · rename_i c cs
    have hword := (List.dropWhile_sublist (l := cs) isWordChar).length_le
    have hdigit := (List.dropWhile_sublist (l := cs) Char.isDigit).length_le
    split at h
    · obtain ⟨-, rfl⟩ := Prod.mk.inj (Option.some.inj h)
      simp only [List.length_cons]
      omega
    · split at h
      · obtain ⟨-, rfl⟩ := Prod.mk.inj (Option.some.inj h)
        simp only [List.length_cons]
        omega
      · split at h
        · obtain ⟨-, rfl⟩ := Prod.mk.inj (Option.some.inj h)
          simp only [List.length_cons]
          omega
        · cases h
  · cases h

/-- `std::sregex_iterator`: the matches from left to right, without what lies between them. -/
def segmentMatches (text : List Char) : List Match :=
  match h : matchSegment text with
  | some (m, rest) =>
      have := length_matchSegment h
      m :: segmentMatches rest
  | none =>
      match text with
      | [] => []
      | _ :: text => segmentMatches text
termination_by text.length

def Stops (text : List Char) : Prop := text = [] ∨ ∃ rest, text = '/' :: rest

theorem Stops.span {p : Char → Bool} (hp : p '/' = false) {cs tail : List Char}
    (hcs : cs.all p = true) (htail : Stops tail) :
    (cs ++ tail).takeWhile p = cs ∧ (cs ++ tail).dropWhile p = tail := by
  have hall : ∀ c ∈ cs, p c = true := List.all_eq_true.mp hcs
  rw [List.takeWhile_append_of_pos hall, List.dropWhile_append_of_pos hall]
  rcases htail with rfl | ⟨rest, rfl⟩
  · simp
  · rw [List.takeWhile_cons_of_neg (by simp [hp]), List.dropWhile_cons_of_neg (by simp [hp])]
    simp

theorem not_mem_of_all {p : Char → Bool} {a : Char} (hp : p a = false) {cs : List Char}
    (hcs : cs.all p = true) : a ∉ cs := by
  intro hmem
  have hpa := List.all_eq_true.mp hcs a hmem
  rw [hp] at hpa
  cases hpa

theorem strip_body {body : List Char} (h : '~' ∉ body) : strip body = body := by
  have htilde : '~' ∉ '/' :: body := by
    rw [List.mem_cons, not_or]
    exact ⟨by decide, h⟩
  rw [strip, unescape_of_not_mem htilde]
  rfl

theorem isWordChar_of_isWordStart {c : Char} (h : isWordStart c = true) : isWordChar c = true := by
  rw [isWordStart, Bool.or_eq_true] at h
  rw [isWordChar, Bool.or_eq_true, Char.isAlphanum, Bool.or_eq_true]
  exact h.imp_left Or.inl

/-- The match of a segment is the match of its body. -/
theorem matchSegment_body {body tail : List Char} {m : Match} (hbody : matchBody body = some m)
    (htail : Stops tail) : matchSegment ('/' :: (body ++ tail)) = some (m, tail) := by
  cases body with
  | nil => cases hbody
  | cons c cs =>
    rw [matchBody] at hbody
    rw [List.cons_append, matchSegment]
    split at hbody
    · rename_i hname
      rw [Bool.and_eq_true] at hname
      obtain ⟨htake, hdrop⟩ := htail.span (by decide) hname.2
      have hword : (c :: cs).all isWordChar = true := by
        rw [List.all_cons, isWordChar_of_isWordStart hname.1, hname.2]
        rfl
      rw [if_pos hname.1, htake, hdrop, strip_body (not_mem_of_all (by decide) hword),
        ← Option.some.inj hbody]
    · split at hbody
      · rename_i hdigits
        rw [List.all_cons, Bool.and_eq_true] at hdigits
        obtain ⟨htake, hdrop⟩ := htail.span (by decide) hdigits.2
        have hdigit : (c :: cs).all Char.isDigit = true := by
          rw [List.all_cons, hdigits.1, hdigits.2]
          rfl
        rw [if_neg (by rw [isDigit_not_wordStart hdigits.1]; decide), if_pos hdigits.1, htake,
          hdrop, strip_body (not_mem_of_all (by decide) hdigit), ← Option.some.inj hbody]
      · split at hbody
        · rename_i hend
          obtain ⟨rfl, rfl⟩ := List.cons.inj hend
          rw [← Option.some.inj hbody]
          rfl
        · cases hbody

theorem stops_flatMap (bodies : List (List Char)) : Stops (bodies.flatMap ('/' :: ·)) := by
  cases bodies with
  | nil => exact Or.inl rfl
  | cons body bodies => exact Or.inr ⟨_, List.flatMap_cons⟩

theorem segmentMatches_nil : segmentMatches [] = [] := by
  rw [segmentMatches]
  rfl

/-- On a text that was validated the iterator finds the bodies between the solidi. -/
theorem segmentMatches_bodies {bodies : List (List Char)} {ms : List Match}
    (h : bodies.mapM matchBody = some ms) : segmentMatches (bodies.flatMap ('/' :: ·)) = ms := by
  rw [mapM_matchBody_iff] at h
  induction bodies generalizing ms with
  | nil =>
    rw [List.map_nil, eq_comm, List.map_eq_nil_iff] at h
    rw [h]
    exact segmentMatches_nil
  | cons body bodies ih =>
    cases ms with
    | nil => cases h
    | cons m ms =>
      obtain ⟨hbody, hrest⟩ := List.cons.inj h
      have hmatch := matchSegment_body hbody (stops_flatMap bodies)
      rw [segmentMatches, List.flatMap_cons, List.cons_append]
      split
      · rename_i m' rest hsome
        rw [hmatch] at hsome
        obtain ⟨rfl, rfl⟩ := Prod.mk.inj (Option.some.inj hsome)
        rw [ih hrest]
      · rename_i hnone
        rw [hmatch] at hnone
        cases hnone

theorem mem_kSegmentRegex_iff {text : List Char} :
    text ∈ kSegmentRegex ↔ ∃ body m, text = '/' :: body ∧ matchBody body = some m := by
  simp only [kSegmentRegex, Language.mem_add]
  constructor
  · rintro ((⟨c, cs, rfl, hstart, hword⟩ | ⟨c, cs, rfl, hdigits⟩) | hend)
    · refine ⟨c :: cs, .oid (String.ofList (c :: cs)), rfl, ?_⟩
      rw [matchBody, hstart, hword]
      rfl
    · have hdigit : c.isDigit = true := (Bool.and_eq_true_iff.mp hdigits).1
      refine ⟨c :: cs, .idx (c :: cs), rfl, ?_⟩
      rw [matchBody, isDigit_not_wordStart hdigit, Bool.false_and, if_neg Bool.false_ne_true,
        if_pos hdigits]
    · obtain rfl : text = ['/', '-'] := hend
      exact ⟨['-'], .last, rfl, rfl⟩
  · rintro ⟨body, m, rfl, hbody⟩
    cases body with
    | nil => cases hbody
    | cons c cs =>
      rw [matchBody] at hbody
      split at hbody
      · rename_i hname
        rw [Bool.and_eq_true] at hname
        exact Or.inl (Or.inl ⟨c, cs, rfl, hname⟩)
      · split at hbody
        · rename_i hdigits
          exact Or.inl (Or.inr ⟨c, cs, rfl, hdigits⟩)
        · split at hbody
          · rename_i hend
            rw [hend]
            exact Or.inr rfl
          · cases hbody

/-- A text matches `kPathRegex` exactly if it is made of bodies that match, each after a
solidus. -/
theorem mem_kPathRegex_iff {text : List Char} :
    text ∈ kPathRegex ↔
      ∃ bodies : List (List Char), text = bodies.flatMap ('/' :: ·) ∧
        ∃ ms : List Match, bodies.map matchBody = ms.map some := by
  rw [kPathRegex, Language.mem_kstar]
  constructor
  · rintro ⟨parts, rfl, hparts⟩
    induction parts with
    | nil => exact ⟨[], rfl, [], rfl⟩
    | cons part parts ih =>
      obtain ⟨body, m, rfl, hbody⟩ := mem_kSegmentRegex_iff.mp (hparts part List.mem_cons_self)
      obtain ⟨bodies, hbodies, ms, hms⟩ := ih fun y hy => hparts y (List.mem_cons_of_mem _ hy)
      refine ⟨body :: bodies, ?_, m :: ms, ?_⟩
      · rw [List.flatten_cons, hbodies, List.flatMap_cons]
      · rw [List.map_cons, List.map_cons, hbody, hms]
  · rintro ⟨bodies, rfl, ms, hms⟩
    refine ⟨bodies.map ('/' :: ·), ?_, ?_⟩
    · rw [List.flatMap_def]
    · intro part hpart
      obtain ⟨body, hbody, rfl⟩ := List.mem_map.mp hpart
      have hmem := List.mem_map_of_mem (f := matchBody) hbody
      rw [hms, List.mem_map] at hmem
      obtain ⟨m, -, hm⟩ := hmem
      exact mem_kSegmentRegex_iff.mpr ⟨body, m, rfl, hm.symm⟩

theorem not_mem_of_matchBody {body : List Char} {m : Match} (h : matchBody body = some m) :
    '/' ∉ body := by
  cases body with
  | nil => cases h
  | cons c cs =>
    rw [matchBody] at h
    split at h
    · rename_i hname
      rw [Bool.and_eq_true] at hname
      have hword : (c :: cs).all isWordChar = true := by
        rw [List.all_cons, isWordChar_of_isWordStart hname.1, hname.2]
        rfl
      exact not_mem_of_all (by decide) hword
    · split at h
      · rename_i hdigits
        exact not_mem_of_all (by decide) hdigits
      · split at h
        · rename_i hend
          rw [hend]
          decide
        · cases h

theorem mem_kPathRegex_iff_bodies {text : List Char} :
    text ∈ kPathRegex ↔ ∃ rest ms, bodies text = [] :: rest ∧ rest.mapM matchBody = some ms := by
  rw [mem_kPathRegex_iff]
  constructor
  · rintro ⟨rest, rfl, ms, hms⟩
    have hnot : ∀ body ∈ rest, '/' ∉ body := by
      intro body hbody
      have hmem := List.mem_map_of_mem (f := matchBody) hbody
      rw [hms, List.mem_map] at hmem
      obtain ⟨m, -, hm⟩ := hmem
      exact not_mem_of_matchBody hm.symm
    exact ⟨rest, ms, bodies_flatMap hnot, mapM_matchBody_iff.mpr hms⟩
  · rintro ⟨rest, ms, hbodies, hms⟩
    exact ⟨rest, text_of_bodies hbodies, ms, mapM_matchBody_iff.mp hms⟩

/-- `std::regex_match` with `kPathRegex`. -/
def regexMatch (text : List Char) : Bool :=
  match bodies text with
  | [] :: rest => (rest.mapM matchBody).isSome
  | _ => false

theorem regexMatch_iff {text : List Char} : regexMatch text = true ↔ text ∈ kPathRegex := by
  rw [mem_kPathRegex_iff_bodies, regexMatch]
  split
  · rename_i rest hbodies
    simp [hbodies, Option.isSome_iff_exists]
  · rename_i hbodies
    constructor
    · intro h
      cases h
    · rintro ⟨rest, ms, hrest, -⟩
      exact absurd hrest (hbodies rest)

/-- `Path::Path`, with its steps one after the other. -/
def new (jptr : String) : Except Thrown (List Segment) :=
  if regexMatch jptr.toList then segmentsOf (segmentMatches jptr.toList)
  else .error (.withStatus ⟨"'" ++ jptr ++ "' is not a valid path", .invalidArgument⟩)

theorem new_eq_parse (jptr : String) : new jptr = parse jptr := by
  have hmem {rest ms} (hbodies : bodies jptr.toList = [] :: rest)
      (hms : rest.mapM matchBody = some ms) : jptr.toList ∈ kPathRegex :=
    mem_kPathRegex_iff_bodies.mpr ⟨rest, ms, hbodies, hms⟩
  rw [new, parse]
  split
  · rename_i hmatch
    obtain ⟨rest, ms, hbodies, hms⟩ := mem_kPathRegex_iff_bodies.mp (regexMatch_iff.mp hmatch)
    rw [hbodies]
    simp only [hms]
    rw [text_of_bodies hbodies, List.nil_append, segmentMatches_bodies hms]
  · rename_i hmatch
    split
    · rename_i rest hbodies
      cases hms : rest.mapM matchBody with
      | none => rfl
      | some ms => exact absurd (regexMatch_iff.mpr (hmem hbodies hms)) hmatch
    · rfl

/-! ## What a pointer says -/

/-- What a body between solidi stands for. -/
inductive Reads : List Char → Segment → Prop
  | identifier {name : String} (h : isIdentifier name = true) : Reads name.toList (.name name)
  | digits {body : List Char} (hne : body ≠ []) (h : body.all Char.isDigit = true) :
      Reads body (.index (Nat.ofDigitChars 10 body 0))
  | last : Reads ['-'] (.index kEnd)

/-- The text is a sequence of bodies, each after a solidus, that stand for the segments. -/
def Spells (text : List Char) (path : List Segment) : Prop :=
  ∃ bodies : List (List Char), text = bodies.flatMap ('/' :: ·) ∧ List.Forall₂ Reads bodies path

def digitStrings (text : List Char) : List (List Char) :=
  (bodies text).filter fun body => body ≠ [] ∧ body.all Char.isDigit

/-- Reading the text follows the grammar. -/
structure ParsesFaithfully (jptr : String) : Prop where
  accepts : (∃ path, new jptr = .ok path) ↔ ∃ path, Spells jptr.toList path
  rejects : (¬∃ path, new jptr = .ok path) →
    ∃ why, new jptr = .error (.withStatus ⟨why, .invalidArgument⟩)
  segments : ∀ path, new jptr = .ok path → Spells jptr.toList path
  ordinary : ∀ path, new jptr = .ok path → ∀ digits ∈ digitStrings jptr.toList,
    Nat.ofDigitChars 10 digits 0 ∉ [kEnd, kError, kNone]
  reprinted : ∀ path, new jptr = .ok path → new (fqoid path) = .ok path

/-- Every digit string denotes a number below the indices with a meaning of their own. -/
def DigitsFit (text : List Char) : Prop :=
  ∀ digits ∈ digitStrings text, Nat.ofDigitChars 10 digits 0 < kNone

theorem Reads.not_mem {body : List Char} {segment : Segment} (h : Reads body segment) :
    '/' ∉ body := by
  cases h with
  | identifier h => exact (bodySegment_name h).2
  | digits hne h => exact not_mem_of_all (by decide) h
  | last => decide

theorem Reads.of_bodySegment {body : List Char} {segment : Segment}
    (h : bodySegment body = some segment) : Reads body segment := by
  rcases bodySegment_cases h with rfl | ⟨hdigits, rfl⟩ | ⟨rfl, rfl⟩
  · have hread := Reads.identifier (isIdentifier_of_bodySegment h)
    rwa [String.toList_ofList] at hread
  · apply Reads.digits _ hdigits
    rintro rfl
    cases h
  · exact Reads.last

theorem Reads.bodySegment {body : List Char} {segment : Segment} (h : Reads body segment)
    (hfits : body.all Char.isDigit = true → Nat.ofDigitChars 10 body 0 < 2 ^ 64) :
    bodySegment body = some segment := by
  cases h with
  | identifier h => exact (bodySegment_name h).1
  | last => rfl
  | digits hne hdigits =>
    cases body with
    | nil => exact absurd rfl hne
    | cons c cs =>
      have hdigit : c.isDigit = true := (Bool.and_eq_true_iff.mp hdigits).1
      have hstoul : stoul (c :: cs) = .ok (Nat.ofDigitChars 10 (c :: cs) 0) := by
        rw [stoul, ← Nat.ofDigitChars_eq_foldl]
        exact if_pos (hfits hdigits)
      rw [Path.bodySegment, matchBody, isDigit_not_wordStart hdigit, Bool.false_and,
        if_neg Bool.false_ne_true, if_pos hdigits, Option.bind_some, segmentOf, hstoul]
      rfl

theorem lt_of_digits {body : List Char} {segment : Segment}
    (h : bodySegment body = some segment) (hdigits : body.all Char.isDigit = true) :
    Nat.ofDigitChars 10 body 0 < 2 ^ 64 := by
  rcases bodySegment_cases h with rfl | ⟨-, rfl⟩ | ⟨rfl, rfl⟩
  · have hname := isIdentifier_of_bodySegment h
    cases body with
    | nil => cases h
    | cons c cs =>
      rw [List.all_cons, Bool.and_eq_true] at hdigits
      simp [isIdentifier, isDigit_not_wordStart hdigits.1] at hname
  · exact lt_of_bodySegment h
  · cases hdigits

theorem spells_iff {text : List Char} {path : List Segment} :
    Spells text path ↔ ∃ rest, bodies text = [] :: rest ∧ List.Forall₂ Reads rest path := by
  constructor
  · rintro ⟨rest, rfl, hrest⟩
    refine ⟨rest, bodies_flatMap ?_, hrest⟩
    intro body hbody
    obtain ⟨i, hi, rfl⟩ := List.mem_iff_getElem.mp hbody
    exact (hrest.get hi (hrest.length_eq ▸ hi)).not_mem
  · rintro ⟨rest, hbodies, hrest⟩
    exact ⟨rest, text_of_bodies hbodies, hrest⟩

theorem new_ok_iff {jptr : String} {path : List Segment} :
    new jptr = .ok path ↔ ∃ rest, bodies jptr.toList = [] :: rest ∧
      List.Forall₂ (fun body segment => bodySegment body = some segment) rest path := by
  rw [new_eq_parse, parse_ok_iff]
  simp only [← List.forall₂_eq_eq_eq, List.forall₂_map_left_iff, List.forall₂_map_right_iff]

theorem spells_of_new {jptr : String} {path : List Segment} (h : new jptr = .ok path) :
    Spells jptr.toList path := by
  obtain ⟨rest, hbodies, hrest⟩ := new_ok_iff.mp h
  exact spells_iff.mpr ⟨rest, hbodies, hrest.imp fun _ _ => Reads.of_bodySegment⟩

theorem mem_digitStrings {text body : List Char} {rest : List (List Char)}
    (h : bodies text = [] :: rest) (hdigits : body.all Char.isDigit = true) :
    body ∈ digitStrings text ↔ body ≠ [] ∧ body ∈ rest := by
  rw [digitStrings, List.mem_filter, h, List.mem_cons]
  simp only [hdigits, decide_eq_true_eq, and_true, ne_eq]
  constructor
  · rintro ⟨rfl | hmem, hne⟩
    · exact absurd rfl hne
    · exact ⟨hne, hmem⟩
  · rintro ⟨hne, hmem⟩
    exact ⟨Or.inr hmem, hne⟩

theorem new_of_spells {jptr : String} {path : List Segment} (h : Spells jptr.toList path)
    (hfits : DigitsFit jptr.toList) : new jptr = .ok path := by
  obtain ⟨rest, hbodies, hrest⟩ := spells_iff.mp h
  refine new_ok_iff.mpr ⟨rest, hbodies, ?_⟩
  have hsmall : ∀ body ∈ rest, body.all Char.isDigit = true →
      Nat.ofDigitChars 10 body 0 < 2 ^ 64 := by
    intro body hbody hdigits
    by_cases hne : body = []
    · rw [hne]
      decide
    · have hlt := hfits body ((mem_digitStrings hbodies hdigits).mpr ⟨hne, hbody⟩)
      exact Nat.lt_of_lt_of_le hlt (by decide)
  exact ((List.forall₂_and_left rest path).mpr ⟨hsmall, hrest⟩).imp fun _ _ hread => hread.2.bodySegment hread.1

theorem exists_reads {body : List Char} {m : Match} (h : matchBody body = some m) :
    ∃ segment, Reads body segment := by
  cases body with
  | nil => cases h
  | cons c cs =>
    rw [matchBody] at h
    split at h
    · rename_i hname
      have hread : Reads (String.ofList (c :: cs)).toList _ :=
        Reads.identifier (by rw [isIdentifier, String.toList_ofList]; exact hname)
      rw [String.toList_ofList] at hread
      exact ⟨_, hread⟩
    · split at h
      · rename_i hdigits
        exact ⟨_, Reads.digits (List.cons_ne_nil _ _) hdigits⟩
      · split at h
        · rename_i hend
          rw [hend]
          exact ⟨_, Reads.last⟩
        · cases h

theorem exists_spells {text : List Char} (h : text ∈ kPathRegex) : ∃ path, Spells text path := by
  obtain ⟨bodies, rfl, ms, hms⟩ := mem_kPathRegex_iff.mp h
  suffices hpath : ∃ path, List.Forall₂ Reads bodies path by
    obtain ⟨path, hpath⟩ := hpath
    exact ⟨path, bodies, rfl, hpath⟩
  clear h
  induction bodies generalizing ms with
  | nil => exact ⟨[], List.Forall₂.nil⟩
  | cons body bodies ih =>
    cases ms with
    | nil => cases hms
    | cons m ms =>
      obtain ⟨hbody, hrest⟩ := List.cons.inj hms
      obtain ⟨segment, hsegment⟩ := exists_reads hbody
      obtain ⟨path, hpath⟩ := ih ms hrest
      exact ⟨segment :: path, List.Forall₂.cons hsegment hpath⟩

theorem new_rejects {jptr : String} (h : ¬∃ path, Spells jptr.toList path) :
    ∃ why, new jptr = .error (.withStatus ⟨why, .invalidArgument⟩) := by
  rw [new]
  split
  · rename_i hmatch
    exact absurd (exists_spells (regexMatch_iff.mp hmatch)) h
  · exact ⟨_, rfl⟩

theorem sentinels_iff {n : Nat} (h : n < 2 ^ 64) : n ∉ [kEnd, kError, kNone] ↔ n < kNone := by
  simp only [kEnd, kError, kNone, List.mem_cons, List.not_mem_nil, or_false, not_or]
  omega

/-- Json pointers are read as the grammar says exactly as long as no digit string denotes a
sentinel or a number that does not fit in 64 bits. -/
theorem parsesFaithfully_iff_digitsFit (jptr : String) :
    ParsesFaithfully jptr ↔ ((∃ path, Spells jptr.toList path) → DigitsFit jptr.toList) := by
  constructor
  · intro h hspells digits hdigits
    obtain ⟨path, hpath⟩ := h.accepts.mpr hspells
    obtain ⟨rest, hbodies, hrest⟩ := new_ok_iff.mp hpath
    have hall : digits.all Char.isDigit = true :=
      (of_decide_eq_true (List.mem_filter.mp hdigits).2).2
    obtain ⟨-, hmem⟩ := (mem_digitStrings hbodies hall).mp hdigits
    obtain ⟨i, hi, hget⟩ := List.mem_iff_getElem.mp hmem
    have hread := hrest.get hi (hrest.length_eq ▸ hi)
    have hlt : Nat.ofDigitChars 10 digits 0 < 2 ^ 64 := by
      apply lt_of_digits _ hall
      · exact path.get ⟨i, hrest.length_eq ▸ hi⟩
      · rw [← hget]
        exact hread
    exact (sentinels_iff hlt).mp (h.ordinary path hpath digits hdigits)
  · intro hfits
    have haccepts : (∃ path, new jptr = .ok path) ↔ ∃ path, Spells jptr.toList path := by
      constructor
      · rintro ⟨path, hpath⟩
        exact ⟨path, spells_of_new hpath⟩
      · rintro ⟨path, hpath⟩
        exact ⟨path, new_of_spells hpath (hfits ⟨path, hpath⟩)⟩
    refine ⟨haccepts, ?_, ?_, ?_, ?_⟩
    · intro hno
      exact new_rejects (haccepts.not.mp hno)
    · intro path hpath
      exact spells_of_new hpath
    · intro path hpath digits hdigits
      have hlt := hfits ⟨path, spells_of_new hpath⟩ digits hdigits
      exact (sentinels_iff (Nat.lt_of_lt_of_le hlt (by decide))).mpr hlt
    · intro path hpath
      rw [new_eq_parse] at hpath ⊢
      exact parse_fqoid (printable_of_parse hpath)

theorem not_faithful_of_sentinel {jptr : String} {path : List Segment} {digits : List Char}
    (hpath : parse jptr = .ok path) (hdigits : digits ∈ digitStrings jptr.toList)
    (hvalue : Nat.ofDigitChars 10 digits 0 ∈ [kEnd, kError, kNone]) : ¬ParsesFaithfully jptr := by
  intro h
  rw [← new_eq_parse] at hpath
  exact h.ordinary path hpath digits hdigits hvalue

/-- The number `2 ^ 64` leaves through `std::out_of_range`, and the numbers below it are taken for
the end mark and the other sentinels. -/
theorem huge_digits_unfaithful :
    ¬ParsesFaithfully "/18446744073709551616" ∧ ¬ParsesFaithfully "/18446744073709551615" ∧
      ¬ParsesFaithfully "/18446744073709551614" ∧ ¬ParsesFaithfully "/18446744073709551613" := by
  refine ⟨?_, ?_, ?_, ?_⟩
  · intro h
    have hspells : Spells "/18446744073709551616".toList [.index (2 ^ 64)] :=
      ⟨["18446744073709551616".toList], rfl,
        List.Forall₂.cons (Reads.digits (by decide) (by decide)) List.Forall₂.nil⟩
    obtain ⟨path, hpath⟩ := h.accepts.mpr ⟨_, hspells⟩
    rw [new_eq_parse] at hpath
    cases hpath
  · exact not_faithful_of_sentinel rfl List.mem_cons_self (by decide)
  · exact not_faithful_of_sentinel rfl List.mem_cons_self (by decide)
  · exact not_faithful_of_sentinel rfl List.mem_cons_self (by decide)

end Path

end Catena.Store
