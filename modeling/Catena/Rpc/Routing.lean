import Mathlib.Data.List.TakeDrop
import Mathlib.Data.List.TakeWhile
import Catena.Common.Substitution
import Catena.Rpc.Assets

/-!
# Routing REST requests

The path of a request names a slot, an endpoint and an fqoid, and may end with the stream flag.
`SocketReader::read` splits it at its solidi. `catena::split` gives up after a thousand parts, so
that the end of a longer path is taken twice. The slot is what `std::stoi` makes of the fourth
component, which is content with digits at its start.
-/

namespace Catena.Rpc

open Catena.Common Catena.Framework Catena.Framework.FilePath

/-- The characters that URLs leave as they are. -/
def isUnreserved (c : Char) : Bool := c.isAlphanum || c = '-' || c = '.' || c = '_' || c = '~'

def slashed (parts : List Text) : Text := parts.flatMap ('/' :: ·)

def streamFlag (stream : Bool) : List Text := if stream then ["stream".toList] else []

/-- The request target for a slot, an endpoint and an fqoid. -/
def requestTarget (version : Text) (slot : Nat) (endpoint : Text) (fqoid : List Text)
    (stream : Bool) : Text :=
  slashed ("st2138-api".toList :: version :: (toString slot).toList :: endpoint ::
    (fqoid ++ streamFlag stream))

/-- The parts of a target that can be told from the stream flag. -/
structure Routable (version : Text) (slot : Nat) (endpoint : Text) (fqoid : List Text) : Prop where
  inRange : slot ≤ 65535
  named : endpoint ≠ []
  notStream : endpoint ≠ "stream".toList
  lastNotStream : fqoid.getLast? ≠ some "stream".toList
  unreserved : ∀ part ∈ version :: endpoint :: fqoid, part.all isUnreserved = true

/-! ## Splitting at solidi -/

theorem components_slashed {parts : List Text} (h : ∀ part ∈ parts, '/' ∉ part) :
    components (slashed parts) = [] :: parts := by
  induction parts with
  | nil => rfl
  | cons part parts ih =>
    have hpart := components_of_not_mem (h part List.mem_cons_self)
    have hrest := ih fun p hp => h p (List.mem_cons_of_mem _ hp)
    rw [slashed, List.flatMap_cons, List.cons_append, components, if_pos rfl, List.cons.injEq]
    refine ⟨rfl, ?_⟩
    cases parts with
    | nil => simpa using hpart
    | cons part' parts =>
      rw [slashed, List.flatMap_cons, List.cons_append, components, if_pos rfl,
        List.cons.injEq] at hrest
      rw [List.flatMap_cons, List.cons_append, components_append_solidus, hpart, hrest.2]
      rfl

theorem pieces_components (text : Text) : Pieces ['/'] text (components text) := by
  induction text with
  | nil => exact .nil (List.cons_ne_nil _ _)
  | cons c text ih =>
    rw [components]
    by_cases hc : c = '/'
    · subst hc
      rw [if_pos rfl]
      exact ih.here
    · obtain ⟨part, parts, hparts⟩ := ih.exists_cons
      rw [if_neg hc, hparts]
      rw [hparts] at ih
      exact ih.skip fun hstart => hc (List.cons_prefix_cons.mp hstart).1.symm

theorem slashed_eq {parts : List Text} (h : parts ≠ []) :
    slashed parts = '/' :: ['/'].intercalate parts := by
  induction parts with
  | nil => exact absurd rfl h
  | cons part parts ih =>
    rw [slashed, List.flatMap_cons]
    cases parts with
    | nil => rw [List.flatMap_nil, List.append_nil, List.intercalate_singleton]
    | cons part' parts =>
      have hrest := ih (List.cons_ne_nil _ _)
      rw [slashed] at hrest
      rw [hrest, List.intercalate_cons_cons, List.append_assoc]
      rfl

theorem split_solidus_of_le {text : Text} (h : (components text).length ≤ 1000) :
    split text ['/'] = components text :=
  Common.split_of_le (List.cons_ne_nil _ _) (pieces_components text) h

/-- When the turns are used up the last part is taken once more, with all that follows it. -/
theorem split_solidus_of_lt {text : Text} (h : 1000 < (components text).length) :
    ∃ last, '/' :: last = slashed ((components text).drop 999) ∧
      split text ['/'] = (components text).take 1000 ++ [last] := by
  have hne : (components text).drop 999 ≠ [] := by
    rw [Ne, List.drop_eq_nil_iff]
    omega
  refine ⟨_, (slashed_eq hne).symm, ?_⟩
  exact Common.split_of_lt (List.cons_ne_nil _ _) (pieces_components text) h

/-! ## Numbers -/

def IsDigits (text : Text) : Prop := text ≠ [] ∧ ∀ c ∈ text, c.isDigit = true

theorem foldl_digits {digits : Text} (h : ∀ c ∈ digits, c.isDigit = true) (n : Nat) :
    digits.foldl (fun (n : Int) c => 10 * n + (c.toNat - '0'.toNat)) n =
      (Nat.ofDigitChars 10 digits n : Nat) := by
  induction digits generalizing n with
  | nil => rfl
  | cons c digits ih =>
    have hc := h c List.mem_cons_self
    have hge : '0'.toNat ≤ c.toNat := by
      rw [Char.isDigit, Bool.and_eq_true, decide_eq_true_eq] at hc
      exact hc.1
    have hstep : 10 * (n : Int) + (c.toNat - '0'.toNat) =
        ((10 * n + (c.toNat - '0'.toNat) : Nat) : Int) := by
      omega
    rw [List.foldl_cons, Nat.ofDigitChars_cons, hstep]
    exact ih (fun d hd => h d (List.mem_cons_of_mem _ hd)) _

theorem isSpace_of_isDigit {c : Char} (h : c.isDigit = true) : isSpace c = false := by
  by_contra hspace
  simp only [isSpace, Bool.not_eq_false, Bool.or_eq_true, decide_eq_true_eq] at hspace
  rcases hspace with ((((rfl | rfl) | rfl) | rfl) | rfl) | rfl <;> cases h

/-- `std::stoi` reads decimal digits that fit. -/
theorem stoi_of_isDigits {text : Text} (h : IsDigits text)
    (hfits : Nat.ofDigitChars 10 text 0 < 2 ^ 31) :
    stoi text = some (Int.ofNat (Nat.ofDigitChars 10 text 0)) := by
  obtain ⟨hne, hdigits⟩ := h
  have hvalue := foldl_digits hdigits 0
  cases text with
  | nil => exact absurd rfl hne
  | cons c cs =>
    have hc := hdigits c List.mem_cons_self
    have hminus : ¬some c = some '-' := by
      rintro ⟨⟩
      cases hc
    have hplus : ¬some c = some '+' := by
      rintro ⟨⟩
      cases hc
    have hdrop : (c :: cs).dropWhile isSpace = c :: cs :=
      List.dropWhile_cons_of_neg (by rw [isSpace_of_isDigit hc]; decide)
    have htake : (c :: cs).takeWhile Char.isDigit = c :: cs :=
      List.takeWhile_eq_self_iff.mpr hdigits
    have hrange : ¬((c :: cs : Text) = [] ∨
        Int.ofNat (Nat.ofDigitChars 10 (c :: cs) 0) < -2 ^ 31 ∨
        2 ^ 31 ≤ Int.ofNat (Nat.ofDigitChars 10 (c :: cs) 0)) := by
      simp only [reduceCtorEq, false_or, not_or, Int.ofNat_eq_natCast]
      omega
    simp only [stoi, hdrop, List.head?_cons, hminus, hplus, or_self, if_false, htake]
    rw [Int.ofNat_eq_natCast, ← hvalue] at hrange ⊢
    exact if_neg hrange

theorem stoi_toString {n : Nat} (h : n ≤ 65535) : stoi (toString n).toList = some (Int.ofNat n) := by
  have htext : (toString n).toList = Nat.toDigits 10 n := by
    rw [Nat.toString_eq_ofList_toDigits, String.toList_ofList]
  have hdigits : IsDigits (toString n).toList := by
    rw [htext]
    refine ⟨Nat.toDigits_ne_nil, fun c hc => ?_⟩
    exact Nat.isDigit_of_mem_toDigits (by decide) (by decide) hc
  have hvalue : Nat.ofDigitChars 10 (toString n).toList 0 = n := by
    rw [htext, Nat.ofDigitChars_ten_toDigits]
  rw [stoi_of_isDigits hdigits (by omega), hvalue]

/-! ## Reading a path -/

namespace SocketReader

/-- What lies behind the fourth part, without the stream flag. -/
def after (component : Text) (rest : List Text) : List Text :=
  if (component :: rest).getLast? = some "stream".toList then rest.dropLast else rest

/-- The members for the fourth component and what lies behind it. -/
def routed (component : Text) (rest : List Text) : SocketReader :=
  let stream := (component :: rest).getLast? = some "stream".toList
  let after := after component rest
  match stoi component with
  | some value => ⟨UInt32.ofInt value, slashed (after.take 1), slashed (after.drop 1), stream⟩
  | none => ⟨0, '/' :: component, slashed after, stream⟩

theorem drop_after (first api version component : Text) (rest : List Text) :
    (if (component :: rest).getLast? = some "stream".toList then
      (first :: api :: version :: component :: rest).dropLast
    else first :: api :: version :: component :: rest).drop 4 = after component rest := by
  rw [after]
  split
  · cases rest with
    | nil => rfl
    | cons part rest => rfl
  · rfl

theorem readUrl_eq {version path first api version' component : Text} {rest : List Text}
    (h : split path ['/'] = first :: api :: version' :: component :: rest) :
    readUrl version path =
      if api = "st2138-api".toList ∧ version' = version then some (routed component rest)
      else none := by
  have hlast : (first :: api :: version' :: component :: rest).getLast? =
      (component :: rest).getLast? := by
    simp only [List.getLast?_cons_cons]
  have hafter := drop_after first api version' component rest
  simp only [readUrl, h, hlast]
  split
  · generalize hpath : (if (component :: rest).getLast? = some "stream".toList then
      (first :: api :: version' :: component :: rest).dropLast
    else first :: api :: version' :: component :: rest) = parts at hafter ⊢
    have hbehind : parts.drop 5 = (after component rest).drop 1 := by
      rw [← hafter, List.drop_drop]
    have hshort : ¬4 < parts.length → after component rest = [] := by
      intro hlen
      rw [← hafter]
      exact List.drop_eq_nil_of_le (Nat.le_of_not_lt hlen)
    cases hstoi : stoi component with
    | none =>
      simp only [routed, hstoi, hafter, reduceCtorEq, if_false]
      split
      · rfl
      · rename_i hlen
        rw [hshort hlen]
        rfl
    | some value =>
      simp only [routed, hstoi, hafter, hbehind, if_true]
      split
      · rfl
      · rename_i hlen
        rw [hshort hlen]
        rfl
  · rfl

/-- A path is read when it starts with the prefix of the service. -/
theorem readUrl_iff {version path : Text} {reader : SocketReader} :
    readUrl version path = some reader ↔
      ∃ first component rest,
        split path ['/'] = first :: "st2138-api".toList :: version :: component :: rest ∧
        reader = routed component rest := by
  constructor
  · intro h
    have hfour : ∃ first api version' component rest,
        split path ['/'] = first :: api :: version' :: component :: rest := by
      rcases hsplit : split path ['/'] with _ | ⟨first, _ | ⟨api, _ | ⟨version', _ | ⟨component, rest⟩⟩⟩⟩
      · simp [readUrl, hsplit] at h
      · simp [readUrl, hsplit] at h
      · simp [readUrl, hsplit] at h
      · simp [readUrl, hsplit] at h
      · exact ⟨first, api, version', component, rest, rfl⟩
    obtain ⟨first, api, version', component, rest, hsplit⟩ := hfour
    rw [readUrl_eq hsplit] at h
    split at h
    · rename_i hservice
      obtain ⟨rfl, rfl⟩ := hservice
      exact ⟨first, component, rest, hsplit, (Option.some.inj h).symm⟩
    · cases h
  · rintro ⟨first, component, rest, hsplit, rfl⟩
    rw [readUrl_eq hsplit, if_pos ⟨rfl, rfl⟩]

end SocketReader

/-! ## What routing should do -/

def membersOf (slot : Nat) (endpoint : Text) (fqoid : List Text) (stream : Bool) : SocketReader :=
  ⟨UInt32.ofNat slot, '/' :: endpoint, slashed fqoid, stream⟩

/-- A path that boost reads as it is: it starts with one solidus and has nothing to decode. -/
def PlainPath (text : Text) : Prop :=
  (∃ c rest, text = '/' :: c :: rest ∧ c ≠ '/') ∧ ∀ c ∈ text, c = '/' ∨ isUnreserved c = true

/-- The fourth component is the endpoint unless it consists of digits, and the fqoid is what lies
behind it. -/
def SlotOnlyIfDigits (version path : Text) : Prop :=
  ∀ reader component, SocketReader.readUrl version path = some reader →
    (components path)[3]? = some component → ¬IsDigits component →
      reader.slot = 0 ∧ reader.endpoint = '/' :: component ∧
        reader.fqoid = slashed (SocketReader.after component ((split path ['/']).drop 4))

theorem not_mem_of_unreserved {part : Text} (h : part.all isUnreserved = true) : '/' ∉ part := by
  intro hmem
  have hc := List.all_eq_true.mp h '/' hmem
  cases hc

theorem mem_toString {n : Nat} {c : Char} (h : c ∈ (toString n).toList) : c.isDigit = true := by
  rw [Nat.toString_eq_ofList_toDigits, String.toList_ofList] at h
  exact Nat.isDigit_of_mem_toDigits (by decide) (by decide) h

theorem isUnreserved_of_isDigit {c : Char} (h : c.isDigit = true) : isUnreserved c = true := by
  simp [isUnreserved, Char.isAlphanum, h]

theorem Routable.all_unreserved {version endpoint : Text} {slot : Nat} {fqoid : List Text}
    (h : Routable version slot endpoint fqoid) (stream : Bool) :
    ∀ part ∈ "st2138-api".toList :: version :: (toString slot).toList :: endpoint ::
      (fqoid ++ streamFlag stream), part.all isUnreserved = true := by
  intro part hpart
  simp only [List.mem_cons, List.mem_append] at hpart
  rcases hpart with rfl | rfl | rfl | rfl | hpart | hpart
  · decide
  · exact h.unreserved _ (by simp)
  · rw [List.all_eq_true]
    intro c hc
    exact isUnreserved_of_isDigit (mem_toString hc)
  · exact h.unreserved _ (by simp)
  · exact h.unreserved _ (by simp [hpart])
  · cases stream with
    | false => cases hpart
    | true =>
      rw [List.mem_singleton.mp hpart]
      decide

theorem Routable.not_mem {version endpoint : Text} {slot : Nat} {fqoid : List Text}
    (h : Routable version slot endpoint fqoid) (stream : Bool) :
    ∀ part ∈ "st2138-api".toList :: version :: (toString slot).toList :: endpoint ::
      (fqoid ++ streamFlag stream), '/' ∉ part :=
  fun part hpart => not_mem_of_unreserved (h.all_unreserved stream part hpart)

theorem Routable.plainPath {version endpoint : Text} {slot : Nat} {fqoid : List Text}
    (h : Routable version slot endpoint fqoid) (stream : Bool) :
    PlainPath (requestTarget version slot endpoint fqoid stream) := by
  refine ⟨⟨'s', _, rfl, by decide⟩, ?_⟩
  intro c hc
  obtain ⟨part, hpart, hc⟩ := List.mem_flatMap.mp hc
  rcases List.mem_cons.mp hc with rfl | hc
  · exact Or.inl rfl
  · exact Or.inr (List.all_eq_true.mp (h.all_unreserved stream part hpart) c hc)

theorem components_requestTarget {version endpoint : Text} {slot : Nat} {fqoid : List Text}
    (h : Routable version slot endpoint fqoid) (stream : Bool) :
    components (requestTarget version slot endpoint fqoid stream) =
      [] :: "st2138-api".toList :: version :: (toString slot).toList :: endpoint ::
        (fqoid ++ streamFlag stream) :=
  components_slashed (h.not_mem stream)

theorem getLast_target {version endpoint : Text} {slot : Nat} {fqoid : List Text}
    (h : Routable version slot endpoint fqoid) (first : Text) (stream : Bool) :
    (first :: endpoint :: (fqoid ++ streamFlag stream)).getLast? = some "stream".toList ↔
      stream = true := by
  cases stream with
  | true => simp [streamFlag, List.getLast?_cons, List.getLast?_append]
  | false =>
    simp only [streamFlag, Bool.false_eq_true, if_false, List.append_nil, iff_false,
      List.getLast?_cons_cons]
    cases hlast : fqoid.getLast? with
    | none =>
      rw [List.getLast?_eq_none_iff.mp hlast]
      intro hend
      exact h.notStream (Option.some.inj hend)
    | some last =>
      rw [List.getLast?_cons, hlast]
      intro hend
      exact h.lastNotStream (hlast.trans hend)

/-- The parts of a target are taken for what they are. -/
theorem routed_target {version endpoint : Text} {slot : Nat} {fqoid : List Text}
    (h : Routable version slot endpoint fqoid) (stream : Bool) :
    SocketReader.routed (toString slot).toList (endpoint :: (fqoid ++ streamFlag stream)) =
      membersOf slot endpoint fqoid stream := by
  have hlast := getLast_target h (toString slot).toList stream
  have hafter : SocketReader.after (toString slot).toList
      (endpoint :: (fqoid ++ streamFlag stream)) = endpoint :: fqoid := by
    rw [SocketReader.after]
    cases stream with
    | true =>
      rw [if_pos (hlast.mpr rfl), streamFlag, if_pos rfl, ← List.cons_append,
        List.dropLast_concat]
    | false =>
      rw [if_neg (fun hend => Bool.false_ne_true (hlast.mp hend)), streamFlag,
        if_neg Bool.false_ne_true, List.append_nil]
  simp only [SocketReader.routed, stoi_toString h.inRange, hafter, hlast, membersOf]
  have hslot : UInt32.ofInt (Int.ofNat slot) = UInt32.ofNat slot := by
    have hrange := h.inRange
    have hmod : (Int.ofNat slot % 2 ^ 32).toNat = slot := by
      rw [Int.ofNat_eq_natCast]
      omega
    rw [UInt32.ofInt, hmod]
  rw [hslot]
  simp [slashed]

theorem count_slashed {parts : List Text} (h : ∀ part ∈ parts, '/' ∉ part) :
    (slashed parts).count '/' = parts.length := by
  induction parts with
  | nil => rfl
  | cons part parts ih =>
    have hrest := ih fun p hp => h p (List.mem_cons_of_mem _ hp)
    have hpart := List.count_eq_zero_of_not_mem (h part List.mem_cons_self)
    rw [slashed] at hrest
    rw [slashed, List.flatMap_cons, List.count_append, List.count_cons_self, hpart, hrest,
      List.length_cons]
    omega

/-- A path of more than a thousand parts is not routed as it should be. -/
theorem not_routed_of_long {version endpoint : Text} {slot : Nat} {fqoid : List Text}
    {stream : Bool} (h : Routable version slot endpoint fqoid)
    (hlong : 995 < fqoid.length + (streamFlag stream).length) :
    SocketReader.readUrl version (requestTarget version slot endpoint fqoid stream) ≠
      some (membersOf slot endpoint fqoid stream) := by
  have hcomponents := components_requestTarget h stream
  have hmany : 1000 < (components (requestTarget version slot endpoint fqoid stream)).length := by
    rw [hcomponents]
    simp only [List.length_cons, List.length_append]
    omega
  obtain ⟨last, hlast, hsplit⟩ := split_solidus_of_lt hmany
  rw [hcomponents] at hlast hsplit
  have hparts : split (requestTarget version slot endpoint fqoid stream) ['/'] =
      [] :: "st2138-api".toList :: version :: (toString slot).toList ::
        (endpoint :: (fqoid ++ streamFlag stream).take 995 ++ [last]) := hsplit
  have hbehind : '/' :: last = slashed ((fqoid ++ streamFlag stream).drop 994) := hlast
  have hnot : ∀ part ∈ fqoid ++ streamFlag stream, '/' ∉ part := by
    intro part hpart
    apply h.not_mem stream part
    simp only [List.mem_cons]
    exact Or.inr (Or.inr (Or.inr (Or.inr hpart)))
  -- the last part has a solidus, so it is not the stream flag
  have hcount := congrArg (List.count '/') hbehind
  rw [List.count_cons_self, count_slashed fun part hpart => hnot part (List.mem_of_mem_drop hpart),
    List.length_drop, List.length_append] at hcount
  have hflag : ((toString slot).toList ::
      (endpoint :: (fqoid ++ streamFlag stream).take 995 ++ [last])).getLast? ≠
        some "stream".toList := by
    rw [List.cons_append, ← List.cons_append, ← List.cons_append, List.getLast?_concat]
    intro hend
    have hzero : List.count '/' last = 0 := by
      rw [Option.some.inj hend]
      rfl
    omega
  intro hrouted
  rw [SocketReader.readUrl_eq hparts, if_pos ⟨rfl, rfl⟩, Option.some.injEq] at hrouted
  have hstream := congrArg SocketReader.stream hrouted
  have hfqoid := congrArg SocketReader.fqoid hrouted
  simp only [SocketReader.routed, stoi_toString h.inRange, SocketReader.after, hflag, if_false,
    membersOf, decide_false] at hstream hfqoid
  obtain rfl : stream = false := hstream.symm
  have hnone : fqoid ++ streamFlag false = fqoid := List.append_nil fqoid
  rw [hnone] at hfqoid hbehind hnot
  have htail : slashed (fqoid.take 995 ++ [last]) = slashed fqoid := hfqoid
  have hagain := congrArg (List.count '/') htail
  rw [slashed, List.flatMap_append, List.flatMap_singleton, List.count_append, hbehind] at hagain
  rw [show (fqoid.take 995).flatMap ('/' :: ·) = slashed (fqoid.take 995) from rfl,
    count_slashed fun part hpart => hnot part (List.mem_of_mem_take hpart),
    count_slashed fun part hpart => hnot part (List.mem_of_mem_drop hpart), count_slashed hnot,
    List.length_take, List.length_drop] at hagain
  have hlen : 995 < fqoid.length := hlong
  omega

/-- A target is routed exactly if `catena::split` reaches its end. -/
theorem routed_iff {version endpoint : Text} {slot : Nat} {fqoid : List Text} {stream : Bool}
    (h : Routable version slot endpoint fqoid) :
    SocketReader.readUrl version (requestTarget version slot endpoint fqoid stream) =
        some (membersOf slot endpoint fqoid stream) ↔
      fqoid.length + stream.toNat ≤ 995 := by
  have hflag : (streamFlag stream).length = stream.toNat := by cases stream <;> rfl
  rw [← hflag]
  constructor
  · intro hrouted
    by_contra hlong
    exact not_routed_of_long h (Nat.lt_of_not_le hlong) hrouted
  · intro hshort
    have hcomponents := components_requestTarget h stream
    have hfew : (components (requestTarget version slot endpoint fqoid stream)).length ≤ 1000 := by
      rw [hcomponents]
      simp only [List.length_cons, List.length_append]
      omega
    have hsplit : split (requestTarget version slot endpoint fqoid stream) ['/'] =
        [] :: _ :: _ :: _ :: endpoint :: _ :=
      (split_solidus_of_le hfew).trans hcomponents
    rw [SocketReader.readUrl_eq hsplit, if_pos ⟨rfl, rfl⟩, routed_target h stream]

/-! ## The fourth component -/

theorem take_split_solidus (text : Text) :
    (split text ['/']).take 1000 = (components text).take 1000 :=
  Common.take_split (List.cons_ne_nil _ _) (pieces_components text)

theorem getElem?_split_solidus (text : Text) : (split text ['/'])[3]? = (components text)[3]? := by
  have htake := congrArg (·[3]?) (take_split_solidus text)
  simpa [List.getElem?_take] using htake

/-- The fourth component is the endpoint unless `std::stoi` reads it. -/
theorem slotOnlyIfDigits_iff (version path : Text) :
    SlotOnlyIfDigits version path ↔
      ∀ component, (components path)[3]? = some component →
        (SocketReader.readUrl version path).isSome = true →
          IsDigits component ∨ stoi component = none := by
  constructor
  · intro h component hcomponent hread
    obtain ⟨reader, hreader⟩ := Option.isSome_iff_exists.mp hread
    rw [or_iff_not_imp_left]
    intro hdigits
    obtain ⟨hslot, hendpoint, hfqoid⟩ := h reader component hreader hcomponent hdigits
    obtain ⟨first, component', rest, hsplit, rfl⟩ := SocketReader.readUrl_iff.mp hreader
    have hfourth := getElem?_split_solidus path
    rw [hsplit, hcomponent] at hfourth
    obtain rfl : component' = component := Option.some.inj hfourth
    rw [hsplit] at hfqoid
    cases hstoi : stoi component' with
    | none => rfl
    | some value =>
      simp only [SocketReader.routed, hstoi, List.drop_succ_cons, List.drop_zero] at hendpoint hfqoid
      -- the endpoint would be taken from the fqoid, and missing there
      have hwhole : slashed (SocketReader.after component' rest) =
          slashed ((SocketReader.after component' rest).take 1) ++
            slashed ((SocketReader.after component' rest).drop 1) := by
        rw [slashed, slashed, slashed, ← List.flatMap_append, List.take_append_drop]
      rw [hfqoid, hendpoint] at hwhole
      have hlength := congrArg List.length hwhole
      rw [List.length_append, List.length_cons] at hlength
      omega
  · intro h reader component hreader hcomponent hdigits
    obtain ⟨first, component', rest, hsplit, rfl⟩ := SocketReader.readUrl_iff.mp hreader
    have hfourth := getElem?_split_solidus path
    rw [hsplit, hcomponent] at hfourth
    obtain rfl : component' = component := Option.some.inj hfourth
    have hstoi : stoi component' = none :=
      (h component' hcomponent (by rw [hreader]; rfl)).resolve_left hdigits
    simp only [SocketReader.routed, hstoi, hsplit, List.drop_succ_cons, List.drop_zero, and_self]

/-- Requests are routed as they are built as long as their path has a thousand parts at most, and
the fourth component is only taken for a slot if it consists of digits or begins with a number
that `std::stoi` reads. `urlPath` is the decoded path of a URL. -/
theorem routing_faithful_iff (urlPath : Text → Option Text)
    (hurl : ∀ text, PlainPath text → urlPath text = some text) (version : Text) :
    (∀ slot endpoint fqoid stream, Routable version slot endpoint fqoid →
      ((urlPath (requestTarget version slot endpoint fqoid stream)).bind
          (SocketReader.readUrl version) = some (membersOf slot endpoint fqoid stream) ↔
        fqoid.length + stream.toNat ≤ 995)) ∧
    ∀ path, SlotOnlyIfDigits version path ↔
      ∀ component, (components path)[3]? = some component →
        (SocketReader.readUrl version path).isSome = true →
          IsDigits component ∨ stoi component = none := by
  refine ⟨?_, slotOnlyIfDigits_iff version⟩
  intro slot endpoint fqoid stream h
  rw [hurl _ (h.plainPath stream), Option.bind_some, routed_iff h]

/-- A parameter of the device in slot 1 is requested as a stream. -/
theorem routing_faithful_iff_value :
    (∀ text, PlainPath text → some text = some text) ∧
      Routable "v1".toList 1 "value".toList ["a".toList, "b".toList] ∧
      (SocketReader.readUrl "v1".toList
          (requestTarget "v1".toList 1 "value".toList ["a".toList, "b".toList] true) =
        some (membersOf 1 "value".toList ["a".toList, "b".toList] true) ↔
          ["a".toList, "b".toList].length + true.toNat ≤ 995) := by
  have h : Routable "v1".toList 1 "value".toList ["a".toList, "b".toList] :=
    ⟨by decide, by decide, by decide, by decide, by decide⟩
  exact ⟨fun _ _ => rfl, h,
    (routing_faithful_iff some (fun _ _ => rfl) "v1".toList).1 1 _ _ true h⟩

/-- An fqoid of 996 segments is garbled, and `1a` is taken for slot 1. -/
theorem long_path_misrouted :
    (Routable "v1".toList 1 "value".toList (List.replicate 996 ['a']) ∧
      SocketReader.readUrl "v1".toList
          (requestTarget "v1".toList 1 "value".toList (List.replicate 996 ['a']) false) ≠
        some (membersOf 1 "value".toList (List.replicate 996 ['a']) false)) ∧
    ¬SlotOnlyIfDigits "v1".toList "/st2138-api/v1/1a/value/x".toList := by
  have h : Routable "v1".toList 1 "value".toList (List.replicate 996 ['a']) := by
    refine ⟨by decide, by decide, by decide, ?_, ?_⟩
    · rw [List.getLast?_replicate, if_neg (by decide)]
      decide
    · intro part hpart
      simp only [List.mem_cons, List.mem_replicate] at hpart
      rcases hpart with rfl | rfl | ⟨-, rfl⟩ <;> decide
  refine ⟨⟨h, not_routed_of_long h ?_⟩, ?_⟩
  · rw [List.length_replicate]
    decide
  · intro hdigits
    have hslot := (hdigits _ "1a".toList rfl rfl (by simp [IsDigits])).1
    cases hslot

end Catena.Rpc
