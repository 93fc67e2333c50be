import Catena.Framework.FilePath
import Mathlib.Data.List.Infix

/-!
# The texts of JSON

The grammar of JSON, and a scanner that counts the brackets outside of strings. A text of the
grammar closes the brackets that it opens, so what is cut off inside an object is no text of the
grammar.
-/

namespace Catena.Framework

theorem prefix_append_cases {α : Type} {p l l' : List α} (hp : p <+: l ++ l') :
    p <+: l ∨ ∃ q, p = l ++ q ∧ q <+: l' := by
  rcases List.prefix_or_prefix_of_prefix hp (List.prefix_append l l') with h | ⟨q, rfl⟩
  · exact Or.inl h
  · exact Or.inr ⟨q, rfl, (List.prefix_append_right_inj l).mp hp⟩

namespace JsonText

def IsSpace (text : Text) : Prop := ∀ c ∈ text, c ∈ [' ', '\t', '\n', '\r']

/-- What stands between the quotes of a string. -/
inductive IsChars : Text → Prop
  | nil : IsChars []
  | plain {c : Char} {text : Text} : 0x20 ≤ c.toNat → c ≠ '"' → c ≠ '\\' → IsChars text →
      IsChars (c :: text)
  | escape {c : Char} {text : Text} : c ∈ ['"', '\\', '/', 'b', 'f', 'n', 'r', 't'] →
      IsChars text → IsChars ('\\' :: c :: text)
  | unicode {digits text : Text} : digits.length = 4 →
      (∀ c ∈ digits, c ∈ "0123456789abcdefABCDEF".toList) → IsChars text →
      IsChars ('\\' :: 'u' :: digits ++ text)

def IsString (text : Text) : Prop := ∃ chars, IsChars chars ∧ text = '"' :: chars ++ ['"']

def IsDigits (text : Text) : Prop := text ≠ [] ∧ ∀ c ∈ text, c ∈ "0123456789".toList

/-- A number: a sign, an integer without leading zeros, a fraction and an exponent. -/
def IsNumber (text : Text) : Prop :=
  ∃ sign int frac exp : Text, text = sign ++ int ++ frac ++ exp ∧ (sign = [] ∨ sign = ['-']) ∧
    IsDigits int ∧ (int.head? = some '0' → int = ['0']) ∧
    (frac = [] ∨ ∃ digits, IsDigits digits ∧ frac = '.' :: digits) ∧
    (exp = [] ∨ ∃ e sign digits, e ∈ ['e', 'E'] ∧ sign ∈ [[], ['+'], ['-']] ∧ IsDigits digits ∧
      exp = e :: sign ++ digits)

inductive Symbol where
  | element
  | value
  | elements
  | members
  | member

/-- The grammar. An element is a value with white space around it, and so is a whole text. -/
inductive Derives : Symbol → Text → Prop
  | element {left value right : Text} : IsSpace left → Derives .value value → IsSpace right →
      Derives .element (left ++ value ++ right)
  | literal {text : Text} : text ∈ ["null".toList, "true".toList, "false".toList] →
      Derives .value text
  | number {text : Text} : IsNumber text → Derives .value text
  | string {text : Text} : IsString text → Derives .value text
  | emptyArray {space : Text} : IsSpace space → Derives .value ('[' :: space ++ [']'])
  | array {items : Text} : Derives .elements items → Derives .value ('[' :: items ++ [']'])
  | emptyObject {space : Text} : IsSpace space → Derives .value ('\x7b' :: space ++ ['\x7d'])
  | object {entries : Text} : Derives .members entries →
      Derives .value ('\x7b' :: entries ++ ['\x7d'])
  | lastElement {item : Text} : Derives .element item → Derives .elements item
  | nextElement {item items : Text} : Derives .element item → Derives .elements items →
      Derives .elements (item ++ ',' :: items)
  | lastMember {entry : Text} : Derives .member entry → Derives .members entry
  | nextMember {entry entries : Text} : Derives .member entry → Derives .members entries →
      Derives .members (entry ++ ',' :: entries)
  | member {left name right value : Text} : IsSpace left → IsString name → IsSpace right →
      Derives .element value → Derives .member (left ++ name ++ right ++ ':' :: value)

/-! ## The scanner -/

inductive Mode where
  | outside
  | string
  | escape
  deriving DecidableEq

structure Scan where
  depth : Int
  mode : Mode

def Scan.next (s : Scan) (c : Char) : Scan :=
  match s.mode with
  | .escape => { s with mode := .string }
  | .string =>
      if c = '\\' then { s with mode := .escape }
      else if c = '"' then { s with mode := .outside }
      else s
  | .outside =>
      if c = '"' then { s with mode := .string }
      else if c = '\x7b' ∨ c = '[' then { s with depth := s.depth + 1 }
      else if c = '\x7d' ∨ c = ']' then { s with depth := s.depth - 1 }
      else s

def Scan.run (s : Scan) (text : Text) : Scan := text.foldl Scan.next s

theorem Scan.run_append (s : Scan) (text text' : Text) :
    s.run (text ++ text') = (s.run text).run text' := List.foldl_append

theorem Scan.run_cons (s : Scan) (c : Char) (text : Text) :
    s.run (c :: text) = (s.next c).run text := rfl

/-- The text closes all it opens, and nothing that was open before. -/
def Closed (m : Mode) (text : Text) : Prop :=
  ∀ d, (Scan.mk d m).run text = ⟨d, m⟩ ∧ ∀ p, p <+: text → d ≤ ((Scan.mk d m).run p).depth

namespace Closed

variable {m m' : Mode} {text text' : Text}

theorem nil (m : Mode) : Closed m [] := by
  refine fun d => ⟨rfl, fun p hp => ?_⟩
  rw [List.prefix_nil.mp hp]
  exact Int.le_refl d

theorem append (h : Closed m text) (h' : Closed m text') : Closed m (text ++ text') := by
  refine fun d => ⟨?_, fun p hp => ?_⟩
  · rw [Scan.run_append, (h d).1, (h' d).1]
  · rcases prefix_append_cases hp with hp | ⟨q, rfl, hq⟩
    · exact (h d).2 p hp
    · rw [Scan.run_append, (h d).1]
      exact (h' d).2 q hq

section Enclose

variable {o c : Char} {k : Int}

theorem depth_inside (hopen : ∀ d, (Scan.mk d m).next o = ⟨d + k, m'⟩) (h : Closed m' text)
    (d : Int) {p : Text} (hp : p <+: o :: text ++ [c]) (hnil : p ≠ [])
    (hall : p ≠ o :: text ++ [c]) :
    d + k ≤ ((Scan.mk d m).run p).depth := by
  cases p with
  | nil => exact absurd rfl hnil
  | cons o' q =>
    obtain ⟨rfl, hq⟩ := List.cons_prefix_cons.mp hp
    rw [Scan.run_cons, hopen]
    refine (h (d + k)).2 q ((List.prefix_concat_iff.mp hq).resolve_left fun hend => hall ?_)
    exact congrArg (o' :: ·) hend

theorem enclose (hk : 0 ≤ k) (hopen : ∀ d, (Scan.mk d m).next o = ⟨d + k, m'⟩)
    (hclose : ∀ d, (Scan.mk (d + k) m').next c = ⟨d, m⟩) (h : Closed m' text) :
    Closed m (o :: text ++ [c]) := by
  have hend : ∀ d, (Scan.mk d m).run (o :: text ++ [c]) = ⟨d, m⟩ := by
    intro d
    rw [List.cons_append, Scan.run_cons, hopen, Scan.run_append, (h (d + k)).1]
    exact hclose d
  refine fun d => ⟨hend d, fun p hp => ?_⟩
  by_cases hnil : p = []
  · rw [hnil]
    exact Int.le_refl d
  by_cases hall : p = o :: text ++ [c]
  · subst hall
    exact Int.le_of_eq (congrArg Scan.depth (hend d)).symm
  · have hdepth := depth_inside hopen h d hp hnil hall
    omega

end Enclose

theorem singleton {c : Char} (hc : ∀ d, (Scan.mk d m).next c = ⟨d, m⟩) : Closed m [c] := by
  refine fun d => ⟨hc d, fun p hp => ?_⟩
  rcases List.prefix_cons_iff.mp hp with rfl | ⟨q, rfl, hq⟩
  · exact Int.le_refl d
  · rw [List.prefix_nil.mp hq, Scan.run_cons, hc]
    exact Int.le_refl d

theorem of_forall (h : ∀ c ∈ text, ∀ d, (Scan.mk d m).next c = ⟨d, m⟩) : Closed m text := by
  induction text with
  | nil => exact nil m
  | cons c text ih =>
    have hrest := ih fun x hx => h x (List.mem_cons_of_mem c hx)
    exact (singleton (h c List.mem_cons_self)).append hrest

end Closed

def Neutral (c : Char) : Prop := c ∉ ['"', '\x7b', '\x7d', '[', ']']

instance (c : Char) : Decidable (Neutral c) :=
  inferInstanceAs (Decidable (c ∉ ['"', '\x7b', '\x7d', '[', ']']))

theorem next_neutral {c : Char} (hc : Neutral c) (d : Int) :
    (Scan.mk d .outside).next c = ⟨d, .outside⟩ := by
  simp only [Neutral, List.mem_cons, List.not_mem_nil, or_false, not_or] at hc
  simp [Scan.next, hc]

theorem closed_of_neutral {text : Text} (h : ∀ c ∈ text, Neutral c) : Closed .outside text :=
  Closed.of_forall fun c hc => next_neutral (h c hc)

theorem IsSpace.closed {text : Text} (h : IsSpace text) : Closed .outside text := by
  have hneutral : ∀ c ∈ [' ', '\t', '\n', '\r'], Neutral c := by simp [Neutral]
  exact closed_of_neutral fun c hc => hneutral c (h c hc)

theorem IsDigits.neutral {text : Text} (h : IsDigits text) : ∀ c ∈ text, Neutral c := by
  have hneutral : ∀ c ∈ "0123456789".toList, Neutral c := by simp [Neutral]
  exact fun c hc => hneutral c (h.2 c hc)

theorem IsNumber.closed {text : Text} (h : IsNumber text) : Closed .outside text := by
  obtain ⟨sign, int, frac, exp, rfl, hsign, hint, _, hfrac, hexp⟩ := h
  refine ((Closed.append ?_ (closed_of_neutral hint.neutral)).append ?_).append ?_
  · rcases hsign with rfl | rfl
    · exact Closed.nil _
    · exact closed_of_neutral (by simp [Neutral])
  · rcases hfrac with rfl | ⟨digits, hdigits, rfl⟩
    · exact Closed.nil _
    · have hpoint : Closed .outside ['.'] := Closed.singleton (next_neutral (by decide))
      exact hpoint.append (closed_of_neutral hdigits.neutral)
  · rcases hexp with rfl | ⟨e, sign, digits, he, hsign, hdigits, rfl⟩
    · exact Closed.nil _
    · have hletter : ∀ e ∈ ['e', 'E'], Neutral e := by simp [Neutral]
      have hsigns : ∀ sign ∈ [[], ['+'], ['-']], ∀ c ∈ sign, Neutral c := by
        simp [Neutral]
      have hfirst : Closed .outside [e] := Closed.singleton (next_neutral (hletter e he))
      exact (hfirst.append (closed_of_neutral (hsigns sign hsign))).append
        (closed_of_neutral hdigits.neutral)

theorem next_plain {c : Char} (hquote : c ≠ '"') (hslash : c ≠ '\\') (d : Int) :
    (Scan.mk d .string).next c = ⟨d, .string⟩ := by
  simp [Scan.next, hquote, hslash]

theorem closed_escape (c : Char) : Closed .string ['\\', c] := by
  refine fun d => ⟨rfl, fun p hp => ?_⟩
  rcases List.prefix_cons_iff.mp hp with rfl | ⟨q, rfl, hq⟩
  · exact Int.le_refl d
  · rcases List.prefix_cons_iff.mp hq with rfl | ⟨r, rfl, hr⟩
    · exact Int.le_refl d
    · rw [List.prefix_nil.mp hr]
      exact Int.le_refl d

theorem IsChars.closed {text : Text} (h : IsChars text) : Closed .string text := by
  induction h with
  | nil => exact Closed.nil _
  | plain _ hquote hslash _ ih => exact (Closed.singleton (next_plain hquote hslash)).append ih
  | escape _ _ ih => exact (closed_escape _).append ih
  | unicode _ hdigits _ ih =>
    have hplain : ∀ c ∈ "0123456789abcdefABCDEF".toList, c ≠ '"' ∧ c ≠ '\\' := by simp
    have hfour := Closed.of_forall fun c hc =>
      next_plain (hplain c (hdigits c hc)).1 (hplain c (hdigits c hc)).2
    exact ((closed_escape 'u').append hfour).append ih

theorem IsString.closed {text : Text} (h : IsString text) : Closed .outside text := by
  obtain ⟨chars, hchars, rfl⟩ := h
  exact Closed.enclose (k := 0) (Int.le_refl 0) (fun d => by simp [Scan.next])
    (fun d => by simp [Scan.next]) hchars.closed

theorem next_openBrace (d : Int) : (Scan.mk d .outside).next '\x7b' = ⟨d + 1, .outside⟩ := rfl

theorem next_closeBrace (d : Int) : (Scan.mk (d + 1) .outside).next '\x7d' = ⟨d, .outside⟩ := by
  simp [Scan.next]

theorem closed_array {text : Text} (h : Closed .outside text) :
    Closed .outside ('[' :: text ++ [']']) :=
  Closed.enclose (by decide) (fun _ => rfl) (fun d => by simp [Scan.next]) h

theorem closed_object {text : Text} (h : Closed .outside text) :
    Closed .outside ('\x7b' :: text ++ ['\x7d']) :=
  Closed.enclose (by decide) next_openBrace next_closeBrace h

/-- A text of the grammar closes all it opens. -/
theorem Derives.closed {symbol : Symbol} {text : Text} (h : Derives symbol text) :
    Closed .outside text := by
  have hcomma : Closed .outside [','] := Closed.singleton (next_neutral (by decide))
  have hcolon : Closed .outside [':'] := Closed.singleton (next_neutral (by decide))
  induction h with
  | element hleft _ hright ih => exact (hleft.closed.append ih).append hright.closed
  | literal htext =>
    have hneutral : ∀ t ∈ ["null".toList, "true".toList, "false".toList], ∀ c ∈ t, Neutral c := by
      simp [Neutral]
    exact closed_of_neutral (hneutral _ htext)
  | number hnumber => exact hnumber.closed
  | string hstring => exact hstring.closed
  | emptyArray hspace => exact closed_array hspace.closed
  | array _ ih => exact closed_array ih
  | emptyObject hspace => exact closed_object hspace.closed
  | object _ ih => exact closed_object ih
  | lastElement _ ih => exact ih
  | nextElement _ _ ih ih' => exact ih.append (hcomma.append ih')
  | lastMember _ ih => exact ih
  | nextMember _ _ ih ih' => exact ih.append (hcomma.append ih')
  | member hleft hname hright _ ih =>
    exact ((hleft.closed.append hname.closed).append hright.closed).append (hcolon.append ih)

theorem IsNumber.head_ne {text : Text} (h : IsNumber text) :
    ∃ c rest, text = c :: rest ∧ c ≠ '\x7b' := by
  obtain ⟨sign, int, frac, exp, rfl, hsign, ⟨hint, hdigits⟩, _⟩ := h
  have hdigit : ∀ c ∈ "0123456789".toList, c ≠ '\x7b' := by simp
  rcases hsign with rfl | rfl
  · obtain ⟨c, int, rfl⟩ := List.exists_cons_of_ne_nil hint
    exact ⟨c, _, rfl, hdigit c (hdigits c List.mem_cons_self)⟩
  · exact ⟨'-', _, rfl, by decide⟩

theorem Derives.head {text : Text} (h : Derives .value text) :
    ∃ c rest, text = c :: rest ∧
      (c = '\x7b' → ∃ body, Closed .outside body ∧ text = '\x7b' :: body ++ ['\x7d']) := by
  cases h with
  | literal htext =>
    have hliteral : ∀ t ∈ ["null".toList, "true".toList, "false".toList],
        ∃ c, t.head? = some c ∧ c ≠ '\x7b' := by
      simp
    obtain ⟨c, hc, hne⟩ := hliteral text htext
    obtain ⟨rest, hrest⟩ := List.head?_eq_some_iff.mp hc
    exact ⟨c, rest, hrest, fun hbrace => absurd hbrace hne⟩
  | number hnumber =>
    obtain ⟨c, rest, htext, hne⟩ := hnumber.head_ne
    exact ⟨c, rest, htext, fun hbrace => absurd hbrace hne⟩
  | string hstring =>
    obtain ⟨chars, _, rfl⟩ := hstring
    exact ⟨'"', _, rfl, fun hbrace => absurd hbrace (by decide)⟩
  | emptyArray _ => exact ⟨'[', _, rfl, fun hbrace => absurd hbrace (by decide)⟩
  | array _ => exact ⟨'[', _, rfl, fun hbrace => absurd hbrace (by decide)⟩
  | emptyObject hspace => exact ⟨'\x7b', _, rfl, fun _ => ⟨_, hspace.closed, rfl⟩⟩
  | object hentries => exact ⟨'\x7b', _, rfl, fun _ => ⟨_, hentries.closed, rfl⟩⟩

theorem not_derives_nil : ¬Derives .element [] := by
  intro h
  generalize htext : ([] : Text) = text at h
  cases h with
  | element _ hvalue _ =>
    obtain ⟨c, rest, rfl, _⟩ := hvalue.head
    simp at htext

theorem depth_next {c : Char} (hc : Neutral c) (s : Scan) : (s.next c).depth = s.depth := by
  obtain ⟨d, m⟩ := s
  cases m with
  | outside => rw [next_neutral hc]
  | string =>
    simp only [Scan.next]
    split
    · rfl
    · split <;> rfl
  | escape => rfl

theorem Derives.cut_object {text p : Text} (h : Derives .value text)
    (hbrace : text.head? = some '\x7b') (hp : p <+: text) (hne : p ≠ text) :
    ¬Derives .element p ∧ (p ≠ [] → ∀ c, Neutral c → ¬Derives .element (p ++ [c])) := by
  obtain ⟨first, rest, htext, hobject⟩ := h.head
  rw [htext] at hbrace
  obtain ⟨body, hbody, rfl⟩ := hobject (Option.some.inj hbrace)
  have hinside : p ≠ [] → 1 ≤ ((Scan.mk 0 .outside).run p).depth :=
    fun hnil => Closed.depth_inside next_openBrace hbody 0 hp hnil hne
  refine ⟨fun hderives => ?_, fun hnil c hc hderives => ?_⟩
  · by_cases hnil : p = []
    · exact not_derives_nil (hnil ▸ hderives)
    · have hdepth := hinside hnil
      rw [(hderives.closed 0).1] at hdepth
      exact absurd hdepth (by decide)
  · have hdepth := hinside hnil
    have hend := (hderives.closed 0).1
    rw [Scan.run_append] at hend
    rw [← depth_next hc, show Scan.next _ c = _ from hend] at hdepth
    exact absurd hdepth (by decide)

end JsonText

end Catena.Framework
