import Mathlib.Data.List.DropRight
import Mathlib.Data.List.Infix

/-!
# HTTP messages on a connection

A client reads the messages on a connection character by character: the lines of a head up to the
blank line, and then as many characters as the head declares. A message whose head declares no
length goes on until the connection is closed.
-/

namespace Catena.Framework.Http

/-- A message as its sender writes it. -/
structure Message where
  startLine : List Char
  headers : List (List Char × List Char)
  body : List Char := []

def crlf : List Char := ['\r', '\n']

def headerLine (h : List Char × List Char) : List Char := h.1 ++ ':' :: ' ' :: h.2

namespace Message

def lines (m : Message) : List (List Char) := m.startLine :: m.headers.map headerLine

/-- The lines, each with its end, the blank line and the body. -/
def text (m : Message) : List Char := m.lines.flatMap (· ++ crlf) ++ crlf ++ m.body

end Message

/-! ## The client -/

def isBlank (c : Char) : Bool := c = ' ' || c = '\t'

/-- The name and the value of a header line, without the blanks around the value. -/
def header (line : List Char) : Option (List Char × List Char) :=
  match line.span (· ≠ ':') with
  | (_, []) => none
  | (name, _ :: value) => some (name, (value.dropWhile isBlank).rdropWhile isBlank)

def declared (headers : List (List Char × List Char)) : Option Nat :=
  (headers.lookup "Content-Length".toList).map fun value => Nat.ofDigitChars 10 value 0

/-- Where the client is: in a head, or in a body of which so much is missing. -/
inductive Phase where
  | head (lines : List (List Char)) (line : List Char)
  | body (message : Message) (missing : Option Nat)

structure Client where
  messages : List Message := []
  phase : Phase := .head [] []

namespace Client

def enterBody (s : Client) (lines : List (List Char)) : Client :=
  let message : Message := ⟨lines.headD [], lines.tail.filterMap header, []⟩
  match declared message.headers with
  | some 0 => { messages := s.messages ++ [message] }
  | missing => { s with phase := .body message missing }

def feedBody (s : Client) (message : Message) (missing : Option Nat) (c : Char) : Client :=
  let message := { message with body := message.body ++ [c] }
  match missing with
  | some 1 => { messages := s.messages ++ [message] }
  | missing => { s with phase := .body message (missing.map (· - 1)) }

def feed (s : Client) (c : Char) : Client :=
  match s.phase with
  | .head lines line =>
      if c = '\n' then
        let line := line.rdropWhile (· = '\r')
        if line = [] then s.enterBody lines else { s with phase := .head (lines ++ [line]) [] }
      else { s with phase := .head lines (line ++ [c]) }
  | .body message missing => s.feedBody message missing c

end Client

def read (text : List Char) : Client := text.foldl Client.feed {}

theorem read_append (text more : List Char) :
    read (text ++ more) = more.foldl Client.feed (read text) := by
  rw [read, read, List.foldl_append]

/-! ## Reading what has been written -/

/-- A line can be told from the blank line and from the next one. -/
def IsLine (line : List Char) : Prop :=
  line ≠ [] ∧ '\n' ∉ line ∧ line.getLast?.all fun c => !decide (c = '\r')

/-- A header that is a line and that can be taken apart. -/
def IsHeader (h : List Char × List Char) : Prop :=
  ':' ∉ h.1 ∧ '\n' ∉ h.1 ∧ '\n' ∉ h.2 ∧ h.2.head?.all (!isBlank ·) ∧
    h.2.getLast?.all fun c => !(isBlank c || decide (c = '\r'))

instance : DecidablePred IsHeader := fun _ => inferInstanceAs (Decidable (_ ∧ _ ∧ _ ∧ _ ∧ _))

structure Message.Readable (m : Message) : Prop where
  start : IsLine m.startLine
  headers : ∀ h ∈ m.headers, IsHeader h

theorem dropWhile_of_head {p : Char → Bool} {l : List Char} (h : l.head?.all (!p ·)) :
    l.dropWhile p = l := by
  cases l with
  | nil => rfl
  | cons c l => exact List.dropWhile_cons_of_neg (by simpa using h)

theorem rdropWhile_of_getLast {p : Char → Bool} {l : List Char} (h : l.getLast?.all (!p ·)) :
    l.rdropWhile p = l := by
  rw [List.rdropWhile, dropWhile_of_head, List.reverse_reverse]
  rwa [List.head?_reverse]

theorem header_headerLine {h : List Char × List Char} (hh : IsHeader h) :
    header (headerLine h) = some h := by
  obtain ⟨hcolon, _, _, hfirst, hlast⟩ := hh
  have hall : ∀ c ∈ h.1, decide (c ≠ ':') = true := by
    intro c hc
    apply decide_eq_true
    rintro rfl
    exact hcolon hc
  have hspan : (headerLine h).span (· ≠ ':') = (h.1, ':' :: ' ' :: h.2) := by
    rw [headerLine, List.span_eq_takeWhile_dropWhile, List.takeWhile_append_of_pos hall,
      List.dropWhile_append_of_pos hall]
    simp
  have hdrop : (' ' :: h.2).dropWhile isBlank = h.2 := by
    rw [List.dropWhile_cons_of_pos rfl, dropWhile_of_head hfirst]
  have hend : h.2.rdropWhile isBlank = h.2 := by
    apply rdropWhile_of_getLast
    cases hlast' : h.2.getLast? with
    | none => rfl
    | some c =>
      rw [hlast'] at hlast
      simp only [Option.all_some, Bool.not_or, Bool.and_eq_true] at hlast ⊢
      exact hlast.1
  rw [header, hspan]
  simp only [hdrop, hend]

theorem isLine_headerLine {h : List Char × List Char} (hh : IsHeader h) :
    IsLine (headerLine h) := by
  obtain ⟨_, hname, hvalue, _, hlast⟩ := hh
  refine ⟨by simp [headerLine], ?_, ?_⟩
  · simp only [headerLine, List.mem_append, List.mem_cons, not_or]
    exact ⟨hname, by decide, by decide, hvalue⟩
  · rw [headerLine]
    cases hlast' : h.2.getLast? with
    | none =>
      rw [List.getLast?_eq_none_iff.mp hlast']
      simp
    | some c =>
      rw [hlast'] at hlast
      simp only [Option.all_some, Bool.not_or, Bool.and_eq_true] at hlast
      simpa [List.getLast?_append, List.getLast?_cons, hlast'] using hlast.2

namespace Client

theorem foldl_line {line : List Char} (h : '\n' ∉ line) (messages : List Message)
    (lines : List (List Char)) (seen : List Char) :
    line.foldl feed { messages, phase := .head lines seen } =
      { messages, phase := .head lines (seen ++ line) } := by
  induction line generalizing seen with
  | nil => simp
  | cons c line ih =>
    rw [List.mem_cons, not_or] at h
    have hfeed : feed { messages, phase := .head lines seen } c =
        { messages, phase := .head lines (seen ++ [c]) } := by
      simp only [feed, if_neg (Ne.symm h.1)]
    rw [List.foldl_cons, hfeed, ih h.2, List.append_assoc]
    rfl

theorem foldl_isLine {line : List Char} (h : IsLine line) (messages : List Message)
    (lines : List (List Char)) :
    (line ++ crlf).foldl feed { messages, phase := .head lines [] } =
      { messages, phase := .head (lines ++ [line]) [] } := by
  obtain ⟨hne, hlf, hcr⟩ := h
  have hstrip : (line ++ ['\r']).rdropWhile (· = '\r') = line := by
    rw [List.rdropWhile_concat_pos _ _ _ (by simp)]
    exact rdropWhile_of_getLast hcr
  have hcrLine : '\n' ∉ line ++ ['\r'] := by
    rw [List.mem_append, not_or]
    exact ⟨hlf, by decide⟩
  have hsplit : line ++ crlf = (line ++ ['\r']) ++ ['\n'] := by
    rw [List.append_assoc]
    rfl
  rw [hsplit, List.foldl_append, foldl_line hcrLine, List.nil_append]
  simp only [List.foldl_cons, List.foldl_nil, feed, if_true, hstrip, if_neg hne]

theorem foldl_lines {ls : List (List Char)} (h : ∀ l ∈ ls, IsLine l) (messages : List Message)
    (lines : List (List Char)) :
    (ls.flatMap (· ++ crlf)).foldl feed { messages, phase := .head lines [] } =
      { messages, phase := .head (lines ++ ls) [] } := by
  induction ls generalizing lines with
  | nil => simp
  | cons l ls ih =>
    rw [List.flatMap_cons, List.foldl_append, foldl_isLine (h l List.mem_cons_self),
      ih fun l' hl' => h l' (List.mem_cons_of_mem l hl'), List.append_assoc]
    rfl

theorem foldl_head {m : Message} (h : m.Readable) (messages : List Message) :
    (m.lines.flatMap (· ++ crlf) ++ crlf).foldl feed { messages } =
      enterBody { messages, phase := .head m.lines ['\r'] } m.lines := by
  have hlines : ∀ l ∈ m.lines, IsLine l := by
    intro l hl
    rcases List.mem_cons.mp hl with rfl | hl
    · exact h.start
    · obtain ⟨header, hheader, rfl⟩ := List.mem_map.mp hl
      exact isLine_headerLine (h.headers header hheader)
  rw [List.foldl_append, foldl_lines hlines, List.nil_append]
  rfl

theorem enterBody_lines {m : Message} (h : m.Readable) (s : Client) :
    s.enterBody m.lines =
      match declared m.headers with
      | some 0 => { messages := s.messages ++ [{ m with body := [] }] }
      | missing => { s with phase := .body { m with body := [] } missing } := by
  have hheaders : (m.headers.map headerLine).filterMap header = m.headers := by
    rw [List.filterMap_map]
    have hsome : ∀ x ∈ m.headers, (header ∘ headerLine) x = some x := fun x hx =>
      header_headerLine (h.headers x hx)
    rw [List.filterMap_congr hsome, List.filterMap_some]
  simp only [enterBody, Message.lines, List.headD_cons, List.tail_cons, hheaders]

theorem foldl_body (messages : List Message) {body : List Char} (hbody : body ≠ [])
    (m : Message) :
    body.foldl feed { messages, phase := .body m (some body.length) } =
      { messages := messages ++ [{ m with body := m.body ++ body }] } := by
  induction body generalizing m with
  | nil => exact absurd rfl hbody
  | cons c body ih =>
    cases body with
    | nil => rfl
    | cons c' body =>
      have hfeed : feed { messages, phase := .body m (some (c :: c' :: body).length) } c =
          { messages, phase := .body { m with body := m.body ++ [c] }
              (some (c' :: body).length) } := rfl
      rw [List.foldl_cons, hfeed, ih (List.cons_ne_nil _ _)]
      simp

theorem foldl_open (messages : List Message) (body : List Char) (m : Message) :
    body.foldl feed { messages, phase := .body m none } =
      { messages, phase := .body { m with body := m.body ++ body } none } := by
  induction body generalizing m with
  | nil => simp
  | cons c body ih =>
    have hfeed : feed { messages, phase := .body m none } c =
        { messages, phase := .body { m with body := m.body ++ [c] } none } := rfl
    rw [List.foldl_cons, hfeed, ih]
    simp

end Client

/-- A message that declares its length is read back, whatever follows it. -/
theorem foldl_text {m : Message} (h : m.Readable)
    (hlength : declared m.headers = some m.body.length) (messages : List Message) :
    m.text.foldl Client.feed { messages } = { messages := messages ++ [m] } := by
  rw [Message.text, List.foldl_append, Client.foldl_head h, Client.enterBody_lines h, hlength]
  obtain ⟨startLine, headers, body⟩ := m
  cases body with
  | nil => rfl
  | cons c body =>
    exact Client.foldl_body messages (List.cons_ne_nil c body) ⟨startLine, headers, []⟩

theorem read_open {m : Message} (h : m.Readable) (hlength : declared m.headers = none) :
    read m.text = { phase := .body m none } := by
  rw [read, Message.text, List.foldl_append, Client.foldl_head h, Client.enterBody_lines h, hlength]
  exact Client.foldl_open [] m.body { m with body := [] }

end Catena.Framework.Http
