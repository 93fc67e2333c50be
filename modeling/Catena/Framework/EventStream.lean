import Mathlib.Data.List.Infix

/-!
# Event streams

The format `text/event-stream`, as far as the `data` fields of its events go. A client reads the
stream character by character. A line ends with LF, CR or CRLF, and an event with a blank line, so
that no event comes out of what is behind the last blank line.
-/

namespace Catena.Framework.EventStream

def event (data : List Char) : List Char := "data: ".toList ++ data ++ ['\n', '\n']

/-- A client with the line that it is reading, its data buffer, and the events so far. -/
structure Client where
  line : List Char := []
  data : List Char := []
  afterCr : Bool := false
  events : List (List Char) := []

namespace Client

/-- One space behind the colon is not part of the value. -/
def fieldValue : List Char → List Char
  | ' ' :: value => value
  | value => value

/-- A line with a field or a comment. Only `data` is looked at. -/
def field (s : Client) (name value : List Char) : Client :=
  if name = "data".toList then { s with data := s.data ++ fieldValue value ++ ['\n'] } else s

/-- A blank line dispatches the event, if there is one. -/
def dispatch (s : Client) : Client :=
  if s.data = [] then s else { s with data := [], events := s.events ++ [s.data.dropLast] }

def endLine (s : Client) : Client :=
  if s.line = [] then s.dispatch
  else
    { s.field (s.line.takeWhile (· ≠ ':')) (s.line.dropWhile (· ≠ ':')).tail with line := [] }

def feed (s : Client) (c : Char) : Client :=
  if c = '\n' then if s.afterCr then { s with afterCr := false } else s.endLine
  else if c = '\r' then { s.endLine with afterCr := true }
  else { s with line := s.line ++ [c], afterCr := false }

theorem events_endLine (s : Client) : s.events <+: s.endLine.events := by
  rw [endLine]
  split
  · rw [dispatch]
    split
    · exact List.prefix_rfl
    · exact List.prefix_append _ _
  · rw [field]
    split <;> exact List.prefix_rfl

theorem events_feed (s : Client) (c : Char) : s.events <+: (s.feed c).events := by
  rw [feed]
  split
  · split
    · exact List.prefix_rfl
    · exact s.events_endLine
  · split
    · exact s.events_endLine
    · exact List.prefix_rfl

theorem events_foldl (s : Client) (text : List Char) :
    s.events <+: (text.foldl feed s).events := by
  induction text generalizing s with
  | nil => exact List.prefix_rfl
  | cons c text ih => exact (s.events_feed c).trans (ih (s.feed c))

theorem foldl_line {text : List Char} (hlf : '\n' ∉ text) (hcr : '\r' ∉ text) {s : Client}
    (hs : s.afterCr = false) : text.foldl feed s = { s with line := s.line ++ text } := by
  induction text generalizing s with
  | nil => simp
  | cons c text ih =>
    rw [List.mem_cons, not_or] at hlf hcr
    have hfeed : s.feed c = { s with line := s.line ++ [c], afterCr := false } := by
      rw [feed, if_neg (Ne.symm hlf.1), if_neg (Ne.symm hcr.1)]
    rw [List.foldl_cons, hfeed, ih hlf.2 hcr.2 rfl, ← hs]
    simp

end Client

/-- The events that a client has got from a stream. -/
def decode (stream : List Char) : List (List Char) := (stream.foldl Client.feed {}).events

/-- Between two events a client remembers nothing but the events. -/
theorem foldl_event {data : List Char} (hlf : '\n' ∉ data) (hcr : '\r' ∉ data)
    (events : List (List Char)) :
    (event data).foldl Client.feed { events } = { events := events ++ [data] } := by
  have hline : ("data: ".toList ++ data).foldl Client.feed { events } =
      { line := "data: ".toList ++ data, events } := by
    refine Client.foldl_line ?_ ?_ rfl
    · rw [List.mem_append, not_or]
      exact ⟨by decide, hlf⟩
    · rw [List.mem_append, not_or]
      exact ⟨by decide, hcr⟩
  have hfield : Client.feed { line := "data: ".toList ++ data, events } '\n' =
      { data := data ++ ['\n'], events } := by
    simp [Client.feed, Client.endLine, Client.field, Client.fieldValue]
  have hblank : Client.feed { data := data ++ ['\n'], events } '\n' =
      { events := events ++ [data] } := by
    simp [Client.feed, Client.endLine, Client.dispatch]
  calc (event data).foldl Client.feed { events }
      = ['\n', '\n'].foldl Client.feed (("data: ".toList ++ data).foldl Client.feed { events }) :=
        List.foldl_append
    _ = ['\n', '\n'].foldl Client.feed { line := "data: ".toList ++ data, events } :=
        congrArg (List.foldl Client.feed · ['\n', '\n']) hline
    _ = ['\n'].foldl Client.feed { data := data ++ ['\n'], events } :=
        congrArg (List.foldl Client.feed · ['\n']) hfield
    _ = { events := events ++ [data] } := hblank

theorem decode_flatMap_event {ds : List (List Char)} (h : ∀ d ∈ ds, '\n' ∉ d ∧ '\r' ∉ d) :
    decode (ds.flatMap event) = ds := by
  have hall (events : List (List Char)) :
      (ds.flatMap event).foldl Client.feed { events } = { events := events ++ ds } := by
    induction ds generalizing events with
    | nil => simp
    | cons d ds ih =>
      obtain ⟨hlf, hcr⟩ := h d List.mem_cons_self
      rw [List.flatMap_cons, List.foldl_append, foldl_event hlf hcr,
        ih (fun d' hd' => h d' (List.mem_cons_of_mem d hd')), List.append_assoc]
      rfl
  exact congrArg Client.events (hall [])

/-- A stream that breaks off gives its first events, and nothing that has not been sent. -/
theorem decode_prefix {stream stream' : List Char} (h : stream <+: stream') :
    decode stream <+: decode stream' := by
  obtain ⟨rest, rfl⟩ := h
  rw [decode, decode, List.foldl_append]
  exact Client.events_foldl _ rest

end Catena.Framework.EventStream
