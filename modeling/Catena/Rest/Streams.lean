import Catena.Rest.Answers

/-!
# Requests that are answered by several messages

The messages of a request are written one after the other. A client that has asked for a stream gets
them as events; another gets them as an array, and only if the request has not failed.
-/

namespace Catena.Rest

open Store Rpc Grpc Framework

variable {cfg : Config}

section Code

variable {seen : List (Action × World)} {written : List Text} {writer : Writer}

theorem ends_withDevice {a : Action} {slot : Nat} {rest : World → ServedDevice → Code} :
    (withDevice a slot rest).Ends seen written ↔ ∃ w d seen', seen = (a, w) :: seen' ∧
      w.devices slot = some d ∧ (rest w d).Ends seen' written := by
  rw [withDevice, Handlers.Code.ends_locked]
  constructor
  · rintro ⟨w, seen', rfl, h⟩
    cases hd : w.devices slot with
    | none =>
      rw [hd] at h
      exact (Handlers.Code.not_ends_abort h).elim
    | some d =>
      rw [hd] at h
      exact ⟨w, d, seen', rfl, hd, h⟩
  · rintro ⟨w, d, seen', rfl, hd, h⟩
    refine ⟨w, seen', rfl, ?_⟩
    rw [hd]
    exact h

theorem ends_attempt {α : Type} {result : Except ExceptionWithStatus α} {rest : α → Code}
    (h : (attempt cfg writer result rest).Ends seen written) :
    (∃ rc, result = .error rc ∧ seen = [] ∧ written = writer.sends cfg.print (.ofRc rc) []) ∨
      ∃ a, result = .ok a ∧ (rest a).Ends seen written := by
  cases result with
  | error rc => exact Or.inl ⟨rc, rfl, ends_finish.mp h⟩
  | ok a => exact Or.inr ⟨a, rfl, h⟩

theorem ofRc_ne_ok {rc : ExceptionWithStatus} (h : rc.isOk = false) : StatusCode.ofRc rc ≠ .ok := by
  intro hok
  rw [StatusCode.ofRc_eq_ok, h] at hok
  cases hok

end Code

/-! ## What the client gets -/

/-- The events of a stream, or the first of them if the connection breaks. The status is that of
the first message. -/
def GetsEvents (r : Request) (t : Handlers.Thread World Action Text Peer) (fin : StatusCode)
    (ms : List Message) (js : List Text) : Prop :=
  let response := streamResponse (codeMap (firstStatus fin ms)) r.origin
  events t.written.flatten <+: js ∧
    (t.broken = false → events t.written.flatten = js ∧ Http.read t.written.flatten =
      { phase := .body { response with body := js.flatMap EventStream.event } none })

/-- The one response to a request without a stream. -/
def GetsArray (r : Request) (t : Handlers.Thread World Action Text Peer) (fin : StatusCode)
    (js : List Text) : Prop :=
  let jsonBody := if 300 ≤ (codeMap fin).1 then [] else dataBody js
  t.broken = false →
    Http.read t.written.flatten = { messages := [unaryResponse (codeMap fin) r.origin jsonBody] }

/-- What the client of a request gets, for the messages and the status of its controller. -/
def Gets (cfg : Config) (r : Request) (stream : Bool)
    (t : Handlers.Thread World Action Text Peer) (fin : StatusCode) (ms : List Message) : Prop :=
  ∀ js, Prints cfg.print ms js →
    if stream then GetsEvents r t fin ms js else GetsArray r t fin js

theorem Prints.lines {print : Printer} {ms : List Message} {js : List Text}
    (h : Prints print ms js) : ∀ j ∈ js, '\n' ∉ j ∧ '\r' ∉ j := by
  induction h with
  | nil => exact fun j hj => (by cases hj)
  | cons hm _ ih =>
    obtain ⟨_, json, _, rfl⟩ := hm
    intro j hj
    rcases List.mem_cons.mp hj with rfl | hj
    · exact json.2.2
    · exact ih j hj

section Sends

variable {t : Handlers.Thread World Action Text Peer} {r : Request} {fin : StatusCode}
  {ms : List Message} {js : List Text} {lost : List Text}

theorem getsEvents_of_sends (horigin : GoodOrigin r.origin) (hprints : Prints cfg.print ms js)
    (hlost : t.broken = false → lost = [])
    (h : t.written ++ lost = (Writer.sse { origin := r.origin }).sends cfg.print fin ms) :
    GetsEvents r t fin ms js := by
  have hread := read_streamResponse (firstStatus fin ms) horigin (js.flatMap EventStream.event)
  rw [← flatten_sends_sse fin hprints, ← h] at hread
  have hdecode := EventStream.decode_flatMap_event hprints.lines
  constructor
  · have hkept : t.written.flatten <+: (t.written ++ lost).flatten := by
      rw [List.flatten_append]
      exact List.prefix_append _ _
    have hevents := events_prefix hkept (congrArg Http.Client.phase hread)
    rw [hdecode] at hevents
    exact hevents
  · intro hbroken
    rw [hlost hbroken, List.append_nil] at hread
    refine ⟨?_, hread⟩
    rw [events, hread]
    exact hdecode

theorem getsArray_of_sends (horigin : GoodOrigin r.origin) (hprints : Prints cfg.print ms js)
    (hlost : t.broken = false → lost = [])
    (h : t.written ++ lost =
      (Writer.socket { origin := r.origin, buffer := true }).sends cfg.print fin ms) :
    GetsArray r t fin js := by
  intro hbroken
  have hnone : ∀ j ∈ ([] : List Text), j ≠ [] := fun j hj => (by cases hj)
  have hwhole := flatten_sends_socket fin hprints (w := { origin := r.origin, buffer := true })
    rfl hnone rfl
  rw [← h, hlost hbroken, List.append_nil, List.nil_append] at hwhole
  rw [hwhole]
  exact read_unaryResponse fin horigin _

theorem gets_of_sends {stream : Bool} (horigin : GoodOrigin r.origin)
    (hlost : t.broken = false → lost = [])
    (h : t.written ++ lost = (Writer.ofStream stream r.origin).sends cfg.print fin ms) :
    Gets cfg r stream t fin ms := by
  intro js hprints
  cases stream with
  | true =>
    rw [if_pos rfl]
    exact getsEvents_of_sends horigin hprints hlost h
  | false =>
    rw [if_neg Bool.false_ne_true]
    exact getsArray_of_sends horigin hprints hlost h

end Sends

end Catena.Rest
