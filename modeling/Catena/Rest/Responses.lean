import Catena.Rest.Answers

/-!
# Responses on every connection

Every controller ends by telling its status. So, whatever the sections of a request find, its client
has a response when the thread of the connection ends: one that is complete, or a stream that has
begun with a status.
-/

namespace Catena.Rest

open Store Rpc Grpc Framework

/-- The client has a response: a complete one, or a stream that goes on. -/
def GotResponse (written : List Text) : Prop :=
  (∃ ms, ms ≠ [] ∧ Http.read written.flatten = { messages := ms }) ∨
    ∃ m, (Http.read written.flatten).phase = .body m none

def Writer.Wrote (written : List Text) : Writer → Prop
  | .socket w => GoodOrigin w.origin ∧ ∃ ms, Http.read written.flatten = { messages := ms }
  | .sse w => GoodOrigin w.origin ∧
      if w.headersSent then ∃ m, (Http.read written.flatten).phase = .body m none
      else written.flatten = []

variable {cfg : Config} {writer : Writer} {written : List Text}

theorem wrote_ofStream (stream : Bool) {origin : Text} (h : GoodOrigin origin) :
    (Writer.ofStream stream origin).Wrote [] := by
  cases stream with
  | true => exact ⟨h, rfl⟩
  | false => exact ⟨h, [], rfl⟩

/-! ## The writers -/

theorem read_concat_unary {ms : List Http.Message}
    (h : Http.read written.flatten = { messages := ms }) (c : StatusCode) {origin : Text}
    (horigin : GoodOrigin origin) (jsonBody : Text) :
    Http.read (written ++ [(unaryResponse (codeMap c) origin jsonBody).text]).flatten =
      { messages := ms ++ [unaryResponse (codeMap c) origin jsonBody] } := by
  rw [List.flatten_append, List.flatten_singleton, Http.read_append, h]
  have hreadable := readable_unaryResponse c horigin jsonBody
  exact Http.foldl_text hreadable (declared_unaryResponse _ _ _) ms

theorem SocketWriter.respond_eq (w : SocketWriter) (httpStatus : Nat × String) :
    ∃ jsonBody, w.respond httpStatus =
      ((unaryResponse httpStatus w.origin jsonBody).text, { w with jsonBody }) :=
  ⟨_, rfl⟩

/-- A socket writer writes nothing, if it is buffered, or a response. -/
theorem SocketWriter.sendResponse_cases (print : Printer) (w : SocketWriter) (rc : StatusCode)
    (msg : Message) :
    (w.buffer = true ∧ msg.isEmpty = false ∧
      ∃ jsonBody, w.sendResponse print rc msg = ([], { w with jsonBody })) ∨
    ∃ c jsonBody, w.sendResponse print rc msg =
      ((unaryResponse (codeMap c) w.origin jsonBody).text, { w with jsonBody }) := by
  unfold SocketWriter.sendResponse
  dsimp only
  split
  · rename_i hsent
    have hempty : msg.isEmpty = false := by simpa using hsent.2
    split
    · split
      · exact Or.inr ⟨.invalidArgument, w.respond_eq _⟩
      · rename_i hbuffer
        rw [not_or] at hbuffer
        exact Or.inl ⟨by simpa using hbuffer.1, hempty, w.jsonBody, rfl⟩
    · rename_i jsonOutput _
      split
      · rename_i hbuffer
        exact Or.inl ⟨hbuffer, hempty, _, rfl⟩
      · exact Or.inr ⟨rc, (w.addJson jsonOutput.1).respond_eq _⟩
  · exact Or.inr ⟨rc, w.respond_eq _⟩

theorem SSEWriter.sendResponse_cases (print : Printer) (w : SSEWriter) (rc : StatusCode)
    (msg : Message) : ∃ c body, w.sendResponse print rc msg =
      ((if w.headersSent then [] else (streamResponse (codeMap c) w.origin).text) ++ body,
        { w with headersSent := true }) := by
  unfold SSEWriter.sendResponse
  split
  · exact ⟨rc, _, rfl⟩
  · split
    · exact ⟨.invalidArgument, _, rfl⟩
    · exact ⟨rc, _, rfl⟩

theorem phase_of_sse {w : SSEWriter} (h : (Writer.sse w).Wrote written) (print : Printer)
    (rc : StatusCode) (msg : Message) :
    ∃ m, (Http.read (written ++ [(w.sendResponse print rc msg).1]).flatten).phase =
      .body m none := by
  obtain ⟨horigin, hwritten⟩ := h
  obtain ⟨c, body, hsent⟩ := w.sendResponse_cases print rc msg
  rw [hsent, List.flatten_append, List.flatten_singleton]
  cases hhead : w.headersSent with
  | true =>
    rw [hhead, if_pos rfl] at hwritten
    obtain ⟨m, hm⟩ := hwritten
    rw [if_pos rfl, Http.read_append]
    exact ⟨_, phase_append hm _⟩
  | false =>
    rw [hhead, if_neg Bool.false_ne_true] at hwritten
    rw [hwritten, List.nil_append, if_neg Bool.false_ne_true]
    exact ⟨_, congrArg Http.Client.phase (read_streamResponse c horigin body)⟩

theorem Writer.Wrote.send (h : writer.Wrote written) (print : Printer) (rc : StatusCode)
    (msg : Message) : (writer.sendResponse print rc msg).2.Wrote
      (written ++ [(writer.sendResponse print rc msg).1]) := by
  cases writer with
  | socket w =>
    obtain ⟨horigin, ms, hms⟩ := h
    obtain ⟨_, _, jsonBody, hsent⟩ | ⟨c, jsonBody, hsent⟩ := w.sendResponse_cases print rc msg
    · rw [Writer.sendResponse, hsent]
      refine ⟨horigin, ms, ?_⟩
      rw [List.flatten_append, List.flatten_singleton]
      exact (congrArg Http.read (List.append_nil _)).trans hms
    · rw [Writer.sendResponse, hsent]
      exact ⟨horigin, _, read_concat_unary hms c horigin jsonBody⟩
  | sse w =>
    have hphase := phase_of_sse h print rc msg
    obtain ⟨c, body, hsent⟩ := w.sendResponse_cases print rc msg
    rw [hsent] at hphase
    rw [Writer.sendResponse, hsent]
    exact ⟨h.1, hphase⟩

theorem Writer.Wrote.finish (h : writer.Wrote written) (print : Printer) (rc : StatusCode)
    {msg : Message} (hlast : ∀ w, writer = .socket w → w.buffer = true → msg.isEmpty = true) :
    GotResponse (written ++ [(writer.sendResponse print rc msg).1]) := by
  cases writer with
  | socket w =>
    obtain ⟨horigin, ms, hms⟩ := h
    obtain ⟨hbuffer, hempty, _⟩ | ⟨c, jsonBody, hsent⟩ := w.sendResponse_cases print rc msg
    · rw [hlast w rfl hbuffer] at hempty
      cases hempty
    · rw [Writer.sendResponse, hsent]
      exact Or.inl ⟨_, List.append_ne_nil_of_right_ne_nil _ (List.cons_ne_nil _ _),
        read_concat_unary hms c horigin jsonBody⟩
  | sse w => exact Or.inr (phase_of_sse h print rc msg)

/-! ## The controllers -/

theorem posts_finish (h : writer.Wrote written) (rc : StatusCode) :
    (finish cfg rc .empty writer).Posts GotResponse written :=
  h.finish cfg.print rc fun _ _ _ => rfl

theorem posts_send_iff {rc : StatusCode} {msg : Message} {rest : Writer → Code} :
    (send cfg rc msg writer rest).Posts GotResponse written ↔
      (rest (writer.sendResponse cfg.print rc msg).2).Posts GotResponse
        (written ++ [(writer.sendResponse cfg.print rc msg).1]) :=
  Iff.rfl

theorem posts_send (h : writer.Wrote written) {rc : StatusCode} {msg : Message}
    {rest : Writer → Code} (hrest : ∀ writer written, writer.Wrote written →
      (rest writer).Posts GotResponse written) :
    (send cfg rc msg writer rest).Posts GotResponse written :=
  posts_send_iff.mpr (hrest _ _ (h.send cfg.print rc msg))

theorem posts_withDevice {a : Action} {slot : Nat} {rest : World → ServedDevice → Code}
    (hrest : ∀ w d, (rest w d).Posts GotResponse written) :
    (withDevice a slot rest).Posts GotResponse written := by
  intro w
  change ((w.devices slot).elim .abort (rest w)).Posts GotResponse written
  cases w.devices slot with
  | none => exact trivial
  | some d => exact hrest w d

theorem posts_attempt {α : Type} (h : writer.Wrote written)
    {result : Except ExceptionWithStatus α} {rest : α → Code}
    (hrest : ∀ a, (rest a).Posts GotResponse written) :
    (attempt cfg writer result rest).Posts GotResponse written := by
  cases result with
  | error rc => exact posts_finish h _
  | ok a => exact hrest a

theorem Task.posts_code (task : Task) {r : Request} (horigin : GoodOrigin r.origin) :
    (task.code cfg (unaryWriter r)).Posts GotResponse [] := by
  have hwrote : (unaryWriter r).Wrote [] := ⟨horigin, [], rfl⟩
  have hanswer (a : Answer) :
      (finish cfg a.1 a.2 (unaryWriter r)).Posts GotResponse [] := by
    refine hwrote.finish cfg.print a.1 fun w hw hbuffer => ?_
    cases hw
    cases hbuffer
  cases task with
  | respond answer => exact hanswer answer
  | inSection a answer =>
    intro w
    change ((answer w).elim .abort fun r' => finish cfg r'.1 r'.2 (unaryWriter r)).Posts
      GotResponse []
    cases answer w with
    | none => exact trivial
    | some a => exact hanswer a

variable (r : Request)

namespace DeviceRequest

theorem posts_stream (slot : Nat) (authz : Authorizer) (serializer : Coroutine DeviceKey DeviceKey)
    (h : writer.Wrote written) :
    (stream cfg slot authz serializer writer).Posts GotResponse written := by
  induction serializer generalizing writer written with
  | ret key =>
    exact posts_withDevice fun _ _ => posts_send h fun _ _ hsent => posts_finish hsent .ok
  | yield key serializer ih =>
    exact posts_withDevice fun _ _ => posts_send h fun _ _ hsent => ih hsent

theorem posts_start (authz : Authorizer) (subscribedOids : List String)
    (h : writer.Wrote written) :
    (start cfg r authz writer subscribedOids).Posts GotResponse written := by
  refine posts_withDevice fun _ d => posts_attempt h fun serializer => ?_
  cases serializer.body with
  | none => exact posts_finish h .ok
  | some body => exact posts_stream _ authz body h

theorem posts_proceed (h : writer.Wrote written) :
    (proceed cfg r writer).Posts GotResponse written := by
  refine posts_attempt h fun _ => posts_attempt h fun decoded => ?_
  split
  · exact posts_withDevice fun _ _ => posts_start r decoded.1 _ h
  · exact posts_start r decoded.1 [] h

end DeviceRequest

namespace ExecuteCommand

theorem posts_unlessExpired {exp : Nat} {rest : Code} (h : writer.Wrote written)
    (hrest : rest.Posts GotResponse written) :
    (unlessExpired cfg exp writer rest).Posts GotResponse written := by
  intro w
  dsimp only
  split
  · exact posts_finish h .unauthenticated
  · exact hrest

theorem posts_tell {respond : Bool} {response : CommandResponse} {rest : Writer → Code}
    (h : writer.Wrote written) (hrest : ∀ writer written, writer.Wrote written →
      (rest writer).Posts GotResponse written) :
    (tell cfg respond response writer rest).Posts GotResponse written := by
  unfold tell
  split
  · exact posts_send h hrest
  · exact hrest writer written h

theorem posts_resume (exp : Nat) (respond : Bool) (responder : Responder)
    (h : writer.Wrote written) :
    (resume cfg exp respond responder writer).Posts GotResponse written := by
  induction responder generalizing writer written with
  | run effect rest ih => exact fun w => ih w h
  | yield response rest ih =>
    exact posts_tell h fun _ _ htold => posts_unlessExpired htold (ih htold)
  | ret response => exact posts_tell h fun _ _ htold => posts_finish htold .ok
  | throw why => exact posts_finish h _

theorem posts_execute (value : Value) (respond : Bool) (decoded : Authorizer × Nat)
    (command : String × Node) (h : writer.Wrote written) :
    (execute cfg r value respond decoded command writer).Posts GotResponse written := by
  unfold execute
  split
  · exact posts_finish h _
  · split
    · exact posts_finish h _
    · exact posts_finish h _
    · exact posts_unlessExpired h (posts_resume _ _ _ h)

theorem posts_proceed (h : writer.Wrote written) :
    (proceed cfg r writer).Posts GotResponse written := by
  refine posts_attempt h fun _ => ?_
  split
  · exact posts_finish h _
  · refine posts_attempt h fun decoded => posts_withDevice fun _ d => ?_
    split
    · exact posts_finish h _
    · exact posts_attempt h fun command => posts_execute r _ _ decoded command h

end ExecuteCommand

namespace Subscriptions

theorem posts_list (slot : Nat) (authz : Authorizer) (oids : List String)
    (h : writer.Wrote written) : (list cfg slot authz oids writer).Posts GotResponse written := by
  induction oids generalizing writer written with
  | nil => exact posts_finish h .ok
  | cons oid oids ih =>
    refine posts_withDevice fun _ d => ?_
    cases listing d.device d.values authz authz oid with
    | none => exact ih h
    | some listed => exact posts_send h fun _ _ hsent => ih hsent

theorem posts_add {slot : Nat} {authz : Authorizer} {rest : Code} (h : writer.Wrote written)
    (hrest : rest.Posts GotResponse written) (oids : List String) :
    (add cfg slot authz writer rest oids).Posts GotResponse written := by
  induction oids with
  | nil => exact hrest
  | cons oid oids ih =>
    refine posts_withDevice fun w d => ?_
    unfold afterAdding
    split
    · exact posts_finish h _
    · exact posts_finish h _
    · exact trivial
    · exact ih

theorem posts_remove {slot : Nat} {rest : Code} (hrest : rest.Posts GotResponse written)
    (oids : List String) : (remove slot rest oids).Posts GotResponse written := by
  induction oids with
  | nil => exact hrest
  | cons oid oids ih => exact fun _ => ih

theorem posts_proceed (h : writer.Wrote written) :
    (proceed cfg r writer).Posts GotResponse written := by
  refine posts_attempt h fun _ => posts_withDevice fun _ d => ?_
  split
  · exact posts_finish h _
  · refine posts_attempt h fun decoded => ?_
    split
    · exact posts_withDevice fun _ _ => posts_list _ decoded.1 _ h
    · unfold update
      split
      · exact posts_finish h _
      · exact posts_add h (posts_remove (posts_finish h .ok) _) _
    · exact posts_finish h _

end Subscriptions

/-! ## The server -/

def Product.Modelled : Product → Prop
  | .connect | .assetRequest | .paramInfoRequest => False
  | _ => True

theorem Product.posts_proceed {product : Product} (hmodelled : product.Modelled)
    (horigin : GoodOrigin r.origin) : (product.proceed cfg r).Posts GotResponse [] := by
  cases product with
  | deviceRequest => exact DeviceRequest.posts_proceed r (wrote_ofStream _ horigin)
  | executeCommand => exact ExecuteCommand.posts_proceed r (wrote_ofStream _ horigin)
  | subscriptions => exact Subscriptions.posts_proceed r (wrote_ofStream _ horigin)
  | connect | assetRequest | paramInfoRequest => exact hmodelled.elim
  | getPopulatedSlots => exact Task.posts_code (GetPopulatedSlots.task cfg) horigin
  | getValue => exact Task.posts_code (GetValue.task cfg r) horigin
  | multiSetValue => exact Task.posts_code (MultiSetValue.task cfg r) horigin
  | setValue => exact Task.posts_code (SetValue.task cfg r) horigin
  | getParam => exact Task.posts_code (GetParam.task cfg r) horigin
  | languagePack => exact Task.posts_code (LanguagePack.task cfg r) horigin
  | languages => exact Task.posts_code (Languages.task cfg r) horigin

theorem posts_respond {ms : List Http.Message}
    (h : Http.read written.flatten = { messages := ms }) (rc : StatusCode) :
    (respond cfg rc).Posts GotResponse written := by
  have hwrote : (Writer.socket {}).Wrote written := ⟨goodOrigin_any, ms, h⟩
  exact posts_finish hwrote rc

theorem posts_handle
    (hmodelled : ∀ product, router.lookup (requestKey r) = some product → product.Modelled)
    (horigin : GoodOrigin r.origin) : (handle cfg r).Posts GotResponse [] := by
  have hwrote : (unaryWriter r).Wrote [] := ⟨horigin, [], rfl⟩
  unfold handle
  split
  · obtain ⟨_, ms, hms⟩ := hwrote.send cfg.print .noContent .empty
    exact posts_send_iff.mpr (posts_respond hms .noContent)
  · split
    · exact posts_finish hwrote .ok
    · split
      · rename_i product hlookup
        exact Product.posts_proceed r (hmodelled product hlookup) horigin
      · exact posts_respond rfl .unimplemented

/-- What a client asks for, if its request can be read, is none of the other controllers. -/
def AsksModelled (cfg : Config) (peer : Peer) : Prop :=
  ∀ r product, cfg.read peer = .ok r → router.lookup (requestKey r) = some product →
    product.Modelled

theorem posts_code {t : Handlers.Thread World Action Text Peer}
    (hmodelled : AsksModelled cfg t.conn) : ((server cfg).code t).Posts GotResponse [] := by
  unfold Handlers.Server.code
  split
  · exact posts_respond rfl .unavailable
  · change (serve cfg t.conn).Posts GotResponse []
    unfold serve
    split
    · exact posts_respond rfl _
    · rename_i r hread
      exact posts_handle r (fun product => hmodelled r product hread) (goodOrigin_read hread)

/-- Every client of a controller that is modelled has a response, if its connection has not broken
when its thread has ended. -/
def AllRespond (cfg : Config) (s : Handlers.State World Action Text Peer) : Prop :=
  ∀ t ∈ s.threads, AsksModelled cfg t.conn → t.stage = .ended → t.broken = false →
    GotResponse t.written

section Example

/-- A client asks for options, and another connects after the shutdown. -/
def optionsRun : List (Handlers.Event Action Peer) :=
  let peer : Peer :=
    { arrival := ⟨"OPTIONS /st2138-api/v1.0/1/value HTTP/1.1\r\n\r\n".toList, [], .failed⟩ }
  List.replicate 4 (.main peer) ++ List.replicate 4 (.run 0 false) ++
    List.replicate 4 (.main peer) ++ [.shutDown] ++ List.replicate 3 (.run 1 false)

def afterOptions : Handlers.State World Action Text Peer :=
  (replay (server panelService).step optionsRun { world := panelWorld }).getD
    { world := panelWorld }

theorem reaches_afterOptions : (server panelService).Reaches panelWorld afterOptions :=
  Handlers.Server.reaches_getD (by decide +kernel)

end Example

/-- The status for OPTIONS is written twice. -/
example : afterOptions.threads.map (fun t => (Http.read t.written.flatten).messages.length) =
    [2, 1] := by
  decide +kernel

end Catena.Rest
