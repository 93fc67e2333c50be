import Catena.Grpc.CommandStream
import Catena.Rest.Streams

/-!
# Commands over REST

A command is executed as over gRPC: for a client that may write it, and its responder is resumed
only while the token of the client is valid.
-/

namespace Catena.Rest

open Store Rpc Grpc Framework

namespace ExecuteCommand

open Grpc.ExecuteCommand (Executes LooksUp sent sent_of_respond sent_of_silent getCommand_error)

variable {cfg : Config} {seen : List (Action × World)} {written : List Text} {writer : Writer}

/-- The gRPC call that executes the command with a value. -/
def received (r : Request) (value : Value) : Received ExecuteCommandPayload :=
  ⟨⟨slotOf r, fqoidOf r, value, (r.fields.lookup "respond".toList).isSome⟩, bearer r⟩

variable {q : Received ExecuteCommandPayload} {exp : Nat}

/-- What is written for some responses and a status. -/
def sends (cfg : Config) (q : Received ExecuteCommandPayload) (fin : StatusCode)
    (ms : List CommandResponse) (writer : Writer) : List Text :=
  writer.sends cfg.print fin ((sent q ms).map .commandResponse)

/-- What a command that is executed comes to. -/
inductive Comes (cfg : Config) (q : Received ExecuteCommandPayload) (exp : Nat)
    (seen : List (Action × World)) (ms : List CommandResponse) : StatusCode → Prop
  | complete (h : Executes cfg.toConfig q exp seen ms .ended) : Comes cfg q exp seen ms .ok
  | threw (why : Raised) (h : Executes cfg.toConfig q exp seen ms (.running (.throw why))) :
      Comes cfg q exp seen ms (thrown why)
  | expired (before : List (Action × World)) (w : World) (responder : Responder)
      (h : Executes cfg.toConfig q exp before ms (.suspended responder))
      (hseen : seen = before ++ [(.look, w)]) (hw : ExpiredAt exp w) :
      Comes cfg q exp seen ms .unauthenticated

/-- The command goes on after some responses, and writes the others. -/
def GoesOn (cfg : Config) (q : Received ExecuteCommandPayload) (exp : Nat)
    (seen : List (Action × World)) (ms : List CommandResponse) (written : List Text)
    (writer : Writer) : Prop :=
  ∃ fin more, written = sends cfg q fin more writer ∧ Comes cfg q exp seen (ms ++ more) fin

theorem GoesOn.finish {fin : StatusCode} {ms : List CommandResponse}
    (h : Comes cfg q exp seen ms fin) :
    GoesOn cfg q exp seen ms [writer.response cfg fin .empty] writer := by
  refine ⟨fin, [], ?_, ?_⟩
  · rw [sends, sent, ite_self]
    rfl
  · rw [List.append_nil]
    exact h

/-- A response is told to a client that wants it. -/
theorem goesOn_tell {ms : List CommandResponse} {m : CommandResponse} {rest : Writer → Code}
    {run before : List (Action × World)}
    (h : (tell cfg q.message.respond m writer rest).Ends run written)
    (hrest : ∀ writer written, (rest writer).Ends run written →
      GoesOn cfg q exp (before ++ run) (ms ++ [m]) written writer) :
    GoesOn cfg q exp (before ++ run) ms written writer := by
  unfold tell at h
  split at h
  · rename_i hrespond
    obtain ⟨written', rfl, hends⟩ := Handlers.Code.ends_write.mp h
    obtain ⟨fin, more, rfl, hcomes⟩ := hrest _ _ hends
    refine ⟨fin, m :: more, ?_, ?_⟩
    · simp only [sends, sent_of_respond hrespond]
      rfl
    · rw [List.append_cons]
      exact hcomes
  · rename_i hsilent
    obtain ⟨fin, more, rfl, hcomes⟩ := hrest _ _ h
    refine ⟨fin, m :: more, ?_, ?_⟩
    · simp only [sends, sent_of_silent hsilent]
    · rw [List.append_cons]
      exact hcomes

theorem goesOn_unlessExpired {ms : List CommandResponse} {rest : Code} {responder : Responder}
    {run before : List (Action × World)}
    (h : (unlessExpired cfg exp writer rest).Ends run written)
    (hexecutes : Executes cfg.toConfig q exp before ms (.suspended responder))
    (hrest : ∀ w run, ¬ExpiredAt exp w → rest.Ends run written →
      GoesOn cfg q exp (before ++ (Action.look, w) :: run) ms written writer) :
    GoesOn cfg q exp (before ++ run) ms written writer := by
  obtain ⟨w, run', rfl, hends⟩ := Handlers.Code.ends_locked.mp h
  split at hends
  · rename_i hexpired
    obtain ⟨rfl, rfl⟩ := ends_finish.mp hends
    exact .finish (.expired before w responder hexecutes rfl hexpired)
  · rename_i hvalid
    exact hrest w run' hvalid hends

/-- The induction is on what the responder still does. -/
theorem goesOn_resume {ms : List CommandResponse} {responder : Responder}
    {run before : List (Action × World)}
    (h : (resume cfg exp q.message.respond responder writer).Ends run written)
    (hexecutes : Executes cfg.toConfig q exp before ms (.running responder)) :
    GoesOn cfg q exp (before ++ run) ms written writer := by
  induction responder generalizing before run ms written writer with
  | run effect rest ih =>
    obtain ⟨w, run', rfl, hends⟩ := Handlers.Code.ends_locked.mp h
    rw [List.append_cons]
    exact ih w hends (hexecutes.inSection fun _ _ hrun => hrun.effect w)
  | yield m rest ih =>
    have hyield := hexecutes.responds fun _ _ hrun => hrun.yield
    refine goesOn_tell h fun writer written hends => ?_
    refine goesOn_unlessExpired hends hyield fun w run' hvalid hends' => ?_
    rw [List.append_cons]
    exact ih hends' (hyield.inSection fun _ _ hrun => hrun.resume w hvalid)
  | ret m =>
    refine goesOn_tell h fun writer written hends => ?_
    obtain ⟨rfl, rfl⟩ := ends_finish.mp hends
    rw [List.append_nil]
    exact .finish (.complete (hexecutes.responds fun _ _ hrun => hrun.ret))
  | throw why =>
    obtain ⟨rfl, rfl⟩ := ends_finish.mp h
    rw [List.append_nil]
    exact .finish (.threw why hexecutes)

/-- A request to execute a command is refused with an error, or the command is executed with the
value of its body. -/
inductive Responds (cfg : Config) (r : Request) (seen : List (Action × World)) :
    StatusCode → List CommandResponse → Prop
  | refused (fin : StatusCode) (h : fin ≠ .ok) (hseen : LooksUp seen) : Responds cfg r seen fin []
  | executed (arg : Value) (harg : value cfg r = some arg) (exp : Nat) (fin : StatusCode)
      (ms : List CommandResponse) (h : Comes cfg (received r arg) exp seen ms fin) :
      Responds cfg r seen fin (sent (received r arg) ms)

theorem thrown_ne_ok (why : Raised) : thrown why ≠ .ok := by
  cases why with
  | none => decide
  | some rc => exact ofRc_ne_ok rc.2

variable {r : Request}

/-- What is written is what the request responds. -/
def Writes (cfg : Config) (r : Request) (seen : List (Action × World)) (written : List Text)
    (writer : Writer) : Prop :=
  ∃ fin ms, written = writer.sends cfg.print fin (ms.map .commandResponse) ∧
    Responds cfg r seen fin ms

theorem writes_finish {before : List (Action × World)} (hbefore : LooksUp before)
    {fin : StatusCode} (hfin : fin ≠ .ok) (h : (finish cfg fin .empty writer).Ends seen written) :
    Writes cfg r (before ++ seen) written writer := by
  obtain ⟨rfl, rfl⟩ := ends_finish.mp h
  rw [List.append_nil]
  exact ⟨fin, [], rfl, .refused fin hfin hbefore⟩

theorem writes_execute {arg : Value} (harg : value cfg r = some arg) {decoded : Authorizer × Nat}
    (client : cfg.toConfig.authorizer (bearer r) = .ok decoded) {found : World} {d : ServedDevice}
    (served : found.devices (slotOf r) = some d) {command : String × Node}
    (known : d.getCommand (fqoidOf r) decoded.1 = .ok (.ok command))
    (h : (execute cfg r arg (received r arg).message.respond decoded command writer).Ends seen
      written) : Writes cfg r ([(.look, found)] ++ seen) written writer := by
  unfold execute at h
  split at h
  · exact writes_finish (.once found) (by decide) h
  · rename_i writable
    split at h
    · exact writes_finish (.once found) (thrown_ne_ok _) h
    · exact writes_finish (.once found) (by decide) h
    · rename_i responder defined
      have hstart : Executes cfg.toConfig (received r arg) decoded.2 [(.look, found)] []
          (.suspended responder) :=
        ⟨decoded.1, found, d, command, responder, [], client, served, known,
          by simpa using writable, defined, .start, rfl⟩
      have hgoes : GoesOn cfg (received r arg) decoded.2 ([(.look, found)] ++ seen) [] written
          writer := by
        refine goesOn_unlessExpired h hstart fun w run hvalid hends => ?_
        rw [List.append_cons]
        exact goesOn_resume hends (hstart.inSection fun _ _ hrun => hrun.resume w hvalid)
      obtain ⟨fin, ms, rfl, hcomes⟩ := hgoes
      exact ⟨fin, _, rfl, .executed arg harg decoded.2 fin ms hcomes⟩

theorem writes_proceed (h : (proceed cfg r writer).Ends seen written) :
    Writes cfg r seen written writer := by
  obtain ⟨rc, hrc, rfl, rfl⟩ | ⟨_, _, hslot⟩ := ends_attempt h
  · exact ⟨_, [], rfl, .refused _ (ofRc_ne_ok (Config.checkSlot_error hrc)) .none⟩
  split at hslot
  · exact writes_finish .none (by decide) hslot
  rename_i arg harg
  obtain ⟨rc, hrc, rfl, rfl⟩ | ⟨decoded, hdecoded, htoken⟩ := ends_attempt hslot
  · rw [← authorizer_bearer] at hrc
    exact ⟨_, [], rfl, .refused _ (ofRc_ne_ok (Config.authorizer_error hrc)) .none⟩
  rw [← authorizer_bearer] at hdecoded
  obtain ⟨found, d, seen', rfl, served, hcommand⟩ := ends_withDevice.mp htoken
  split at hcommand
  · exact writes_finish (.once found) (by decide) hcommand
  · rename_i result hresult
    obtain ⟨rc, rfl, rfl, rfl⟩ | ⟨command, rfl, hexecute⟩ := ends_attempt hcommand
    · exact ⟨_, [], rfl, .refused _ (ofRc_ne_ok (getCommand_error hresult)) (.once found)⟩
    · exact writes_execute harg hdecoded served hresult hexecute

end ExecuteCommand

def Responded (cfg : Config) (seen : List (Action × World))
    (t : Handlers.Thread World Action Text Peer) : Prop :=
  t.stage = .ended → t.refused = false → ∀ r, cfg.read t.conn = .ok r →
    router.lookup (requestKey r) = some .executeCommand →
      ∃ fin ms, ExecuteCommand.Responds cfg r seen fin ms ∧
        Gets cfg r r.stream t fin (ms.map .commandResponse)

section Example

/-- The `reset` command over HTTP, with the query of a URL as the name of one parameter. -/
def resetService : Config := { panelService with
  toConfig := resetConfig
  urlView url :=
    some (url.takeWhile (· ≠ '?'),
      if '?' ∈ url then [((url.dropWhile (· ≠ '?')).tail, [])] else [])
  print
    | .commandResponse .noResponse => json "\x7b\"noResponse\":\x7b\x7d\x7d".toList
    | _ => .error [] }

def resetPeer : Peer where
  arrival :=
    ⟨"POST /st2138-api/v1.0/1/command/reset?respond HTTP/1.1\r\n\r\n".toList, [], .failed⟩

def httpResetRun : List (Handlers.Event Action Peer) :=
  List.replicate 4 (.main resetPeer) ++ List.replicate 7 (.run 0 false)

def afterHttpReset : Handlers.State World Action Text Peer :=
  (replay (server resetService).step httpResetRun { world := panelWorld }).getD
    { world := panelWorld }

theorem reaches_afterHttpReset : (server resetService).Reaches panelWorld afterHttpReset :=
  Handlers.Server.reaches_getD (by decide +kernel)

theorem thread_afterHttpReset : (afterHttpReset.threads[0]?).isSome = true := by decide +kernel

end Example

end Catena.Rest
