import Catena.Grpc.DeviceStream

/-!
# What a command responds

The responder of a command runs between two checks of the client's token, and stops at its next
response. A client that wants responses is sent them one in each turn; for another the responder
runs to its end in one turn.
-/

namespace Catena.Grpc

open Store Rpc Framework Framework.Completion

variable {i : Controller}

/-- A responder between two responses, in the middle of its code, or at its end. -/
inductive Progress where
  | suspended (responder : Responder)
  | running (responder : Responder)
  | ended

/-- The token of the client has expired; 0 stands for no expiry. -/
def ExpiredAt (exp : Nat) (w : World) : Prop := exp ≠ 0 ∧ exp < w.now

/-- What a responder does in its sections, and its responses. It is resumed only for a client whose
token has not expired. -/
inductive Responder.Runs (exp : Nat) (responder : Responder) :
    List (Action × World) → List CommandResponse → Progress → Prop
  | start : Runs exp responder [] [] (.suspended responder)
  | resume {seen ms r} (h : Runs exp responder seen ms (.suspended r)) (w : World)
      (hw : ¬ExpiredAt exp w) : Runs exp responder (seen ++ [(.look, w)]) ms (.running r)
  | effect {seen ms f rest} (h : Runs exp responder seen ms (.running (.run f rest))) (w : World) :
      Runs exp responder (seen ++ [(.change f, w)]) ms (.running (rest w))
  | yield {seen ms m rest} (h : Runs exp responder seen ms (.running (.yield m rest))) :
      Runs exp responder seen (ms ++ [m]) (.suspended rest)
  | ret {seen ms m} (h : Runs exp responder seen ms (.running (.ret m))) :
      Runs exp responder seen (ms ++ [m]) .ended

namespace ExecuteCommand

variable (cfg : Config) (q : Received ExecuteCommandPayload)

/-- The sections of a command that a client may execute, with what its responder has come to. -/
inductive Executes (exp : Nat) (seen : List (Action × World)) (ms : List CommandResponse)
    (progress : Progress) : Prop
  | intro (authz : Authorizer) (found : World) (d : ServedDevice) (command : String × Node)
      (responder : Responder) (run : List (Action × World))
      (client : cfg.authorizer q.authorization = .ok (authz, exp))
      (served : found.devices q.message.slot = some d)
      (known : d.getCommand q.message.oid authz = .ok (.ok command))
      (writable : authz.writeAuthz command.2.descriptor = true)
      (defined : cfg.commandImpl q.message.slot command.1 q.message.value q.message.respond =
        .ok (some responder))
      (runs : responder.Runs exp run ms progress)
      (sections : seen = (.look, found) :: run)

/-- The messages that the responses are sent in. -/
def sent (ms : List CommandResponse) : List CommandResponse := if q.message.respond then ms else []

/-- The sections of a call that runs nothing: at most one, which looks the command up. -/
inductive LooksUp : List (Action × World) → Prop
  | none : LooksUp []
  | once (found : World) : LooksUp [(.look, found)]

/-- What a command has posted between two turns. -/
inductive Posted (exp : Nat) (seen : List (Action × World)) :
    List (Op grpc .executeCommand) → Prop
  | created (h : seen = []) : Posted exp seen []
  | waiting (h : seen = []) : Posted exp seen (trace [] none)
  | refused (rc : Status) (h : rc.code ≠ 0) (hseen : LooksUp seen) :
      Posted exp seen (trace [] (some rc))
  | sending (ms : List CommandResponse) (progress : Progress)
      (h : Executes cfg q exp seen ms progress) : Posted exp seen (trace (sent q ms) none)
  | complete (ms : List CommandResponse) (h : Executes cfg q exp seen ms .ended) :
      Posted exp seen (trace (sent q ms) (some .OK))
  | threw (ms : List CommandResponse) (why : Raised)
      (h : Executes cfg q exp seen ms (.running (.throw why))) :
      Posted exp seen (trace (sent q ms) (some (thrown why)))
  | expired (before : List (Action × World)) (w : World) (ms : List CommandResponse)
      (responder : Responder) (h : Executes cfg q exp before ms (.suspended responder))
      (hseen : seen = before ++ [(.look, w)]) (hw : ExpiredAt exp w) :
      Posted exp seen
        (trace (sent q ms) (some (.ofRc ⟨"JWS token expired", .unauthenticated⟩)))

/-- Where a command stands between two turns. -/
def Stands (x : ExecuteCommand) (seen : List (Action × World))
    (posted : List (Op grpc .executeCommand)) : Prop :=
  match x.status with
  | .kCreate => seen = [] ∧ posted = []
  | .kProcess => seen = [] ∧ posted = trace [] none
  | .kRead => False
  | .kWrite => ∃ ms responder, posted = trace (sent q ms) none ∧ x.responder = some responder ∧
      Executes cfg q x.exp seen ms (.suspended responder)
  | .kPostWrite => ∃ ms, posted = trace (sent q ms) none ∧ Executes cfg q x.exp seen ms .ended
  | .kFinish => Posted cfg q x.exp seen posted

variable {cfg q} {exp : Nat} {seen : List (Action × World)} {ms : List CommandResponse}

theorem Executes.inSection {e : Action × World} {progress progress' : Progress}
    (h : Executes cfg q exp seen ms progress)
    (hstep : ∀ responder : Responder, ∀ run, responder.Runs exp run ms progress →
      responder.Runs exp (run ++ [e]) ms progress') :
    Executes cfg q exp (seen ++ [e]) ms progress' := by
  obtain ⟨authz, found, d, command, responder, run, client, served, known, writable, defined, runs,
    rfl⟩ := h
  exact ⟨authz, found, d, command, responder, run ++ [e], client, served, known, writable, defined,
    hstep responder run runs, rfl⟩

theorem Executes.responds {m : CommandResponse} {progress progress' : Progress}
    (h : Executes cfg q exp seen ms progress)
    (hstep : ∀ responder : Responder, ∀ run, responder.Runs exp run ms progress →
      responder.Runs exp run (ms ++ [m]) progress') :
    Executes cfg q exp seen (ms ++ [m]) progress' := by
  obtain ⟨authz, found, d, command, responder, run, client, served, known, writable, defined, runs,
    hseen⟩ := h
  exact ⟨authz, found, d, command, responder, run, client, served, known, writable, defined,
    hstep responder run runs, hseen⟩

theorem sent_of_respond (h : q.message.respond = true) (ms : List CommandResponse) :
    sent q ms = ms := by
  rw [sent, if_pos h]

theorem sent_of_silent (h : ¬q.message.respond = true) (ms : List CommandResponse) :
    sent q ms = [] := by
  rw [sent, if_neg h]

theorem trace_sent (h : q.message.respond = true) (m : CommandResponse) :
    trace (I := grpc) (i := .executeCommand) (sent q ms) none ++ [.write m] =
      trace (sent q (ms ++ [m])) none := by
  rw [sent_of_respond h, sent_of_respond h]
  exact trace_write (I := grpc) (i := .executeCommand) ms m

theorem keeps_finish {x y : ExecuteCommand} {rc : Status}
    (h : Posted cfg q x.exp seen (trace (sent q ms) (some rc))) :
    (x.finish rc).Keeps (Stands cfg q) y seen (trace (sent q ms) none) := by
  rw [← trace_finish] at h
  exact h

theorem keeps_unlessExpired {x y : ExecuteCommand} {responder : Responder}
    {rest : Code grpc .executeCommand}
    (h : Executes cfg q x.exp seen ms (.suspended responder))
    (hrest : ∀ w, ¬ExpiredAt x.exp w →
      rest.Keeps (Stands cfg q) y (seen ++ [(.look, w)]) (trace (sent q ms) none)) :
    (unlessExpired x rest).Keeps (Stands cfg q) y seen (trace (sent q ms) none) := by
  intro w
  dsimp only
  split
  · rename_i hexpired
    exact keeps_finish (.expired seen w ms responder h rfl hexpired)
  · rename_i hvalid
    exact hrest w hvalid

/-- The induction is on what the responder still does. -/
theorem keeps_resume {x y : ExecuteCommand} {responder : Responder}
    (h : Executes cfg q x.exp seen ms (.running responder)) :
    (resume q.message.respond x responder).Keeps (Stands cfg q) y seen
      (trace (sent q ms) none) := by
  induction responder generalizing seen ms with
  | run effect rest ih =>
    intro w
    exact ih w (h.inSection fun _ _ hrun => hrun.effect w)
  | yield m rest ih =>
    have hyield := h.responds fun _ _ hrun => hrun.yield
    unfold resume
    split
    · rename_i hrespond
      exact ⟨ms ++ [m], rest, trace_sent hrespond m, rfl, hyield⟩
    · rename_i hsilent
      rw [sent_of_silent hsilent ms, ← sent_of_silent hsilent (ms ++ [m])]
      apply keeps_unlessExpired hyield
      intro w hw
      exact ih (hyield.inSection fun _ _ hrun => hrun.resume w hw)
  | ret m =>
    have hret := h.responds fun _ _ hrun => hrun.ret
    unfold resume
    split
    · rename_i hrespond
      exact ⟨ms ++ [m], trace_sent hrespond m, hret⟩
    · rename_i hsilent
      rw [sent_of_silent hsilent ms, ← sent_of_silent hsilent (ms ++ [m])]
      exact keeps_finish (.complete (ms ++ [m]) hret)
  | throw why => exact keeps_finish (.threw ms why h)

theorem keeps_write {x y : ExecuteCommand} {responder : Responder}
    (hx : x.responder = some responder)
    (h : Executes cfg q x.exp seen ms (.suspended responder)) :
    (write q.message.respond x).Keeps (Stands cfg q) y seen (trace (sent q ms) none) := by
  unfold write
  rw [hx]
  apply keeps_unlessExpired h
  intro w hw
  exact keeps_resume (h.inSection fun _ _ hrun => hrun.resume w hw)

theorem code_thrown_ne_zero (why : Raised) : (thrown why).code ≠ 0 := by
  cases why with
  | none => decide
  | some rc => exact Status.code_ofRc_ne_zero rc.2

theorem keeps_refuse {rc : Status} (hrc : rc.code ≠ 0) (hseen : LooksUp seen)
    (x y : ExecuteCommand) : (x.finish rc).Keeps (Stands cfg q) y seen (trace [] none) :=
  Posted.refused rc hrc hseen

theorem getCommand_error {d : ServedDevice} {oid : String} {authz : Authorizer}
    {rc : ExceptionWithStatus} (h : d.getCommand oid authz = .ok (.error rc)) :
    rc.isOk = false := by
  simp only [ServedDevice.getCommand] at h
  split at h
  · rename_i hparse
    obtain rfl := Except.error.inj (Except.ok.inj h)
    exact Path.parse_error hparse
  · cases h
  · split at h
    · obtain rfl := Except.error.inj (Except.ok.inj h)
      rfl
    · split at h
      · obtain rfl := Except.error.inj (Except.ok.inj h)
        rfl
      · split at h
        · cases h
        · obtain rfl := Except.error.inj (Except.ok.inj h)
          rfl
  · obtain rfl := Except.error.inj (Except.ok.inj h)
    rfl

theorem keeps_process (x : ExecuteCommand) :
    (process cfg q x).Keeps (Stands cfg q) x [] (trace [] none) := by
  apply keeps_attempt
  · intro rc hrc
    exact keeps_refuse (Status.code_ofRc_ne_zero (Config.checkSlot_error hrc)) .none x x
  · intro _ _
    apply keeps_attempt
    · intro rc hrc
      exact keeps_refuse (Status.code_ofRc_ne_zero (Config.authorizer_error hrc)) .none x x
    · intro decoded client
      apply keeps_withDevice
      intro found d served
      cases hcommand : d.getCommand q.message.oid decoded.1 with
      | error why => exact keeps_refuse (by decide) (.once found) x x
      | ok result =>
        apply keeps_attempt
        · intro rc hrc
          rw [hrc] at hcommand
          exact keeps_refuse (Status.code_ofRc_ne_zero (getCommand_error hcommand)) (.once found) x x
        · intro command hresult
          rw [hresult] at hcommand
          unfold execute
          split
          · exact keeps_refuse (Status.code_ofRc_ne_zero rfl) (.once found) _ x
          · rename_i writable
            cases defined : cfg.commandImpl q.message.slot command.1 q.message.value
                q.message.respond with
            | error why => exact keeps_refuse (code_thrown_ne_zero why) (.once found) _ x
            | ok responder =>
              cases responder with
              | none =>
                exact keeps_refuse (by decide) (.once found) _
                  { x with exp := decoded.2, status := .kWrite }
              | some responder =>
                have hstart : Executes cfg q decoded.2 [(.look, found)] [] (.suspended responder) :=
                  ⟨decoded.1, found, d, command, responder, [], client, served, hcommand,
                    by simpa using writable, defined, .start, rfl⟩
                have hkeeps : (write q.message.respond
                    { x with exp := decoded.2, status := .kWrite, responder }).Keeps (Stands cfg q)
                    { x with exp := decoded.2, status := .kWrite, responder } [(Action.look, found)]
                    (trace (sent q []) none) := keeps_write rfl hstart
                rw [sent, ite_self] at hkeeps
                exact hkeeps

theorem Stands.posted {x : ExecuteCommand} {posted : List (Op grpc .executeCommand)}
    (h : Stands cfg q x seen posted) : Posted cfg q x.exp seen posted := by
  rw [Stands] at h
  cases hx : x.status with
  | kCreate =>
    rw [hx] at h
    rw [h.2]
    exact .created h.1
  | kProcess =>
    rw [hx] at h
    rw [h.2]
    exact .waiting h.1
  | kRead =>
    rw [hx] at h
    exact h.elim
  | kWrite =>
    rw [hx] at h
    obtain ⟨ms, responder, rfl, _, hexecutes⟩ := h
    exact .sending ms _ hexecutes
  | kPostWrite =>
    rw [hx] at h
    obtain ⟨ms, rfl, hexecutes⟩ := h
    exact .sending ms _ hexecutes
  | kFinish =>
    rw [hx] at h
    exact h

end ExecuteCommand

def CommandsStreamed (cfg : Config) : Relation grpc
  | .executeCommand, q, x, seen, posted => ExecuteCommand.Stands cfg q x seen posted
  | _, _, _, _, _ => True

open ExecuteCommand in
theorem keeps_commandsStreamed (cfg : Config) (i : Controller) :
    Keeps (server cfg) phase (CommandsStreamed cfg) i := by
  cases i with
  | executeCommand =>
    refine keeps_stream (i := .executeCommand) status enter illegalState (process cfg)
      (fun q x => write q.message.respond x) (fun _ x => x.finish .OK) (fun _ => rfl)
      (fun _ _ _ => rfl) rfl ⟨rfl, rfl⟩ ?_ ?_ ?_ ?_ ?_
    · intro q q' x ws hx h
      have hstands : Stands cfg q x ws (trace [] none) := h
      rw [Stands, hx] at hstands
      obtain ⟨rfl, _⟩ := hstands
      exact ⟨Posted.waiting rfl, keeps_process x⟩
    · intro q x ws ops hx h
      have hstands : Stands cfg q x ws ops := h
      rw [Stands, hx] at hstands
      exact hstands
    · intro q x ws ops hx h
      have hstands : Stands cfg q x ws ops := h
      rw [Stands, hx] at hstands
      obtain ⟨ms, responder, rfl, hresponder, hexecutes⟩ := hstands
      exact ⟨Posted.sending ms _ hexecutes, keeps_write hresponder hexecutes⟩
    · intro q x ws ops hx h
      have hstands : Stands cfg q x ws ops := h
      rw [Stands, hx] at hstands
      obtain ⟨ms, rfl, hexecutes⟩ := hstands
      exact ⟨Posted.sending ms _ hexecutes, keeps_finish (.complete ms hexecutes)⟩
    · intro q x ws ops hx h
      have hstands : Stands cfg q x ws ops := h
      rw [Stands, hx] at hstands
      exact hstands
  | _ => exact keeps_of_forall fun _ _ _ _ => trivial

/-- What a command has posted, and what its sections have done and found. -/
def CommandsPosted (cfg : Config) : Relation grpc
  | .executeCommand, q, x, seen, posted => ExecuteCommand.Posted cfg q x.exp seen posted
  | _, _, _, _, _ => True

theorem CommandsPosted.of_streamed {cfg : Config} {q : i.Request} {x : i.State}
    {seen : List (Action × World)} {posted : List (Op grpc i)}
    (h : CommandsStreamed cfg i q x seen posted) : CommandsPosted cfg i q x seen posted := by
  cases i with
  | executeCommand => exact ExecuteCommand.Stands.posted h
  | _ => exact trivial

section Example

/-- The `reset` command of the panel responds once. -/
def resetConfig : Config := { panelConfig with
  commandImpl := fun _ _ _ _ => .ok (some (.run id fun _ => .ret .noResponse)) }

def resetPanel : (i : Controller) → i.Request
  | .executeCommand => ⟨⟨1, "/reset", .kindNotSet, true⟩, none⟩
  | i => blank i

/-- A client executes the command and gets its response. -/
def resetRun : List (Event grpc) :=
  [.run 7 0, .run 7 0, .complete 7 0 true resetPanel] ++ List.replicate 7 (.run 7 0)

def afterReset : Service grpc :=
  let start := (server resetConfig).start controllers panelWorld
  (replay (server resetConfig).step resetRun start).getD start

theorem reaches_afterReset : (server resetConfig).Reaches controllers panelWorld afterReset :=
  ⟨resetRun, rfl⟩

end Example

/-- Whatever the other calls do meanwhile, a call that is refused runs nothing, and a command is
executed for a client that may write it; its responder is resumed only while the token is valid; a
client that wants responses is sent each response once and in order, another none; and the status
at the end is OK exactly when the responder has come to its end. -/
theorem commands_posted (cfg : Config) (world : World) {s : Service grpc}
    (h : (server cfg).Reaches controllers world s) :
    ∀ j c, s.calls[j]? = some c → c.threads = [] →
      CommandsPosted cfg c.kind c.req c.state ((server cfg).found j s.log world) c.posted := by
  intro j c hc hidle
  have hstreamed :=
    relation_of_found (disciplined cfg) (keeps_commandsStreamed cfg) h hc hidle
  exact CommandsPosted.of_streamed hstreamed

theorem commands_posted_reset :
    ∃ c, afterReset.calls[7]? = some c ∧
      CommandsPosted resetConfig c.kind c.req c.state
        ((server resetConfig).found 7 afterReset.log panelWorld) c.posted :=
  ⟨_, rfl, commands_posted resetConfig panelWorld reaches_afterReset 7 _ rfl rfl⟩

end Catena.Grpc
