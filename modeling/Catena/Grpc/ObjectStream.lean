import Catena.Grpc.DeviceStream

/-!
# What an external object request sends

The file is looked for, read after that, and sent with its digest in one message.
-/

namespace Catena.Grpc

open Store Rpc Framework Framework.Completion

variable {i : Controller}

namespace ExternalObjectRequest

variable (cfg : Config) (q : Received OidPayload)

/-- The file has been there, and the one message has what has been read of it. -/
def Sends (seen : List (Action × World)) (ms : List ExternalObjectPayload) : Prop :=
  let path := cfg.EOPath ++ q.message.oid
  ∃ asked opened data, seen = [(.look, asked), (.look, opened)] ∧
    (asked.files path).fileExists = some true ∧ (opened.files path).read = some data ∧
      ms = [⟨data, cfg.sha256 data⟩] ∧ q.message.slot ∈ cfg.slots

def Posted (seen : List (Action × World)) (posted : List (Op grpc .externalObjectRequest)) :
    Prop :=
  Streamed .externalObjectRequest .OK (fun rc => rc.code ≠ 0) (fun ms _ => Sends cfg q seen ms)
    posted

def Stands (x : CallStatus) (seen : List (Action × World))
    (posted : List (Op grpc .externalObjectRequest)) : Prop :=
  match x with
  | .kCreate => seen = [] ∧ posted = []
  | .kProcess => seen = [] ∧ posted = trace [] none
  | .kRead | .kWrite => False
  | .kPostWrite => ∃ ms, posted = trace ms none ∧ Sends cfg q seen ms
  | .kFinish => Posted cfg q seen posted

variable {cfg q}

theorem keeps_refuse {rc : Status} (hrc : rc.code ≠ 0) (y : CallStatus)
    (seen : List (Action × World)) :
    (Grpc.finish (i := .externalObjectRequest) id rc).Keeps (Stands cfg q) y seen
      (trace [] none) := by
  have hposted : Posted cfg q seen (trace [] (some rc)) :=
    Streamed.refused (i := .externalObjectRequest) rc hrc
  exact hposted

theorem code_notFound (oid : String) : (notFound oid).code = 5 := by
  simp only [notFound]
  split <;> rfl

theorem keeps_write (y : CallStatus) :
    (write cfg q).Keeps (Stands cfg q) y [] (trace [] none) := by
  unfold write
  dsimp only
  split
  · exact keeps_refuse (Status.code_ofRc_ne_zero rfl) y []
  · split
    · exact keeps_refuse (Status.code_ofRc_ne_zero rfl) y []
    · rename_i hslot
      intro asked
      dsimp only
      split
      · exact keeps_refuse (by decide) y _
      · refine keeps_refuse ?_ y _
        rw [code_notFound]
        decide
      · rename_i hthere
        intro opened
        change ((opened.files (cfg.EOPath ++ q.message.oid)).read.elim _ _ :
          Code grpc .externalObjectRequest).Keeps (Stands cfg q) y
            [(Action.look, asked), (Action.look, opened)] (trace [] none)
        cases hdata : (opened.files (cfg.EOPath ++ q.message.oid)).read with
        | none => exact keeps_refuse (by decide) y _
        | some data =>
          exact ⟨_, rfl, asked, opened, data, rfl, hthere, hdata, rfl, not_not.mp hslot⟩

theorem Stands.posted {x : CallStatus} {seen : List (Action × World)}
    {posted : List (Op grpc .externalObjectRequest)} (h : Stands cfg q x seen posted) :
    Posted cfg q seen posted := by
  cases x with
  | kCreate =>
    rw [h.2]
    exact Streamed.created (i := .externalObjectRequest)
  | kProcess =>
    rw [h.2]
    exact Streamed.waiting (i := .externalObjectRequest)
  | kRead | kWrite => exact h.elim
  | kPostWrite =>
    obtain ⟨ms, rfl, hsends⟩ := h
    exact Streamed.sending (i := .externalObjectRequest) ms hsends
  | kFinish => exact h

end ExternalObjectRequest

def ObjectsStreamed (cfg : Config) : Relation grpc
  | .externalObjectRequest, q, x, seen, posted => ExternalObjectRequest.Stands cfg q x seen posted
  | _, _, _, _, _ => True

open ExternalObjectRequest in
theorem keeps_objectsStreamed (cfg : Config) (i : Controller) :
    Keeps (server cfg) phase (ObjectsStreamed cfg) i := by
  cases i with
  | externalObjectRequest =>
    refine keeps_stream (i := .externalObjectRequest) id (fun _ => id) illegalState
      (fun q _ => Code.set CallStatus.kWrite (write cfg q)) (fun q _ => write cfg q)
      (fun _ _ => Grpc.finish (i := .externalObjectRequest) id .OK) (fun _ => rfl)
      (fun _ _ _ => rfl) rfl ⟨rfl, rfl⟩ ?_ ?_ ?_ ?_ ?_
    · intro q q' x ws hx h
      obtain rfl : x = .kProcess := hx
      obtain ⟨rfl, _⟩ := h
      exact ⟨Streamed.waiting (i := .externalObjectRequest), keeps_write .kWrite⟩
    · intro q x ws ops hx h
      obtain rfl : x = .kRead := hx
      exact h
    · intro q x ws ops hx h
      obtain rfl : x = .kWrite := hx
      exact h.elim
    · intro q x ws ops hx h
      obtain rfl : x = .kPostWrite := hx
      obtain ⟨ms, rfl, hsends⟩ := h
      refine ⟨Streamed.sending (i := .externalObjectRequest) ms hsends, ?_⟩
      have hposted : Posted cfg q ws (trace ms (some .OK)) :=
        Streamed.complete (i := .externalObjectRequest) ms hsends
      rw [← trace_finish] at hposted
      exact hposted
    · intro q x ws ops hx h
      obtain rfl : x = .kFinish := hx
      exact h
  | _ => exact keeps_of_forall fun _ _ _ _ => trivial

/-- What an external object request has posted, and what its section has found. -/
def ObjectsPosted (cfg : Config) : Relation grpc
  | .externalObjectRequest, q, _, seen, posted => ExternalObjectRequest.Posted cfg q seen posted
  | _, _, _, _, _ => True

theorem ObjectsPosted.of_streamed {cfg : Config} {q : i.Request} {x : i.State}
    {seen : List (Action × World)} {posted : List (Op grpc i)}
    (h : ObjectsStreamed cfg i q x seen posted) : ObjectsPosted cfg i q x seen posted := by
  cases i with
  | externalObjectRequest => exact ExternalObjectRequest.Stands.posted h
  | _ => exact trivial

section Example

def fileWorld : World := { panelWorld with
  files := fun path => if path = "/icon" then .contents [1, 2] else .missing }

def iconRequest : (i : Controller) → i.Request
  | .externalObjectRequest => ⟨⟨1, "/icon"⟩, none⟩
  | i => blank i

/-- A client asks for the file, is sent it, and gets the status. -/
def iconRun : List (Event grpc) :=
  [.run 5 0, .run 5 0, .complete 5 0 true iconRequest] ++ List.replicate 6 (.run 5 0) ++
    [.complete 5 0 true iconRequest, .run 5 0, .run 5 0]

def afterIcon : Service grpc :=
  let start := (server panelConfig).start controllers fileWorld
  (replay (server panelConfig).step iconRun start).getD start

theorem reaches_afterIcon : (server panelConfig).Reaches controllers fileWorld afterIcon :=
  ⟨iconRun, rfl⟩

end Example

end Catena.Grpc
