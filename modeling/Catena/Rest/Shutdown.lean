import Catena.Rest.Answers

/-!
# Shutting down the REST server

After `Shutdown` a client that still connects is told that the service is unavailable. `run` returns
only when all connections have been handled. Whether it returns is another matter: it does if every
controller comes to its end, as those of the model do and `Connect` may not.
-/

namespace Catena.Rest

open Store Rpc Grpc Framework

/-- What a client reads whose connection is refused. -/
def unavailable : Http.Message := unaryResponse (codeMap .unavailable) ['*'] []

/-- How a server comes to its end. The threads are counted in 32 bits. -/
structure ShutsDown (s : Handlers.State World Action Text Peer) : Prop where
  refused : ∀ t ∈ s.threads, t.refused = true → s.shutdown = true ∧
    (t.stage = .ended → t.broken = false →
      t.seen = [] ∧ Http.read t.written.flatten = { messages := [unavailable] })
  returned : s.main = .returned → s.shutdown = true ∧
    (s.threads.length < 2 ^ 32 → ∀ t ∈ s.threads, t.stage = .ended)

variable {cfg : Config}

theorem ends_respond {rc : StatusCode} {seen : List (Action × World)} {written : List Text}
    (h : (respond cfg rc).Ends seen written) :
    seen = [] ∧ written = [(unaryResponse (codeMap rc) ['*'] []).text] := by
  obtain ⟨hseen, hwritten⟩ := ends_finish.mp h
  refine ⟨hseen, hwritten.trans ?_⟩
  rw [Writer.response, Writer.sendResponse, sendResponse_empty]
  simp [SocketWriter.respond]

section Example

/-- The server is shut down while a client connects, whose thread starts after that. -/
def shutDownRun : List (Handlers.Event Action Peer) :=
  List.replicate 4 (.main gainPeer) ++ [.shutDown] ++ List.replicate 3 (.run 0 false) ++
    List.replicate 2 (.main gainPeer)

def afterShutDown : Handlers.State World Action Text Peer :=
  (replay (server panelService).step shutDownRun { world := panelWorld }).getD
    { world := panelWorld }

theorem reaches_afterShutDown : (server panelService).Reaches panelWorld afterShutDown :=
  ⟨shutDownRun, rfl⟩

end Example

/-- A server of controllers that all come to their ends comes to rest after the shutdown, and `run`
has returned then. -/
theorem returns_of_shutdown {world : World} {s : Handlers.State World Action Text Peer}
    (h : (server cfg).Reaches world s) : Acc (Handlers.DrainStep (server cfg)) s ∧
      (s.shutdown = true → s.aborted = false →
        (∀ s', ¬Handlers.DrainStep (server cfg) s' s) → s.main = .returned) :=
  ⟨Handlers.acc_drainStep s, fun hdown haborted hrest =>
    (Handlers.returned_of_rest h hdown haborted gainPeer hrest).1⟩

/-- A connection is refused only after the shutdown, by one response and without a section. When
`run` has returned, every connection has been handled. -/
theorem shutsDown_of_reaches (cfg : Config) (world : World)
    {s : Handlers.State World Action Text Peer} (h : (server cfg).Reaches world s) :
    ShutsDown s where
  refused t ht hrefused := by
    refine ⟨(Handlers.down_of_reaches h).refused t ht hrefused, fun hended hbroken => ?_⟩
    obtain ⟨lost, hlost, hran⟩ := Handlers.Server.ran_of_reaches h t ht
    rw [hended, hlost hbroken, List.append_nil] at hran
    have hcode : (server cfg).code t = respond cfg .unavailable := if_pos hrefused
    rw [hcode] at hran
    obtain ⟨hseen, hwritten⟩ := ends_respond hran
    refine ⟨hseen, ?_⟩
    rw [hwritten, List.flatten_singleton]
    exact read_unaryResponse .unavailable goodOrigin_any []
  returned hreturned :=
    ⟨(Handlers.down_of_reaches h).waits (Or.inr hreturned),
      Handlers.ended_of_returned h hreturned⟩

theorem shutsDown_of_reaches_panel : ShutsDown afterShutDown :=
  shutsDown_of_reaches panelService panelWorld reaches_afterShutDown

end Catena.Rest
