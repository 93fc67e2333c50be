import Catena.Grpc.SubscriptionStream
import Catena.Rest.Streams

/-!
# Subscriptions over REST

A GET looks up every subscribed oid, and writes what the device lists for it. A PUT makes its
changes one section each, and stops at an exception. A GET holds no mutex while it reads the device,
so that the model of it is that of the source only where no device changes meanwhile.
-/

namespace Catena.Rest

open Store Rpc Grpc Framework

namespace Subscriptions

open Grpc.UpdateSubscriptions (Looked)

/-- What is written about an oid, if anything is. The oid is looked up for the client. -/
def message {slot : Nat} (authz : Authorizer) (e : Looked slot) : Option ComponentParam :=
  (listing e.device.device e.device.values authz authz e.oid).map Listed.res

variable (cfg : Config) (r : Request)

/-- The sections of a GET, and its messages. -/
inductive Lists (seen : List (Action × World)) (ms : List ComponentParam) : Prop
  | intro (authz : Authorizer) (exp : Nat) (checked started : World) (d d' : ServedDevice)
      (looked : List (Looked (slotOf r)))
      (client : cfg.readToken r = .ok (authz, exp))
      (found : checked.devices (slotOf r) = some d) (enabled : d.subscriptions = true)
      (served : started.devices (slotOf r) = some d')
      (sections : seen = (.look, checked) :: (.look, started) :: looked.map Looked.section)
      (subscribed : started.getAllSubscribedOids d' = looked.map Looked.oid)
      (messages : ms = looked.filterMap (message authz))

/-- The sections of a PUT. -/
inductive Updates (seen : List (Action × World)) : Prop
  | intro (authz : Authorizer) (exp : Nat) (checked : World) (d : ServedDevice)
      (addedOids removedOids : List String) (updated : List (Action × World))
      (client : cfg.readToken r = .ok (authz, exp))
      (found : checked.devices (slotOf r) = some d) (enabled : d.subscriptions = true)
      (parsed : cfg.parseUpdates r.jsonBody = some (addedOids, removedOids))
      (sections : seen = (.look, checked) :: updated)
      (changes : updated.map Prod.fst =
        addedOids.map (Action.addSubscription (slotOf r) · authz) ++
          removedOids.map (Action.removeSubscription (slotOf r)))

/-- A request is refused or stopped with an error, or all is listed, or all changes are made. -/
inductive Responds (seen : List (Action × World)) : StatusCode → List ComponentParam → Prop
  | refused (fin : StatusCode) (h : fin ≠ .ok) : Responds seen fin []
  | listed (ms : List ComponentParam) (hget : r.method = .get) (h : Lists cfg r seen ms) :
      Responds seen .ok ms
  | updated (hput : r.method = .put) (h : Updates cfg r seen) : Responds seen .ok []

variable {cfg r} {seen : List (Action × World)} {written : List Text} {writer : Writer}
  {slot : Nat} {authz : Authorizer}

/-- The induction is on the oids that are left. -/
theorem ends_list {oids : List String} (h : (list cfg slot authz oids writer).Ends seen written) :
    ∃ looked : List (Looked slot), seen = looked.map Looked.section ∧
      oids = looked.map Looked.oid ∧ written =
        writer.sends cfg.print .ok ((looked.filterMap (message authz)).map .componentParam) := by
  induction oids generalizing seen written writer with
  | nil =>
    obtain ⟨rfl, rfl⟩ := ends_finish.mp h
    exact ⟨[], rfl, rfl, rfl⟩
  | cons oid oids ih =>
    obtain ⟨w, d, seen', rfl, hd, hlook⟩ := ends_withDevice.mp h
    cases hlisted : listing d.device d.values authz authz oid with
    | none =>
      rw [hlisted] at hlook
      obtain ⟨looked, rfl, rfl, rfl⟩ := ih hlook
      refine ⟨⟨oid, w, d, hd⟩ :: looked, rfl, rfl, ?_⟩
      rw [List.filterMap_cons_none (by rw [message, hlisted]; rfl)]
    | some listed =>
      rw [hlisted] at hlook
      obtain ⟨written', rfl, hrest⟩ := Handlers.Code.ends_write.mp hlook
      obtain ⟨looked, rfl, rfl, rfl⟩ := ih hrest
      refine ⟨⟨oid, w, d, hd⟩ :: looked, rfl, rfl, ?_⟩
      rw [List.filterMap_cons_some (by rw [message, hlisted]; rfl)]
      rfl

/-- Each oid is added in a section of its own, until one of them throws. -/
theorem ends_add {rest : Code} {oids : List String}
    (h : (add cfg slot authz writer rest oids).Ends seen written) :
    (∃ fin, fin ≠ .ok ∧ written = writer.sends cfg.print fin []) ∨
      ∃ added seen', seen = added ++ seen' ∧
        added.map Prod.fst = oids.map (Action.addSubscription slot · authz) ∧
        rest.Ends seen' written := by
  induction oids generalizing seen with
  | nil => exact Or.inr ⟨[], seen, rfl, rfl, h⟩
  | cons oid oids ih =>
    obtain ⟨w, d, seen', rfl, _, hadd⟩ := ends_withDevice.mp h
    cases hadded : w.subscriptions.addSubscription oid d.device d.values authz with
    | ok result =>
      rw [hadded] at hadd
      obtain hfailed | ⟨added, seen'', rfl, hactions, hrest⟩ := ih hadd
      · exact Or.inl hfailed
      · exact Or.inr ⟨_ :: added, seen'', rfl, congrArg (_ :: ·) hactions, hrest⟩
    | error stop =>
      rw [hadded] at hadd
      cases stop with
      | outOfFuel => exact (Handlers.Code.not_ends_abort hadd).elim
      | threw thrown =>
        cases thrown with
        | withStatus why =>
          have hwhy := SubscriptionManager.addSubscription_threw hadded
          exact Or.inl ⟨_, ofRc_ne_ok hwhy, (ends_finish.mp hadd).2⟩
        | outOfRange => exact Or.inl ⟨.unknown, by decide, (ends_finish.mp hadd).2⟩

theorem ends_remove {rest : Code} {oids : List String}
    (h : (remove slot rest oids).Ends seen written) :
    ∃ removed seen', seen = removed ++ seen' ∧
      removed.map Prod.fst = oids.map (Action.removeSubscription slot) ∧
      rest.Ends seen' written := by
  induction oids generalizing seen with
  | nil => exact ⟨[], seen, rfl, rfl, h⟩
  | cons oid oids ih =>
    obtain ⟨w, seen', rfl, hremove⟩ := Handlers.Code.ends_locked.mp h
    obtain ⟨removed, seen'', rfl, hactions, hrest⟩ := ih hremove
    exact ⟨_ :: removed, seen'', rfl, congrArg (_ :: ·) hactions, hrest⟩

theorem ends_proceed (h : (proceed cfg r writer).Ends seen written) :
    ∃ fin ms, written = writer.sends cfg.print fin (ms.map .componentParam) ∧
      Responds cfg r seen fin ms := by
  obtain ⟨rc, hrc, rfl, rfl⟩ | ⟨_, _, hslot⟩ := ends_attempt h
  · exact ⟨_, [], rfl, .refused _ (ofRc_ne_ok (Config.checkSlot_error hrc))⟩
  obtain ⟨checked, d, seen', rfl, found, hchecked⟩ := ends_withDevice.mp hslot
  split at hchecked
  · exact ⟨_, [], (ends_finish.mp hchecked).2, .refused .failedPrecondition (by decide)⟩
  rename_i henabled
  have enabled : d.subscriptions = true := by simpa using henabled
  obtain ⟨rc, hrc, rfl, rfl⟩ | ⟨decoded, client, htoken⟩ := ends_attempt hchecked
  · rw [← authorizer_bearer] at hrc
    exact ⟨_, [], rfl, .refused _ (ofRc_ne_ok (Config.authorizer_error hrc))⟩
  split at htoken
  · rename_i hget
    obtain ⟨started, d', seen'', rfl, served, hlist⟩ := ends_withDevice.mp htoken
    obtain ⟨looked, rfl, hoids, rfl⟩ := ends_list hlist
    exact ⟨.ok, _, rfl, .listed _ hget
      ⟨decoded.1, decoded.2, checked, started, d, d', looked, client, found, enabled, served, rfl,
        hoids, rfl⟩⟩
  · rename_i hput
    unfold update at htoken
    split at htoken
    · exact ⟨_, [], (ends_finish.mp htoken).2, .refused .invalidArgument (by decide)⟩
    · rename_i addedOids removedOids parsed
      obtain ⟨fin, hfin, hwritten⟩ | ⟨added, seen'', rfl, hadded, hremove⟩ := ends_add htoken
      · exact ⟨fin, [], hwritten, .refused fin hfin⟩
      · obtain ⟨removed, seen''', rfl, hremoved, hfinish⟩ := ends_remove hremove
        obtain ⟨rfl, rfl⟩ := ends_finish.mp hfinish
        refine ⟨.ok, [], rfl, .updated hput ?_⟩
        refine ⟨decoded.1, decoded.2, checked, d, addedOids, removedOids, added ++ removed, client,
          found, enabled, parsed, ?_, ?_⟩
        · rw [List.append_nil]
        · rw [List.map_append, hadded, hremoved]
  · exact ⟨_, [], (ends_finish.mp htoken).2, .refused .unimplemented (by decide)⟩

end Subscriptions

/-- What the client of a request about subscriptions gets, of the devices that have been there from
the beginning of the run. -/
def Subscribed (cfg : Config) (world : World) (seen : List (Action × World))
    (t : Handlers.Thread World Action Text Peer) : Prop :=
  t.stage = .ended → t.refused = false → ∀ r, cfg.read t.conn = .ok r →
    router.lookup (requestKey r) = some .subscriptions →
      (∀ e ∈ seen, e.2.devices = world.devices) ∧
        ∃ fin ms, Subscriptions.Responds cfg r seen fin ms ∧
          Gets cfg r (r.method = .get ∧ r.stream) t fin (ms.map .componentParam)

section Example

def subscribeBody : Text := "\x7b\"addedOids\":[\"/mute\",\"/gain\"]\x7d".toList

def subscribeService : Config := { panelService with
  parseUpdates body := if body = subscribeBody then some (["/mute", "/gain"], []) else none }

def subscribePeer : Peer where
  arrival :=
    ⟨"PUT /st2138-api/v1.0/1/subscriptions HTTP/1.1\r\n".toList ++
      "Content-Type: application/json\r\nContent-Length: 31\r\n\r\n".toList ++ subscribeBody,
      [], .failed⟩

/-- A client asks for the subscribed parameters. -/
def listPeer : Peer where
  arrival := ⟨"GET /st2138-api/v1.0/1/subscriptions HTTP/1.1\r\n\r\n".toList, [], .failed⟩

/-- Both clients connect, and the first is served before the second. -/
def subscribeRun : List (Handlers.Event Action Peer) :=
  List.replicate 4 (.main subscribePeer) ++ List.replicate 4 (.main listPeer) ++
    List.replicate 6 (.run 0 false) ++ List.replicate 9 (.run 1 false)

def afterSubscribe : Handlers.State World Action Text Peer :=
  (replay (server subscribeService).step subscribeRun { world := panelWorld }).getD
    { world := panelWorld }

theorem reaches_afterSubscribe :
    (server subscribeService).Reaches panelWorld afterSubscribe :=
  Handlers.Server.reaches_getD (by decide +kernel)

theorem thread_afterSubscribe : (afterSubscribe.threads[1]?).isSome = true := by decide +kernel

end Example

/-- Where only subscriptions change, a REST request about them is refused or stopped with an error,
or its client gets what the device lists for every subscribed oid, each looked up once, or all its
changes are made in their order, however the connections interleave. -/
theorem subscriptions_responded (cfg : Config) (world : World)
    {s : Handlers.State World Action Text Peer} (h : (server cfg).Reaches world s)
    (hlog : ∀ e ∈ s.log, e.2.KeepsDevices) : ∀ j t, s.threads[j]? = some t →
      Subscribed cfg world (Log.found World.act j s.log world) t := by
  intro j t ht hended hrefused r hread hlookup
  refine ⟨World.devices_of_found hlog world j, ?_⟩
  obtain ⟨lost, hlost, hends⟩ := Handlers.Server.ends_of_found h ht hended
  rw [code_of_lookup hrefused hread hlookup] at hends
  obtain ⟨fin, ms, hwritten, hresponds⟩ := Subscriptions.ends_proceed hends
  exact ⟨fin, ms, hresponds, gets_of_sends (goodOrigin_read hread) hlost hwritten⟩

theorem subscriptions_responded_panel : ∃ t, afterSubscribe.threads[1]? = some t ∧
    Subscribed subscribeService panelWorld
      (Log.found World.act 1 afterSubscribe.log panelWorld) t :=
  ⟨Option.get _ thread_afterSubscribe, (Option.some_get _).symm,
    subscriptions_responded subscribeService panelWorld reaches_afterSubscribe
      (Action.keepsDevices_of_all (by decide +kernel)) 1 _ (Option.some_get _).symm⟩

end Catena.Rest
