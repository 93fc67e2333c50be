import Catena.Grpc.DeviceStream
import Catena.Rest.Streams

/-!
# Device requests over REST

A device request writes a message for every component, which it takes out in a section of its own.
Its client gets the components as the events of a stream, or as one array. They are those of a gRPC
device request that subscribes to nothing.
-/

namespace Catena.Rest

open Store Rpc Grpc Framework

variable {cfg : Config} {seen : List (Action × World)} {written : List Text} {writer : Writer}

namespace DeviceRequest

open Grpc.DeviceRequest

/-- The gRPC call that asks for the same components. -/
def received (r : Request) : Received DeviceRequestPayload :=
  ⟨⟨slotOf r, r.detailLevel, []⟩, bearer r⟩

/-- What is written for some components and a status. -/
def sends (cfg : Config) (fin : StatusCode) (ms : List DeviceComponent) (writer : Writer) :
    List Text :=
  writer.sends cfg.print fin (ms.map .deviceComponent)

theorem ends_stream {slot : Nat} {authz : Authorizer} {serializer : Coroutine DeviceKey DeviceKey}
    (h : (stream cfg slot authz serializer writer).Ends seen written) :
    ∃ sent : List (Sent slot), seen = sent.map Sent.section ∧
      serializer.values = sent.map Sent.key ∧
      written = sends cfg .ok (sent.map (Sent.component authz)) writer := by
  induction serializer generalizing seen written writer with
  | ret key =>
    obtain ⟨w, d, seen', rfl, hd, hsend⟩ := ends_withDevice.mp h
    obtain ⟨written', rfl, hfinish⟩ := Handlers.Code.ends_write.mp hsend
    obtain ⟨rfl, rfl⟩ := ends_finish.mp hfinish
    exact ⟨[⟨key, w, d, hd⟩], rfl, rfl, rfl⟩
  | yield key serializer ih =>
    obtain ⟨w, d, seen', rfl, hd, hsend⟩ := ends_withDevice.mp h
    obtain ⟨written', rfl, hrest⟩ := Handlers.Code.ends_write.mp hsend
    obtain ⟨sent, rfl, hvalues, rfl⟩ := ih hrest
    refine ⟨⟨key, w, d, hd⟩ :: sent, rfl, ?_, rfl⟩
    rw [Coroutine.values, hvalues]
    rfl

/-- What a request comes to: an error without components, or all components of a serializer. -/
def Responds (cfg : Config) (r : Request) (seen : List (Action × World)) (fin : StatusCode)
    (ms : List DeviceComponent) : Prop :=
  (fin ≠ .ok ∧ ms = []) ∨
    (fin = .ok ∧ ∃ authz, Streams cfg.toConfig (received r) authz seen ms [])

variable {r : Request} {authz : Authorizer} {exp : Nat}

theorem ends_start {before : List (Action × World)} {subscribedOids : List String}
    (client : cfg.toConfig.authorizer (bearer r) = .ok (authz, exp))
    (hbefore : Subscribes (received r) authz before subscribedOids)
    (h : (start cfg r authz writer subscribedOids).Ends seen written) :
    ∃ fin ms, written = sends cfg fin ms writer ∧ Responds cfg r (before ++ seen) fin ms := by
  obtain ⟨w, d, seen', rfl, hd, hattempt⟩ := ends_withDevice.mp h
  obtain ⟨rc, hrc, rfl, rfl⟩ | ⟨serializer, hserializer, hrest⟩ := ends_attempt hattempt
  · exact ⟨_, [], rfl, Or.inl ⟨ofRc_ne_ok (getComponentSerializer_error hrc), rfl⟩⟩
  · rw [ServedDevice.getComponentSerializer] at hserializer
    split at hserializer
    · cases hserializer
    · rename_i henabled
      obtain rfl := Except.ok.inj hserializer
      obtain ⟨sent, rfl, hvalues, rfl⟩ := ends_stream hrest
      refine ⟨.ok, _, rfl, Or.inr ⟨rfl, authz, ?_⟩⟩
      refine ⟨exp, before, subscribedOids, w, d, sent, client, hbefore, hd, ?_, rfl, ?_, rfl⟩
      · intro hdl
        by_contra hoff
        exact henabled ⟨hdl, Bool.eq_false_iff.mpr hoff⟩
      · rw [List.append_nil]
        exact hvalues

theorem ends_proceed (h : (proceed cfg r writer).Ends seen written) :
    ∃ fin ms, written = sends cfg fin ms writer ∧ Responds cfg r seen fin ms := by
  obtain ⟨rc, hrc, rfl, rfl⟩ | ⟨_, _, hslot⟩ := ends_attempt h
  · exact ⟨_, [], rfl, Or.inl ⟨ofRc_ne_ok (Config.checkSlot_error hrc), rfl⟩⟩
  obtain ⟨rc, hrc, rfl, rfl⟩ | ⟨decoded, hdecoded, htoken⟩ := ends_attempt hslot
  · rw [← authorizer_bearer] at hrc
    exact ⟨_, [], rfl, Or.inl ⟨ofRc_ne_ok (Config.authorizer_error hrc), rfl⟩⟩
  rw [← authorizer_bearer] at hdecoded
  split at htoken
  · rename_i hdl
    obtain ⟨w, d, seen', rfl, hd, hstart⟩ := ends_withDevice.mp htoken
    exact ends_start hdecoded (.listed hdl [] w d rfl hd) hstart
  · rename_i hdl
    exact ends_start hdecoded (.unused hdl) htoken

end DeviceRequest

/-- What the client of a device request gets: the components that the device has had from the
beginning of the run. -/
def Delivered (cfg : Config) (world : World) (seen : List (Action × World))
    (t : Handlers.Thread World Action Text Peer) : Prop :=
  t.stage = .ended → t.refused = false → ∀ r, cfg.read t.conn = .ok r →
    router.lookup (requestKey r) = some .deviceRequest →
      (∀ authz, Grpc.DeviceRequest.SameKeys (DeviceRequest.received r) authz world seen) ∧
        ∃ fin ms, DeviceRequest.Responds cfg r seen fin ms ∧
          Gets cfg r r.stream t fin (ms.map .deviceComponent)

section Example

/-- The JSON of the device and of its parameters, without the members that have their defaults. -/
def minimalService : Config := { panelService with
  print
    | .deviceComponent (.device device) =>
        json ("\x7b\"device\":\x7b\"multiSetEnabled\":true,\"subscriptions\":true,".toList ++
          "\"defaultScope\":\"".toList ++ device.defaultScope.toList ++ "\"\x7d\x7d".toList)
    | .deviceComponent (.param param) =>
        json ("\x7b\"param\":".toList ++ paramJson param ++ "\x7d".toList)
    | _ => .error [] }

/-- A client that asks for the minimal set of the panel. -/
def minimalPeer : Peer where
  arrival :=
    ⟨"GET /st2138-api/v1.0/1/stream HTTP/1.1\r\nDetail-Level: MINIMAL\r\n\r\n".toList, [], .failed⟩

/-- The client is sent the device, the gain, and the end of the stream. -/
def minimalRun : List (Handlers.Event Action Peer) :=
  List.replicate 4 (.main minimalPeer) ++ List.replicate 8 (.run 0 false)

def afterMinimal : Handlers.State World Action Text Peer :=
  (replay (server minimalService).step minimalRun { world := panelWorld }).getD
    { world := panelWorld }

theorem reaches_afterMinimal : (server minimalService).Reaches panelWorld afterMinimal :=
  Handlers.Server.reaches_getD (by decide +kernel)

theorem thread_afterMinimal : (afterMinimal.threads[0]?).isSome = true := by decide +kernel

end Example

/-- Where nothing but values changes, a REST device request is refused with an error, or its client
gets the components that a gRPC device request gets, however the connections interleave. -/
theorem devices_delivered (cfg : Config) (world : World)
    {s : Handlers.State World Action Text Peer} (h : (server cfg).Reaches world s)
    (hlog : ∀ e ∈ s.log, e.2.KeepsItems) : ∀ j t, s.threads[j]? = some t →
      Delivered cfg world (Log.found World.act j s.log world) t := by
  intro j t ht hended hrefused r hread hlookup
  refine ⟨fun _ =>
    Grpc.DeviceRequest.sameKeys_of_revalues (World.revalues_of_found hlog world j), ?_⟩
  obtain ⟨lost, hlost, hends⟩ := Handlers.Server.ends_of_found h ht hended
  rw [code_of_lookup hrefused hread hlookup] at hends
  obtain ⟨fin, ms, hwritten, hresponds⟩ := DeviceRequest.ends_proceed hends
  exact ⟨fin, ms, hresponds, gets_of_sends (goodOrigin_read hread) hlost hwritten⟩

theorem devices_delivered_minimal : ∃ t, afterMinimal.threads[0]? = some t ∧
    Delivered minimalService panelWorld (Log.found World.act 0 afterMinimal.log panelWorld) t :=
  ⟨Option.get _ thread_afterMinimal, (Option.some_get _).symm,
    devices_delivered minimalService panelWorld reaches_afterMinimal
      (Action.keepsItems_of_all (by decide +kernel)) 0 _ (Option.some_get _).symm⟩

end Catena.Rest
