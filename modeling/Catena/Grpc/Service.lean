import Catena.Framework.Log
import Catena.Framework.Turns
import Catena.Rpc.Compression
import Catena.Rpc.DeviceStream
import Catena.Store.SubscriptionManager

/-!
# The gRPC service

What the handlers of a service share: the devices by slot, the subscription manager, and the
sections in which a handler holds the mutex of a device or of the subscription manager. A request
of the gRPC service comes with the metadata of its client.
-/

namespace Catena.Grpc

open Store Rpc Framework Framework.Completion

/-- `CallStatus`: the states of a `CallData` object. -/
inductive CallStatus where
  | kCreate
  | kProcess
  | kRead
  | kWrite
  | kPostWrite
  | kFinish
  deriving DecidableEq, Repr

/-- A device with the language packs that can be added to it. -/
structure ServedDevice extends DeviceModel where
  languages : LanguageStore

namespace ServedDevice

def revalue (d : ServedDevice) (values : d.device.State) : ServedDevice := { d with values }

/-- The device with other language packs, those that the pointers lead to. -/
def withLanguages (d : ServedDevice) (languages : LanguageStore) : ServedDevice :=
  let pack (e : Σ _ : String, Nat) (packs : StringMap LanguagePack) : StringMap LanguagePack :=
    (languages.heap.lookup e.2).elim packs (packs.insert e.1)
  { d with languages, languagePacks := languages.languagePacks.entries.foldr pack ∅ }

/-- `getLanguagePack` into a fresh message, `none` if a dangling pointer is followed. -/
def getLanguagePack (d : ServedDevice) (languageId : String) :
    Option (ExceptionWithStatus × ComponentLanguagePack) :=
  d.languages.getLanguagePack languageId {}

/-- `Device::toProto(LanguageList)`. -/
def languageList (d : ServedDevice) : List String := d.languages.languagePacks.keys

def hasLanguage (d : ServedDevice) (languageId : String) : Bool :=
  (d.languages.languagePacks.lookup languageId).isSome

/-- The section of a REST request that adds a language pack with POST, or updates it with PUT. -/
def putLanguage (d : ServedDevice) (post : Bool) (language : AddLanguagePayload)
    (authz : Authorizer) : Option (ExceptionWithStatus × LanguageStore) :=
  if (post && d.hasLanguage language.language) || (!post && !d.hasLanguage language.language) then
    some (⟨"", .permissionDenied⟩, d.languages)
  else d.languages.addLanguage language authz

end ServedDevice

/-- What is at a path of the file system. -/
inductive File where
  | missing
  | hidden
  | closed
  | broken
  | contents (data : Bytes)

namespace File

/-- `std::filesystem::exists`, `none` if it throws. -/
def fileExists : File → Option Bool
  | .missing => some false
  | .hidden => none
  | .closed | .broken | .contents _ => some true

/-- What an `ifstream` reads to its end, `none` if it throws. One that cannot be opened reads
nothing, and whether it has been opened is not asked. -/
def read : File → Option Bytes
  | .missing | .hidden | .closed => some []
  | .broken => none
  | .contents data => some data

end File

/-- What the handlers act on. `devices` are the devices of `dms_`, and `now` is the clock. -/
structure World where
  devices : Nat → Option ServedDevice
  subscriptions : SubscriptionManager
  files : String → File := fun _ => .missing
  now : Nat := 0

/-- What is done under a mutex. The code of a device, which its commands are part of, may change
everything. -/
inductive Action where
  | look
  | write (slot : Nat) (call : Store.Call)
  | addLanguage (slot : Nat) (language : AddLanguagePayload) (authz : Authorizer)
  | putLanguage (slot : Nat) (post : Bool) (language : AddLanguagePayload) (authz : Authorizer)
  | removeLanguage (slot : Nat) (languageId : String) (authz : Authorizer)
  | addSubscription (slot : Nat) (oid : String) (authz : Authorizer)
  | removeSubscription (slot : Nat) (oid : String)
  | change (effect : World → World)

namespace World

/-- The world with a change to the device in a slot. -/
def update (w : World) (slot : Nat) (f : ServedDevice → ServedDevice) : World :=
  { w with devices := Function.update w.devices slot ((w.devices slot).map f) }

/-- The world after a section. `addSubscription` holds the mutex of the device only for a part of
what it does, and is one section all the same. -/
def act : Action → World → World
  | .look, w => w
  | .write slot call, w => w.update slot fun d => d.revalue (d.device.call d.values call).store
  | .addLanguage slot language authz, w =>
      w.update slot fun d =>
        let added := (d.languages.addLanguage language authz).map Prod.snd
        d.withLanguages (added.getD d.languages)
  | .putLanguage slot post language authz, w =>
      w.update slot fun d =>
        let put := (d.putLanguage post language authz).map Prod.snd
        d.withLanguages (put.getD d.languages)
  | .removeLanguage slot languageId authz, w =>
      w.update slot fun d => d.withLanguages (d.languages.removeLanguage languageId authz).2
  | .addSubscription slot oid authz, w =>
      let added := (w.devices slot).map fun d =>
        w.subscriptions.afterAdd oid d.device d.values authz
      { w with subscriptions := added.getD w.subscriptions }
  | .removeSubscription slot oid, w =>
      let removed := (w.devices slot).map fun d =>
        (w.subscriptions.removeSubscription oid d.device.slot).2
      { w with subscriptions := removed.getD w.subscriptions }
  | .change effect, w => effect w

end World

/-! ## What the sections keep -/

namespace Action

/-- Sections that change no device. -/
inductive KeepsDevices : Action → Prop
  | look : KeepsDevices .look
  | addSubscription (slot : Nat) (oid : String) (authz : Authorizer) :
      KeepsDevices (.addSubscription slot oid authz)
  | removeSubscription (slot : Nat) (oid : String) : KeepsDevices (.removeSubscription slot oid)
  | change : KeepsDevices (.change id)

/-- Sections that change nothing but the values of a device, with no traversal among them, which
would see the values change. -/
inductive KeepsItems : Action → Prop
  | look : KeepsItems .look
  | write (slot : Nat) (call : Store.Call) : KeepsItems (.write slot call)
  | removeSubscription (slot : Nat) (oid : String) : KeepsItems (.removeSubscription slot oid)
  | change : KeepsItems (.change id)

/-- A section that is seen to change no device, or only values. -/
def isQuiet (write addition : Bool) : Action → Bool
  | .look | .removeSubscription _ _ => true
  | .write _ _ => write
  | .addSubscription _ _ _ => addition
  | _ => false

theorem keepsItems_of_all {log : List (Option Nat × Action)}
    (h : log.all (fun e => e.2.isQuiet true false) = true) : ∀ e ∈ log, e.2.KeepsItems := by
  intro e he
  have hquiet := List.all_eq_true.mp h e he
  cases ha : e.2 <;> rw [ha] at hquiet <;> first | constructor | cases hquiet

theorem keepsDevices_of_all {log : List (Option Nat × Action)}
    (h : log.all (fun e => e.2.isQuiet false true) = true) : ∀ e ∈ log, e.2.KeepsDevices := by
  intro e he
  have hquiet := List.all_eq_true.mp h e he
  cases ha : e.2 <;> rw [ha] at hquiet <;> first | constructor | cases hquiet

end Action

namespace World

theorem devices_act {a : Action} (h : a.KeepsDevices) (w : World) :
    (w.act a).devices = w.devices := by
  cases h <;> rfl

/-- The devices are those of another world, with values of their own. -/
def Revalues (w w' : World) : Prop :=
  ∀ slot d', w'.devices slot = some d' →
    ∃ d values, w.devices slot = some d ∧ d' = d.revalue values

theorem Revalues.refl (w : World) : w.Revalues w :=
  fun _ d hd => ⟨d, d.values, hd, rfl⟩

theorem Revalues.act {w w' : World} (h : w.Revalues w') {a : Action} (ha : a.KeepsItems) :
    w.Revalues (w'.act a) := by
  cases ha with
  | look => exact h
  | removeSubscription slot oid => exact h
  | change => exact h
  | write slot call =>
    intro slot' d' hd'
    by_cases hslot : slot' = slot
    · subst hslot
      simp only [World.act, update, Function.update_self, Option.map_eq_some_iff] at hd'
      obtain ⟨d, hd, rfl⟩ := hd'
      obtain ⟨d₀, values, hd₀, rfl⟩ := h slot' d hd
      exact ⟨d₀, _, hd₀, rfl⟩
    · simp only [World.act, update, Function.update_of_ne hslot] at hd'
      exact h slot' d' hd'

end World

section

variable {log : List (Option Nat × Action)}

theorem World.devices_of_found (h : ∀ e ∈ log, e.2.KeepsDevices) (world : World) (j : Nat) :
    ∀ e ∈ Log.found World.act j log world, e.2.devices = world.devices :=
  Log.found_invariant World.act (P := fun w => w.devices = world.devices)
    (fun e he w hw => (World.devices_act (h e he) w).trans hw) rfl j

theorem World.revalues_of_found (h : ∀ e ∈ log, e.2.KeepsItems) (world : World) (j : Nat) :
    ∀ e ∈ Log.found World.act j log world, world.Revalues e.2 :=
  Log.found_invariant World.act (P := world.Revalues)
    (fun e he _ hw => hw.act (h e he)) (Revalues.refl world) j

end

/-- `st2138::CommandResponse`. -/
inductive CommandResponse where
  | kindNotSet
  | noResponse
  | response (value : Value)
  | exception (type : String) (errorMessage : PolyglotText)

/-- A request with the `authorization` entry of the client's metadata. -/
structure Received (α : Type) where
  message : α
  authorization : Option String := none

/-- An exception of the code of a device: one with a status, which is an error, or one of another
type. -/
abbrev Raised : Type := Option { rc : ExceptionWithStatus // rc.isOk = false }

/-- The body of a `CommandResponder`, which runs the code of the device between two responses. -/
inductive Responder where
  | run (effect : World → World) (rest : World → Responder)
  | yield (response : CommandResponse) (rest : Responder)
  | ret (response : CommandResponse)
  | throw (why : Raised)

/-- The configuration of a service. `slots` are the keys of `dms_`, `decode` reads the scopes and
the expiry time of a token, and `commandImpl` is what the commands of a device are defined as. -/
structure Config where
  slots : List Nat
  authorizationEnabled : Bool
  decode : String → Option (Authorizer × Nat)
  commandImpl : Nat → String → Value → Bool → Except Raised (Option Responder)
  EOPath : String := ""
  sha256 : Bytes → Bytes

namespace Config

variable (cfg : Config)

/-- `CallData::jwsToken_`. -/
def jwsToken (authorization : Option String) : Except ExceptionWithStatus String :=
  match authorization with
  | some data =>
      if startsWith data "Bearer " then .ok (String.ofList (data.toList.drop "Bearer ".length))
      else .error ⟨"JWS bearer token not found", .unauthenticated⟩
  | none => .error ⟨"JWS bearer token not found", .unauthenticated⟩

/-- The authorizer of a request with its expiry time. The object that disables authorization has
none. -/
def authorizer (authorization : Option String) : Except ExceptionWithStatus (Authorizer × Nat) :=
  if cfg.authorizationEnabled then do
    let token ← jwsToken authorization
    match cfg.decode token with
    | some decoded => .ok decoded
    | none => .error ⟨"Invalid JWS Token", .unauthenticated⟩
  else .ok (.kAuthzDisabled, 0)

/-- The range check of the slot, and the lookup in `dms_`. -/
def checkSlot (slot : Nat) : Except ExceptionWithStatus Unit :=
  if 65535 < slot then .error ⟨"slot number out of range", .invalidArgument⟩
  else if slot ∉ cfg.slots then
    .error ⟨"device not found in slot " ++ toString slot, .notFound⟩
  else .ok ()

end Config

end Catena.Grpc
