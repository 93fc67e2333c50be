import Catena.Grpc.DeviceStream

/-!
# A device that is sent as it is

The serializer of the gRPC model is about keys, since a device may change while it is sent. As long
as the device stays as it is, a stream consists of the components that `getDeviceSerializer` makes
of the device at once, in their order.
-/

namespace Catena.Grpc

open Store Rpc Framework Framework.Completion

def DeviceKey.ofItem : Item → DeviceKey
  | .menu group name _ => .menu group name
  | .languagePack language _ => .languagePack language
  | .constraint name _ _ => .sharedConstraint name
  | .command name _ => .command name
  | .param name _ => .param name

namespace ServedDevice

variable (d : ServedDevice) (authz : Authorizer)

/-- The language packs of the device are those that its pointers lead to. -/
def OwnsPacks : Prop :=
  d.languages.languagePacks.keys = d.languagePacks.keys ∧
    ∀ language, d.languages.pack language = d.languagePacks.lookup language

open Coroutine (Emits)

theorem emits_sendMenus : Emits d.sendMenus (d.menuItems.map DeviceKey.ofItem) := by
  have hgroup (group : Σ _ : String, MenuGroup) := Emits.forEach_map (β := DeviceKey)
    (fun menu : Σ _ : String, Menu => .menu group.1 menu.1) group.2.menus.entries
  have hmenus := Emits.forEach hgroup d.menuGroups.entries
  rw [DeviceModel.menuItems, List.map_flatMap]
  simp only [List.map_map]
  exact hmenus

theorem emits_sendLanguagePacks (h : d.OwnsPacks) : Emits d.sendLanguagePacks
    ((d.languagePacks.entries.map fun pack => Item.languagePack pack.1 pack.2).map
      DeviceKey.ofItem) := by
  have hkeys : (d.languages.languagePacks.entries.map Sigma.fst).map DeviceKey.languagePack =
      (d.languagePacks.entries.map Sigma.fst).map DeviceKey.languagePack :=
    congrArg (List.map DeviceKey.languagePack) h.1
  have hpacks := Emits.forEach_map (β := DeviceKey)
    (fun pack : Σ _ : String, Nat => .languagePack pack.1) d.languages.languagePacks.entries
  rw [List.map_map, List.map_map] at hkeys
  rw [List.map_map]
  exact hkeys ▸ hpacks

theorem emits_sendConstraints : Emits d.sendConstraints
    ((d.constraints.entries.map fun c => Item.constraint c.1 c.2.1 c.2.2).map
      DeviceKey.ofItem) := by
  rw [List.map_map]
  exact Emits.forEach_map _ _

theorem emits_sendCommands :
    Emits (d.sendCommands authz) ((d.readableCommands authz).map DeviceKey.ofItem) := by
  have hcommands := Emits.forEach_filter (β := DeviceKey)
    (fun command : String × Node => authz.readAuthz command.2.descriptor = true)
    (fun command => .command command.1) d.commandItems
  simp only [Bool.decide_eq_true] at hcommands
  rw [DeviceModel.readableCommands, List.map_map]
  exact hcommands

theorem emits_sendParams (subscribedOids : List String) (dl : DetailLevel)
    (selected : String × Node → Bool)
    (h : ∀ param, selected param = true ↔ dl = .full ∨ param.2.descriptor.info.minimalSet = true ∨
      (dl = .subscriptions ∧ ("/" ++ param.1) ∈ subscribedOids)) :
    Emits (d.sendParams authz subscribedOids dl)
      ((d.readableParams authz selected).map DeviceKey.ofItem) := by
  have hparams := Emits.forEach_filter (β := DeviceKey)
    (fun param : String × Node => authz.readAuthz param.2.descriptor = true ∧
      (dl = .full ∨ param.2.descriptor.info.minimalSet = true ∨
        (dl = .subscriptions ∧ ("/" ++ param.1) ∈ subscribedOids)))
    (fun param => .param param.1) d.paramItems
  have hfilter :
      (fun param : String × Node => authz.readAuthz param.2.descriptor && selected param) =
      fun param => decide (authz.readAuthz param.2.descriptor = true ∧
        (dl = .full ∨ param.2.descriptor.info.minimalSet = true ∨
          (dl = .subscriptions ∧ ("/" ++ param.1) ∈ subscribedOids))) := by
    funext param
    rw [Bool.eq_iff_iff, Bool.and_eq_true, decide_eq_true_iff, h param]
  rw [DeviceModel.readableParams, List.map_map, hfilter]
  exact hparams

theorem values_getDeviceSerializer (h : d.OwnsPacks) (subscribedOids : List String)
    (dl : DetailLevel) : (d.getDeviceSerializer authz subscribedOids dl).values =
      .header :: (d.qualifying authz subscribedOids dl).map DeviceKey.ofItem := by
  have hcommands := d.emits_sendCommands authz
  have hparams := d.emits_sendParams authz subscribedOids dl
  cases dl with
  | none => rfl
  | full =>
    have hfull := (((d.emits_sendMenus.bind (d.emits_sendLanguagePacks h)).bind
      d.emits_sendConstraints).bind hcommands).bind (hparams (fun _ => true) fun param => by simp)
    simp only [DeviceModel.qualifying, List.map_append]
    exact hfull .header
  | commands =>
    have honly := hcommands.bind Coroutine.emits_ret
    rw [List.append_nil] at honly
    exact honly .header
  | minimal => exact hparams _ (fun param => by simp) .header
  | unset => exact hparams _ (fun param => by simp) .header
  | subscriptions => exact hparams _ (fun param => by simp) .header

def Has : Item → Prop
  | .menu group name item =>
    ∃ g, d.menuGroups.lookup group = some g ∧ g.menus.lookup name = some item
  | .languagePack language item => d.languagePacks.lookup language = some item
  | .constraint name item texts => d.constraints.lookup name = some (item, texts)
  | .command name item => d.commandItems.lookup name = some item
  | .param name item => d.paramItems.lookup name = some item

theorem component_key (h : d.OwnsPacks) {item : Item} (hitem : d.Has item) :
    d.component authz (.ofItem item) = item.component authz := by
  cases item with
  | menu group name item =>
    obtain ⟨g, hgroup, hmenu⟩ := hitem
    simp only [DeviceKey.ofItem, component, hgroup, Option.bind_some, hmenu]
    rfl
  | languagePack language item =>
    have hpack := (h.2 language).trans hitem
    simp only [DeviceKey.ofItem, component, hpack]
    rfl
  | constraint name item texts =>
    have hconstraint : d.constraints.lookup name = some (item, texts) := hitem
    simp only [DeviceKey.ofItem, component, hconstraint]
    rfl
  | command name item =>
    have hcommand : d.commandItems.lookup name = some item := hitem
    simp only [DeviceKey.ofItem, component, hcommand]
    rfl
  | param name item =>
    have hparam : d.paramItems.lookup name = some item := hitem
    simp only [DeviceKey.ofItem, component, hparam]
    rfl

theorem names_collection (describe : Descriptor → Ty → ParamDescriptor) (fields : Fields)
    (values : fields.Vals) : (collection describe fields values).map Prod.fst = fields.names := by
  induction fields using Fields.list_induction with
  | nil => rfl
  | cons name info ty rest ih => exact congrArg (name :: ·) (ih values.2)

theorem lookup_collection {describe : Descriptor → Ty → ParamDescriptor} {fields : Fields}
    (hwf : fields.WellFormed) {values : fields.Vals} {param : String × Node}
    (h : param ∈ collection describe fields values) :
    (collection describe fields values).lookup param.1 = some param.2 := by
  refine lookup_of_mem ?_ h
  rw [names_collection]
  exact Fields.nodup_names hwf

theorem has_menu {item : Item} (h : item ∈ d.menuItems) : d.Has item := by
  obtain ⟨group, hgroup, hitem⟩ := List.mem_flatMap.mp h
  obtain ⟨menu, hmenu, rfl⟩ := List.mem_map.mp hitem
  exact ⟨group.2, AList.mem_lookup_iff.mpr hgroup, AList.mem_lookup_iff.mpr hmenu⟩

theorem has_command {item : Item} (h : item ∈ d.readableCommands authz) : d.Has item := by
  obtain ⟨command, hcommand, rfl⟩ := List.mem_map.mp h
  exact lookup_collection d.commandsWellFormed (List.mem_filter.mp hcommand).1

theorem has_param {selected : String × Node → Bool} {item : Item}
    (h : item ∈ d.readableParams authz selected) : d.Has item := by
  obtain ⟨param, hparam, rfl⟩ := List.mem_map.mp h
  exact lookup_collection d.device.wellFormed (List.mem_filter.mp hparam).1

theorem has_of_mem_qualifying {subscribedOids : List String} {dl : DetailLevel} {item : Item}
    (h : item ∈ d.qualifying authz subscribedOids dl) : d.Has item := by
  cases dl with
  | none => cases h
  | full =>
    simp only [DeviceModel.qualifying, List.mem_append] at h
    obtain (((h | h) | h) | h) | h := h
    · exact d.has_menu h
    · obtain ⟨pack, hpack, rfl⟩ := List.mem_map.mp h
      exact AList.mem_lookup_iff.mpr hpack
    · obtain ⟨constraint, hconstraint, rfl⟩ := List.mem_map.mp h
      exact AList.mem_lookup_iff.mpr hconstraint
    · exact d.has_command authz h
    · exact d.has_param authz h
  | commands => exact d.has_command authz h
  | minimal => exact d.has_param authz h
  | unset => exact d.has_param authz h
  | subscriptions => exact d.has_param authz h

theorem components_of_keys (h : d.OwnsPacks) (subscribedOids : List String) (dl : DetailLevel) :
    (d.getDeviceSerializer authz subscribedOids dl).values.map (d.component authz) =
      (d.toDeviceModel.getDeviceSerializer authz subscribedOids dl).values := by
  rw [d.values_getDeviceSerializer authz h, DeviceModel.values_getDeviceSerializer, List.map_cons,
    List.map_map]
  refine congrArg (_ :: ·) (List.map_congr_left fun item hitem => ?_)
  exact d.component_key authz h (d.has_of_mem_qualifying authz hitem)

end ServedDevice

namespace DeviceRequest

variable (q : Received DeviceRequestPayload) (authz : Authorizer)

/-- What the client is sent of a device that stays as it is. -/
def stream (d : ServedDevice) (subscribedOids : List String) : List DeviceComponent :=
  (d.toDeviceModel.getDeviceSerializer authz subscribedOids q.message.detailLevel).values

/-- Oids that a section has found to be subscribed, where they are asked for. -/
def Listed (d : ServedDevice) (seen : List (Action × World)) (subscribedOids : List String) :
    Prop :=
  if q.message.detailLevel = .subscriptions then
    ∃ w, (.look, w) ∈ seen ∧ subscribedOids = w.getAllSubscribedOids d
  else subscribedOids = []

variable {cfg : Config} {q authz} {seen before : List (Action × World)}
  {ms : List DeviceComponent} {rest : List DeviceKey} {d : ServedDevice}
  {subscribedOids : List String}

theorem Subscribes.listed_of_quiet (h : Subscribes q authz before subscribedOids)
    (hquiet : ∀ e ∈ before, e.2.devices q.message.slot = some d) (hsub : before ⊆ seen) :
    Listed q d seen subscribedOids := by
  cases h with
  | unused h => simp only [Listed, if_neg h]
  | listed h added w d' actions served =>
    have hlook : ((.look, w) : Action × World) ∈ added ++ [(.look, w)] := by simp
    have hsame : d' = d := Option.some.inj (served.symm.trans (hquiet _ hlook))
    subst hsame
    rw [Listed, if_pos h]
    exact ⟨w, hsub hlook, rfl⟩

/-- The components that have been sent are the first of the stream. -/
theorem Streams.of_quiet (h : Streams cfg q authz seen ms rest)
    (hpacks : ∀ e ∈ seen, ∀ d, e.2.devices q.message.slot = some d → d.OwnsPacks)
    (hquiet : ∀ e ∈ seen, e.2.devices q.message.slot = some d) :
    ∃ oids, Listed q d seen oids ∧
      ms ++ rest.map (d.component authz) = stream q authz d oids := by
  obtain ⟨exp, before, oids, made, d', sent, client, subscribed, served, enabled, rfl, serialized,
    rfl⟩ := h
  have hmade : ((.look, made) : Action × World) ∈
      before ++ (.look, made) :: sent.map Sent.section := by simp
  have hsame : d' = d := Option.some.inj (served.symm.trans (hquiet _ hmade))
  subst hsame
  have hbefore : before ⊆ before ++ (.look, made) :: sent.map Sent.section :=
    List.subset_append_left _ _
  have hlisted := subscribed.listed_of_quiet (fun e he => hquiet e (hbefore he)) hbefore
  refine ⟨oids, hlisted, ?_⟩
  have hsent : sent.map (Sent.component authz) = (sent.map Sent.key).map (d'.component authz) := by
    rw [List.map_map]
    refine List.map_congr_left fun e he => ?_
    have hmem : e.section ∈ before ++ (.look, made) :: sent.map Sent.section := by
      simp only [List.mem_append, List.mem_cons]
      exact Or.inr (Or.inr (List.mem_map_of_mem he))
    have hdevice : e.device = d' := Option.some.inj (e.served.symm.trans (hquiet _ hmem))
    simp only [Sent.component, hdevice, Function.comp_apply]
  rw [hsent, ← List.map_append, ← serialized, keys, stream]
  exact d'.components_of_keys authz (hpacks _ hmade d' served) _ _

end DeviceRequest

/-- A device request that finds the same device in all its sections sends the stream of that device
from its beginning, and all of it if it finishes with OK. -/
def DevicesWhole : Relation grpc
  | .deviceRequest, q, x, seen, posted => ∀ d : ServedDevice,
      (∀ e ∈ seen, e.2.devices q.message.slot = some d) → ∀ ms fin, posted = trace ms fin →
        ms ≠ [] ∨ fin = some .OK → ∃ oids, DeviceRequest.Listed q d seen oids ∧
          ms <+: DeviceRequest.stream q x.authz d oids ∧
            (fin = some .OK → ms = DeviceRequest.stream q x.authz d oids)
  | _, _, _, _, _ => True

variable {i : Controller}

theorem DevicesWhole.of_posted {cfg : Config} {world : World} {q : i.Request} {x : i.State}
    {seen : List (Action × World)} {posted : List (Op grpc i)}
    (h : DevicesPosted cfg world i q x seen posted)
    (hpacks : ∀ e ∈ seen, ∀ slot d, e.2.devices slot = some d → d.OwnsPacks) :
    DevicesWhole i q x seen posted := by
  cases i with
  | deviceRequest =>
    intro d hquiet ms fin htrace hsent
    have hposted : DeviceRequest.Posted cfg q x.authz seen posted := h.1
    rw [htrace] at hposted
    have hcases : (∃ rest, DeviceRequest.Streams cfg q x.authz seen ms rest ∧
        (fin = some .OK → rest = [])) := by
      generalize hops : trace ms fin = ops at hposted
      cases hposted with
      | created => cases hops
      | waiting =>
        obtain ⟨rfl, rfl⟩ := trace_inj hops
        rcases hsent with hsent | hsent
        · exact absurd rfl hsent
        · cases hsent
      | refused r hr =>
        obtain ⟨rfl, rfl⟩ := trace_inj hops
        rcases hsent with hsent | hsent
        · exact absurd rfl hsent
        · rw [Option.some.inj hsent] at hr
          exact absurd rfl hr
      | sending ms' hms =>
        obtain ⟨rfl, rfl⟩ := trace_inj hops
        obtain ⟨rest, hstreams, _⟩ := hms
        exact ⟨rest, hstreams, fun h => by cases h⟩
      | complete ms' hms =>
        obtain ⟨rfl, rfl⟩ := trace_inj hops
        obtain ⟨rest, hstreams, hrest⟩ := hms
        exact ⟨rest, hstreams, fun _ => hrest rfl⟩
    obtain ⟨rest, hstreams, hrest⟩ := hcases
    obtain ⟨oids, hlisted, hall⟩ := hstreams.of_quiet (fun e he => hpacks e he _) hquiet
    refine ⟨oids, hlisted, ⟨_, hall⟩, fun hfin => ?_⟩
    rw [← hall, hrest hfin]
    exact (List.append_nil ms).symm
  | _ => exact trivial

section Example

theorem reaches_afterPanel_get :
    (server panelConfig).Reaches controllers panelWorld (afterPanel 1) :=
  ⟨panelRun (gainTurns 1), rfl⟩

theorem ownsPacks_panel {slot : Nat} {d : ServedDevice} (h : panelWorld.devices slot = some d) :
    d.OwnsPacks := by
  simp only [panelWorld, Option.ite_none_right_eq_some, Option.some.injEq] at h
  obtain ⟨_, rfl⟩ := h
  exact ⟨rfl, fun _ => rfl⟩

end Example

/-- As long as a device stays as it is, a device request sends what its `getDeviceSerializer`
yields, from the beginning and in its order, and all of it before it finishes with OK. -/
theorem devices_whole (cfg : Config) (world : World) {s : Service grpc}
    (h : (server cfg).Reaches controllers world s) (hlog : ∀ e ∈ s.log, e.2.KeepsItems)
    (hpacks : ∀ slot d, world.devices slot = some d → d.OwnsPacks) :
    ∀ j c, s.calls[j]? = some c → c.threads = [] →
      DevicesWhole c.kind c.req c.state ((server cfg).found j s.log world) c.posted := by
  intro j c hc hidle
  have hstreamed :=
    relation_of_found (disciplined cfg) (keeps_devicesStreamed cfg) h hc hidle
  have hseen := World.revalues_of_found hlog world j
  refine DevicesWhole.of_posted (DevicesPosted.of_streamed hstreamed hseen) ?_
  intro e he slot d hd
  obtain ⟨d₀, values, hd₀, rfl⟩ := hseen e he slot d hd
  exact hpacks slot d₀ hd₀

theorem devices_whole_panel :
    ∃ c, (afterPanel 1).calls[4]? = some c ∧
      DevicesWhole c.kind c.req c.state
        ((server panelConfig).found 4 (afterPanel 1).log panelWorld) c.posted :=
  ⟨_, rfl, devices_whole panelConfig panelWorld reaches_afterPanel_get
    (Action.keepsItems_of_all rfl) (fun _ _ => ownsPacks_panel) 4 _ rfl rfl⟩

end Catena.Grpc
