import Catena.Framework.Coroutine
import Catena.Rpc.PushUpdates
import Catena.Store.LanguagePacks
import Catena.Store.Node
import Catena.Store.ParamProto

/-!
# Streaming a device

`getDeviceSerializer` is a coroutine that sends a device in components: it yields the component
it has before it fills the next one, and returns the last. `Device::toProto` sends the device as
one message, and selects parameters by `shouldSendParam`.
-/

namespace Catena.Rpc

open Store Catena.Framework

structure Menu where
  name : PolyglotText
  hidden : Bool
  disabled : Bool
  paramOids : List String
  commandOids : List String
  clientHints : StringMap String

/-- `st2138::Menu`. -/
structure MenuMessage where
  name : PolyglotText
  hidden : Bool
  disabled : Bool
  paramOids : List String
  commandOids : List String
  clientHints : StringMap String

def Menu.toProto (menu : Menu) : MenuMessage where
  name := menu.name
  hidden := menu.hidden
  disabled := menu.disabled
  paramOids := menu.paramOids
  commandOids := menu.commandOids
  clientHints := insertAll ∅ menu.clientHints

structure MenuGroup where
  name : PolyglotText
  menus : StringMap Menu

/-- `st2138::MenuGroup`. -/
structure MenuGroupMessage where
  name : PolyglotText
  menus : List (String × MenuMessage) := []

def MenuGroup.toProto (group : MenuGroup) (shallow : Bool) : MenuGroupMessage where
  name := group.name
  menus := if shallow then []
    else group.menus.entries.foldl (fun menus e => setEntry menus e.1 e.2.toProto) []

/-- `st2138::Device`. -/
structure DeviceMessage where
  slot : Nat
  detailLevel : DetailLevel
  defaultScope : String
  multiSetEnabled : Bool
  subscriptions : Bool
  accessScopes : List String := []
  menuGroups : List (String × MenuGroupMessage) := []
  params : List (String × ParamMessage) := []
  commands : List (String × ParamMessage) := []
  constraints : List (String × ConstraintMessage) := []
  languagePacks : List (String × LanguagePackMessage) := []

/-- `st2138::DeviceComponent`. -/
inductive DeviceComponent where
  | kindNotSet
  | device (device : DeviceMessage)
  | menu (oid : String) (menu : MenuMessage)
  | languagePack (languagePack : ComponentLanguagePack)
  | sharedConstraint (oid : String) (constraint : ConstraintMessage)
  | command (oid : String) (command : ParamMessage)
  | param (param : ComponentParam)

/-- A device with all it owns. -/
structure DeviceModel where
  device : Device
  values : device.State
  detailLevel : DetailLevel
  accessScopes : List String := []
  subscriptions : Bool := true
  commands : Fields := .nil
  commandValues : commands.Vals
  commandsWellFormed : commands.WellFormed
  constraints : StringMap (Constraint × ConstraintTexts) := ∅
  languagePacks : StringMap LanguagePack := ∅
  menuGroups : StringMap MenuGroup := ∅

/-- A map of parameters, as the loops over it see it. -/
def collection (describe : Descriptor → Ty → ParamDescriptor) :
    (fields : Fields) → fields.Vals → List (String × Node)
  | .nil, _ => []
  | .cons name info ty rest, (x, xs) =>
      (name, ⟨ty, describe info ty, x⟩) :: collection describe rest xs

/-- The message of a parameter. The status of `toProto` is not looked at. -/
def paramMessage (authz : Authorizer) (param : Node) : ParamMessage :=
  (toProtoParam authz param.ty param.descriptor param.value).2

namespace DeviceModel

variable (m : DeviceModel) (authz : Authorizer)

/-- `params_`. -/
def paramItems : List (String × Node) :=
  collection m.device.descriptor m.device.params m.values

/-- `commands_`. -/
def commandItems : List (String × Node) :=
  collection m.device.descriptor m.commands m.commandValues

/-- The basic device information that is sent first. -/
def header : DeviceMessage where
  slot := m.device.slot
  detailLevel := m.detailLevel
  defaultScope := m.device.defaults.defaultScope
  multiSetEnabled := m.device.multiSetEnabled
  subscriptions := m.subscriptions
  accessScopes := m.accessScopes
  menuGroups := m.menuGroups.entries.foldl (fun groups e => setEntry groups e.1 (e.2.toProto true)) []

/-- The body of the loops that send: the component before is yielded first. -/
def send (next component : DeviceComponent) : Coroutine DeviceComponent DeviceComponent :=
  .yield component (.ret next)

def sendMenus : DeviceComponent → Coroutine DeviceComponent DeviceComponent :=
  .forEach m.menuGroups.entries fun group =>
    .forEach group.2.menus.entries fun menu =>
      send (.menu (group.1 ++ "/" ++ menu.1) menu.2.toProto)

def sendLanguagePacks : DeviceComponent → Coroutine DeviceComponent DeviceComponent :=
  .forEach m.languagePacks.entries fun pack => send (.languagePack ⟨pack.1, pack.2.toProto {}⟩)

def sendConstraints : DeviceComponent → Coroutine DeviceComponent DeviceComponent :=
  .forEach m.constraints.entries fun constraint =>
    send (.sharedConstraint constraint.1 (constraint.2.1.toProto constraint.2.2))

def sendCommands : DeviceComponent → Coroutine DeviceComponent DeviceComponent :=
  .forEach m.commandItems fun command component =>
    if authz.readAuthz command.2.descriptor then
      send (.command command.1 (paramMessage authz command.2)) component
    else .ret component

def sendParams (subscribedOids : List String) (dl : DetailLevel) :
    DeviceComponent → Coroutine DeviceComponent DeviceComponent :=
  .forEach m.paramItems fun param component =>
    if authz.readAuthz param.2.descriptor ∧ (dl = .full ∨ param.2.descriptor.info.minimalSet = true ∨
        (dl = .subscriptions ∧ ("/" ++ param.1) ∈ subscribedOids)) then
      send (.param ⟨param.1, paramMessage authz param.2⟩) component
    else .ret component

/-- `Device::getDeviceSerializer`. -/
def getDeviceSerializer (subscribedOids : List String) (dl : DetailLevel) :
    Coroutine DeviceComponent DeviceComponent :=
  let component := DeviceComponent.device m.header
  if dl ≠ .none then
    ((if dl = .full then ((m.sendMenus component).bind m.sendLanguagePacks).bind m.sendConstraints
      else .ret component).bind fun component =>
    if dl = .full ∨ dl = .commands then m.sendCommands authz component else .ret component).bind
      fun component =>
        if dl ≠ .commands then m.sendParams authz subscribedOids dl component else .ret component
  else .ret component

/-- `Device::getComponentSerializer`: the handle is suspended before the body starts. -/
def getComponentSerializer (subscribedOids : List String) (dl : DetailLevel) :
    Except ExceptionWithStatus (Coroutine.Handle DeviceComponent) :=
  if dl = .subscriptions ∧ m.subscriptions = false then
    .error ⟨"Subscriptions are not enabled for this device", .invalidArgument⟩
  else .ok ⟨some (m.getDeviceSerializer authz subscribedOids dl), .kindNotSet⟩

/-- `Device::shouldSendParam`. -/
def shouldSendParam (param : Node) (isSubscribed : Bool) : Bool :=
  authz.readAuthz param.descriptor &&
    match m.detailLevel with
    | .none | .unset => false
    | .minimal => param.descriptor.info.minimalSet
    | .full => true
    | .subscriptions => param.descriptor.info.minimalSet || isSubscribed
    | .commands => param.descriptor.info.isCommand

def serializeParamCollection (params : List (String × Node)) : List (String × ParamMessage) :=
  params.foldl (fun dst param =>
    if m.shouldSendParam authz param.2 true then setEntry dst param.1 (paramMessage authz param.2)
    else dst) []

/-- `Device::toProto`. -/
def toProto (shallow : Bool) : DeviceMessage :=
  let dst : DeviceMessage := {
    slot := m.device.slot
    detailLevel := m.detailLevel
    defaultScope := m.device.defaults.defaultScope
    multiSetEnabled := m.device.multiSetEnabled
    subscriptions := m.subscriptions }
  if shallow then dst
  else
    let dst := { dst with
      params := m.serializeParamCollection authz m.paramItems
      commands := m.serializeParamCollection authz m.commandItems }
    if m.detailLevel = .minimal then dst
    else { dst with
      constraints := m.constraints.entries.foldl
        (fun dst e => setEntry dst e.1 (e.2.1.toProto e.2.2)) []
      languagePacks := m.languagePacks.entries.foldl
        (fun dst e => setEntry dst e.1 (e.2.toProto {})) []
      menuGroups := m.menuGroups.entries.foldl
        (fun dst e => setEntry dst e.1 (e.2.toProto false)) [] }

/-! ## The qualifying items -/

end DeviceModel

/-- What a device can be sent as, beside its header. -/
inductive Item where
  | menu (group name : String) (menu : Menu)
  | languagePack (language : String) (pack : LanguagePack)
  | constraint (name : String) (constraint : Constraint) (texts : ConstraintTexts)
  | command (name : String) (command : Node)
  | param (name : String) (param : Node)

def Item.component (authz : Authorizer) : Item → DeviceComponent
  | .menu group name item => .menu (group ++ "/" ++ name) item.toProto
  | .languagePack language item => .languagePack ⟨language, item.toProto {}⟩
  | .constraint name item texts => .sharedConstraint name (item.toProto texts)
  | .command name item => .command name (paramMessage authz item)
  | .param name item => .param ⟨name, paramMessage authz item⟩

namespace DeviceModel

variable (m : DeviceModel) (authz : Authorizer)

def menuItems : List Item :=
  m.menuGroups.entries.flatMap fun group =>
    group.2.menus.entries.map fun menu => .menu group.1 menu.1 menu.2

def readableCommands : List Item :=
  (m.commandItems.filter fun command => authz.readAuthz command.2.descriptor).map fun command =>
    .command command.1 command.2

/-- The parameters that the client may read and the detail level selects. -/
def readableParams (selected : String × Node → Bool) : List Item :=
  (m.paramItems.filter fun param => authz.readAuthz param.2.descriptor && selected param).map
    fun param => .param param.1 param.2

/-- The items a client of a detail level is to be sent. -/
def qualifying (subscribedOids : List String) : DetailLevel → List Item
  | .none => []
  | .full => m.menuItems ++ m.languagePacks.entries.map (fun pack => .languagePack pack.1 pack.2) ++
      m.constraints.entries.map (fun c => .constraint c.1 c.2.1 c.2.2) ++
      m.readableCommands authz ++ m.readableParams authz fun _ => true
  | .commands => m.readableCommands authz
  | .minimal | .unset => m.readableParams authz fun param => param.2.descriptor.info.minimalSet
  | .subscriptions => m.readableParams authz fun param =>
      param.2.descriptor.info.minimalSet || subscribedOids.contains ("/" ++ param.1)

open Coroutine (Emits)

theorem emits_sendMenus : Emits m.sendMenus (m.menuItems.map (Item.component authz)) := by
  have hgroup (group : Σ _ : String, MenuGroup) := Emits.forEach_map (β := DeviceComponent)
    (fun menu : Σ _ : String, Menu => .menu (group.1 ++ "/" ++ menu.1) menu.2.toProto)
    group.2.menus.entries
  have hmenus := Emits.forEach hgroup m.menuGroups.entries
  rw [menuItems, List.map_flatMap]
  simp only [List.map_map]
  exact hmenus

theorem emits_sendLanguagePacks : Emits m.sendLanguagePacks
    ((m.languagePacks.entries.map fun pack => Item.languagePack pack.1 pack.2).map
      (Item.component authz)) := by
  rw [List.map_map]
  exact Emits.forEach_map _ _

theorem emits_sendConstraints : Emits m.sendConstraints
    ((m.constraints.entries.map fun c => Item.constraint c.1 c.2.1 c.2.2).map
      (Item.component authz)) := by
  rw [List.map_map]
  exact Emits.forEach_map _ _

theorem emits_sendCommands :
    Emits (m.sendCommands authz) ((m.readableCommands authz).map (Item.component authz)) := by
  have hcommands := Emits.forEach_filter (β := DeviceComponent)
    (fun command : String × Node => authz.readAuthz command.2.descriptor = true)
    (fun command => .command command.1 (paramMessage authz command.2)) m.commandItems
  simp only [Bool.decide_eq_true] at hcommands
  rw [readableCommands, List.map_map]
  exact hcommands

theorem emits_sendParams (subscribedOids : List String) (dl : DetailLevel)
    (selected : String × Node → Bool)
    (h : ∀ param, selected param = true ↔ dl = .full ∨ param.2.descriptor.info.minimalSet = true ∨
      (dl = .subscriptions ∧ ("/" ++ param.1) ∈ subscribedOids)) :
    Emits (m.sendParams authz subscribedOids dl)
      ((m.readableParams authz selected).map (Item.component authz)) := by
  have hparams := Emits.forEach_filter (β := DeviceComponent)
    (fun param : String × Node => authz.readAuthz param.2.descriptor = true ∧
      (dl = .full ∨ param.2.descriptor.info.minimalSet = true ∨
        (dl = .subscriptions ∧ ("/" ++ param.1) ∈ subscribedOids)))
    (fun param => .param ⟨param.1, paramMessage authz param.2⟩) m.paramItems
  have hfilter : (fun param : String × Node => authz.readAuthz param.2.descriptor && selected param) =
      fun param => decide (authz.readAuthz param.2.descriptor = true ∧
        (dl = .full ∨ param.2.descriptor.info.minimalSet = true ∨
          (dl = .subscriptions ∧ ("/" ++ param.1) ∈ subscribedOids))) := by
    funext param
    rw [Bool.eq_iff_iff, Bool.and_eq_true, decide_eq_true_iff, h param]
  rw [readableParams, List.map_map, hfilter]
  exact hparams

theorem values_getDeviceSerializer (subscribedOids : List String) (dl : DetailLevel) :
    (m.getDeviceSerializer authz subscribedOids dl).values =
      .device m.header :: (m.qualifying authz subscribedOids dl).map (Item.component authz) := by
  have hcommands := m.emits_sendCommands authz
  have hparams := m.emits_sendParams authz subscribedOids dl
  cases dl with
  | none => rfl
  | full =>
    have hfull := ((((m.emits_sendMenus authz).bind (m.emits_sendLanguagePacks authz)).bind
      (m.emits_sendConstraints authz)).bind hcommands).bind
        (hparams (fun _ => true) fun param => by simp)
    simp only [qualifying, List.map_append]
    exact hfull (.device m.header)
  | commands =>
    have honly := hcommands.bind Coroutine.emits_ret
    rw [List.append_nil] at honly
    exact honly (.device m.header)
  | minimal => exact hparams _ (fun param => by simp) (.device m.header)
  | unset => exact hparams _ (fun param => by simp) (.device m.header)
  | subscriptions => exact hparams _ (fun param => by simp) (.device m.header)

/-! ## Merging the stream -/

end DeviceModel

/-- The parts of a device message that a stream sends in components, menus under their oids. -/
structure Contents where
  params : List (String × ParamMessage) := []
  commands : List (String × ParamMessage) := []
  constraints : List (String × ConstraintMessage) := []
  languagePacks : List (String × LanguagePackMessage) := []
  menus : List (String × MenuMessage) := []

def DeviceMessage.contents (device : DeviceMessage) : Contents where
  params := device.params
  commands := device.commands
  constraints := device.constraints
  languagePacks := device.languagePacks
  menus := device.menuGroups.flatMap fun group =>
    group.2.menus.map fun menu => (group.1 ++ "/" ++ menu.1, menu.2)

/-- What a client has after one more component. -/
def Contents.add (c : Contents) : DeviceComponent → Contents
  | .kindNotSet => c
  | .device device => device.contents
  | .menu oid menu => { c with menus := c.menus ++ [(oid, menu)] }
  | .languagePack pack =>
      { c with languagePacks := setEntry c.languagePacks pack.language pack.languagePack }
  | .sharedConstraint oid constraint =>
      { c with constraints := setEntry c.constraints oid constraint }
  | .command oid command => { c with commands := setEntry c.commands oid command }
  | .param param => { c with params := setEntry c.params param.oid param.param }

def merge (components : List DeviceComponent) : Contents := components.foldl Contents.add {}

namespace DeviceModel

variable (m : DeviceModel) (authz : Authorizer)

theorem foldl_add_menus (items : List (String × MenuMessage)) (c : Contents) :
    (items.map fun menu => DeviceComponent.menu menu.1 menu.2).foldl Contents.add c =
      { c with menus := c.menus ++ items } := by
  induction items generalizing c with
  | nil => simp
  | cons menu items ih =>
    rw [List.map_cons, List.foldl_cons, ih]
    simp [Contents.add]

theorem foldl_add_entries {ι β : Type} (item : ι → Item) (put : List (String × β) → Contents)
    (key : ι → String) (value : ι → β)
    (h : ∀ dst e, (put dst).add ((item e).component authz) = put (setEntry dst (key e) (value e)))
    (items : List ι) (dst : List (String × β)) :
    ((items.map item).map (Item.component authz)).foldl Contents.add (put dst) =
      put (items.foldl (fun dst e => setEntry dst (key e) (value e)) dst) := by
  induction items generalizing dst with
  | nil => rfl
  | cons e items ih =>
    rw [List.map_cons, List.map_cons, List.foldl_cons, h, ih]
    rfl

theorem foldl_add_languagePacks (packs : List (Σ _ : String, LanguagePack)) (c : Contents) :
    ((packs.map fun pack => Item.languagePack pack.1 pack.2).map (Item.component authz)).foldl
        Contents.add c =
      { c with languagePacks :=
          packs.foldl (fun dst e => setEntry dst e.1 (e.2.toProto {})) c.languagePacks } :=
  foldl_add_entries authz _ (fun dst => { c with languagePacks := dst }) Sigma.fst
    (fun e => e.2.toProto {}) (fun _ _ => rfl) packs c.languagePacks

theorem foldl_add_constraints (constraints : List (Σ _ : String, Constraint × ConstraintTexts))
    (c : Contents) :
    ((constraints.map fun e => Item.constraint e.1 e.2.1 e.2.2).map (Item.component authz)).foldl
        Contents.add c =
      { c with constraints :=
          constraints.foldl (fun dst e => setEntry dst e.1 (e.2.1.toProto e.2.2)) c.constraints } :=
  foldl_add_entries authz _ (fun dst => { c with constraints := dst }) Sigma.fst
    (fun e => e.2.1.toProto e.2.2) (fun _ _ => rfl) constraints c.constraints

theorem foldl_add_commands (commands : List (String × Node)) (c : Contents) :
    ((commands.map fun e => Item.command e.1 e.2).map (Item.component authz)).foldl Contents.add c =
      { c with commands :=
          commands.foldl (fun dst e => setEntry dst e.1 (paramMessage authz e.2)) c.commands } :=
  foldl_add_entries authz _ (fun dst => { c with commands := dst }) Prod.fst
    (fun e => paramMessage authz e.2) (fun _ _ => rfl) commands c.commands

theorem foldl_add_params (params : List (String × Node)) (c : Contents) :
    ((params.map fun e => Item.param e.1 e.2).map (Item.component authz)).foldl Contents.add c =
      { c with params :=
          params.foldl (fun dst e => setEntry dst e.1 (paramMessage authz e.2)) c.params } :=
  foldl_add_entries authz _ (fun dst => { c with params := dst }) Prod.fst
    (fun e => paramMessage authz e.2) (fun _ _ => rfl) params c.params

def menuMessages : List (String × MenuMessage) :=
  m.menuGroups.entries.flatMap fun group =>
    group.2.menus.entries.map fun menu => (group.1 ++ "/" ++ menu.1, menu.2.toProto)

theorem map_component_menuItems : m.menuItems.map (Item.component authz) =
    m.menuMessages.map fun menu => DeviceComponent.menu menu.1 menu.2 := by
  rw [menuItems, menuMessages, List.map_flatMap, List.map_flatMap]
  simp only [List.map_map]
  rfl

theorem contents_header : m.header.contents = {} := by
  have hmenus : (m.header.menuGroups.flatMap fun group =>
      group.2.menus.map fun menu => (group.1 ++ "/" ++ menu.1, menu.2)) = [] := by
    rw [header, foldl_setEntry_entries, List.flatMap_map]
    simp [MenuGroup.toProto]
  simp only [DeviceMessage.contents, hmenus]
  rfl

theorem serializeParamCollection_full (h : m.detailLevel = .full) (params : List (String × Node)) :
    m.serializeParamCollection authz params =
      (params.filter fun param => authz.readAuthz param.2.descriptor).foldl
        (fun dst param => setEntry dst param.1 (paramMessage authz param.2)) [] := by
  rw [serializeParamCollection, List.foldl_filter]
  simp only [shouldSendParam, h, Bool.and_true]

theorem menus_toProto (h : m.detailLevel = .full) :
    (m.toProto authz false).contents.menus = m.menuMessages := by
  have hgroups : (m.toProto authz false).menuGroups =
      m.menuGroups.entries.map fun e => (e.1, e.2.toProto false) := by
    rw [← foldl_setEntry_entries]
    simp [toProto, h]
  have hmenus (group : MenuGroup) : (group.toProto false).menus =
      group.menus.entries.map fun e => (e.1, e.2.toProto) := by
    rw [← foldl_setEntry_entries]
    rfl
  rw [DeviceMessage.contents, hgroups, List.flatMap_map, menuMessages]
  simp only [hmenus, List.map_map]
  rfl

theorem merge_values_full (h : m.detailLevel = .full) (subscribedOids : List String) :
    merge (.device m.header :: (m.qualifying authz subscribedOids .full).map (Item.component authz)) =
      (m.toProto authz false).contents := by
  have hmenus := m.menus_toProto authz h
  simp only [merge, List.foldl_cons, Contents.add, contents_header, qualifying, List.map_append,
    List.foldl_append, map_component_menuItems, foldl_add_menus, foldl_add_languagePacks,
    foldl_add_constraints, readableCommands, foldl_add_commands, readableParams, foldl_add_params,
    Bool.and_true, List.nil_append]
  rw [← serializeParamCollection_full m authz h, ← serializeParamCollection_full m authz h, ← hmenus]
  simp [toProto, h, DeviceMessage.contents]

theorem getComponentSerializer_delivers (subscribedOids : List String) (dl : DetailLevel)
    (h : dl = .subscriptions → m.subscriptions = true) :
    ∃ serializer, m.getComponentSerializer authz subscribedOids dl = .ok serializer ∧
      serializer.Delivers .kindNotSet
        (.device m.header :: (m.qualifying authz subscribedOids dl).map (Item.component authz)) := by
  have henabled : ¬(dl = .subscriptions ∧ m.subscriptions = false) := by
    rintro ⟨hdl, hdisabled⟩
    cases (h hdl).symm.trans hdisabled
  refine ⟨_, if_neg henabled, ?_⟩
  rw [← values_getDeviceSerializer]
  exact Coroutine.Handle.delivers_values _ _ _

/-- The stream of a device is its header and one component for every qualifying item, and a whole
device that is streamed has the same contents as in one message. -/
theorem deviceStream_complete (subscribedOids : List String) :
    (∀ dl, (dl = .subscriptions → m.subscriptions = true) →
      ∃ serializer, m.getComponentSerializer authz subscribedOids dl = .ok serializer ∧
        serializer.Delivers .kindNotSet
          (.device m.header :: (m.qualifying authz subscribedOids dl).map (Item.component authz))) ∧
    (m.detailLevel = .full → ∃ serializer components,
      m.getComponentSerializer authz subscribedOids .full = .ok serializer ∧
        serializer.Delivers .kindNotSet components ∧
          merge components = (m.toProto authz false).contents) := by
  constructor
  · intro dl hdl
    exact m.getComponentSerializer_delivers authz subscribedOids dl hdl
  · intro hfull
    obtain ⟨serializer, hserializer, hdelivers⟩ :=
      m.getComponentSerializer_delivers authz subscribedOids .full (fun hdl => by cases hdl)
    exact ⟨serializer, _, hserializer, hdelivers, m.merge_values_full authz hfull subscribedOids⟩

end DeviceModel

/-- A device with two parameters, one of them in the minimal set, a command and a menu. -/
def panelModel : DeviceModel where
  device := {
    defaults := { defaultScope := "st2138:mon" }
    params := .cons "gain" { oid := "gain", minimalSet := true } (.elem .int32)
      (.cons "mute" { oid := "mute" } (.elem .int32) .nil)
    wellFormed := ⟨by decide, trivial, by decide, trivial, trivial⟩ }
  values := ((3 : Int32), (0 : Int32), ())
  detailLevel := .full
  commands := .cons "reset" { oid := "reset", isCommand := true } (.empty .empty .nil) .nil
  commandValues := ((), ())
  commandsWellFormed := ⟨by decide, trivial, trivial⟩
  menuGroups := AList.singleton "main" ⟨[], AList.singleton "audio" ⟨[], false, false, ["gain"], [], ∅⟩⟩

theorem deviceStream_complete_panel :
    (∃ serializer, panelModel.getComponentSerializer .kAuthzDisabled ["/mute"] .subscriptions =
        .ok serializer ∧
      serializer.Delivers .kindNotSet (.device panelModel.header ::
        (panelModel.qualifying .kAuthzDisabled ["/mute"] .subscriptions).map
          (Item.component .kAuthzDisabled)) ∧
      (panelModel.qualifying .kAuthzDisabled ["/mute"] .subscriptions).length = 2) ∧
    ∃ serializer components,
      panelModel.getComponentSerializer .kAuthzDisabled ["/mute"] .full = .ok serializer ∧
        serializer.Delivers .kindNotSet components ∧
          merge components = (panelModel.toProto .kAuthzDisabled false).contents := by
  have hcomplete := panelModel.deviceStream_complete .kAuthzDisabled ["/mute"]
  obtain ⟨serializer, hserializer, hdelivers⟩ := hcomplete.1 .subscriptions (fun _ => rfl)
  exact ⟨⟨serializer, hserializer, hdelivers, rfl⟩, hcomplete.2 rfl⟩

end Catena.Rpc
