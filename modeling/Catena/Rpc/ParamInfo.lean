import Catena.Framework.Stamp
import Catena.Store.Expansion
import Catena.Store.ParamTree

/-!
# Parameter info

A recursive request for the info of the whole device adds a response for every top level
parameter and for what a traversal visits below. An array is answered when its length is
visited, which happens only to arrays that are not empty; the length is then written into all
responses with the oid of the array.
-/

namespace Catena.Rpc

open Store Catena.Framework
open ExceptionWithStatus (ok)

/-- `st2138::ParamInfo`. -/
structure ParamInfo where
  type : ParamType := .undefined
  oid : String := ""
  templateOid : String := ""
  name : PolyglotText := []

/-- `st2138::ParamInfoResponse`. -/
structure ParamInfoResponse where
  info : ParamInfo := {}
  arrayLength : Nat := 0

/-- `ParamDescriptor::toProto` into a `ParamInfo`. -/
def paramInfo (pd : ParamDescriptor) : ParamInfo :=
  ⟨pd.type, pd.getOid, pd.info.templateOid, pd.info.name⟩

/-- `addParamToResponses_`: a response stays empty if the client may not read the parameter. -/
def addParamToResponses (authz : Authorizer) (param : Node) (responses : List ParamInfoResponse) :
    List ParamInfoResponse :=
  responses ++ [if authz.readAuthz param.descriptor then { info := paramInfo param.descriptor }
    else { arrayLength := 0 }]

/-- `updateArrayLengths_`. -/
def updateArrayLengths (arrayName : String) (length : Nat) (responses : List ParamInfoResponse) :
    List ParamInfoResponse :=
  if 0 < length then
    responses.map fun response =>
      if response.info.oid = arrayName then { response with arrayLength := length } else response
  else responses

/-- A parameter that is asked for, with its array length. -/
def addParam (authz : Authorizer) (param : Node) (responses : List ParamInfoResponse) :
    List ParamInfoResponse :=
  updateArrayLengths param.descriptor.getOid param.arrayLength
    (addParamToResponses authz param responses)

/-- `ParamInfoVisitor`. -/
def visitInfo (authz : Authorizer) (fqoid : String) (responses : List ParamInfoResponse) :
    Visit → List ParamInfoResponse
  | .visit param path =>
      let isTopParameter := path = fqoid ∨ path = "/" ++ param.descriptor.getOid
      if isTopParameter ∨ param.isArrayType then responses
      else addParamToResponses authz param responses
  | .visitArray param path length =>
      let isTopParameter := path = fqoid ∨ path = "/" ++ param.descriptor.getOid
      if isTopParameter then responses
      else
        updateArrayLengths param.descriptor.getOid length
          (addParamToResponses authz param responses)

section

variable (d : Device) (s : d.State) (authz : Authorizer)

def addChildren (fqoid : String) (param : Param d.State) (path : String)
    (responses : List ParamInfoResponse) : Except Stop (List ParamInfoResponse) := do
  let visits ← d.traverseParams s authz d.depth param path
  return visits.foldl (visitInfo authz fqoid) responses

/-- The loop over the top level parameters. -/
def addTopLevel (recursive : Bool) :
    List (Param d.State) → List ParamInfoResponse → Except Stop (List ParamInfoResponse)
  | [], responses => .ok responses
  | param :: params, responses => do
      let responses := addParam authz param.node responses
      let responses ←
        if recursive then addChildren d s authz "" param ("/" ++ param.descriptor.getOid) responses
        else .ok responses
      addTopLevel recursive params responses

/-- The three modes of `ParamInfoRequest`: the status and the responses. -/
def collectInfo (fqoid : String) (recursive : Bool) :
    Except Stop (ExceptionWithStatus × List ParamInfoResponse) :=
  if fqoid = "" then
    match d.getTopLevelParams s authz with
    | .error why => .error (.threw why)
    | .ok (rc, topLevelParams) =>
        if !rc.isOk then .ok (rc, [])
        else if topLevelParams.isEmpty then .ok (⟨"No top-level parameters found", .notFound⟩, [])
        else do
          let responses ← addTopLevel d s authz recursive topLevelParams []
          return (rc, responses)
  else
    match d.getParamByOid s fqoid authz with
    | .error rc => .ok (rc, [])
    | .ok param => do
        let responses := addParam authz param.node []
        if recursive then
          let responses ← addChildren d s authz fqoid param fqoid responses
          return (ok, responses)
        else return (ok, responses)

end

/-- What the client receives: the responses in order, and the final status. -/
structure InfoReply where
  rc : ExceptionWithStatus
  responses : List ParamInfoResponse := []

/-- `SlotMap`, with the values of each device. -/
abbrev SlotMap : Type := UInt32 → Option (Σ d : Device, d.State)

/-- `ParamInfoRequest::proceed` of the REST service; `none` if the depth of the model were used
up. -/
def restParamInfo (dms : SlotMap) (authz : Authorizer) (slot : UInt32) (fqoid : String)
    (recursive stream : Bool) : Option InfoReply :=
  if 65535 < slot then some { rc := ⟨"slot number out of range", .invalidArgument⟩ }
  else
    match dms slot with
    | none =>
        some { rc := ⟨"device not found in slot " ++ toString slot.toNat, .notFound⟩ }
    | some ⟨d, s⟩ =>
        if !stream && recursive then
          some { rc := ⟨"Recursive parameter info request is not supported with unary response",
            .invalidArgument⟩ }
        else if !stream && fqoid = "" then
          some { rc := ⟨"Unary request must include fqoid", .invalidArgument⟩ }
        else
          match collectInfo d s authz fqoid recursive with
          | .error .outOfFuel => none
          | .error (.threw (.withStatus why)) => some { rc := why }
          | .error (.threw .outOfRange) =>
              some { rc := ⟨"Unknown error in ParamInfoRequest: stoul", .internal⟩ }
          | .ok (rc, responses) =>
              some ⟨rc, if stream then (if rc.isOk then responses else [])
                else if responses.length = 1 then responses else []⟩

/-- `ParamInfoRequest::proceed` of the gRPC service. -/
def grpcParamInfo (dms : SlotMap) (authz : Authorizer) (slot : UInt32) (oidPrefix : String)
    (recursive : Bool) : Option InfoReply :=
  if 65535 < slot then some { rc := ⟨"slot number out of range", .invalidArgument⟩ }
  else
    match dms slot with
    | none =>
        some { rc := ⟨"Device not found in slot " ++ toString slot.toNat, .notFound⟩ }
    | some ⟨d, s⟩ =>
        match collectInfo d s authz oidPrefix recursive with
        | .error .outOfFuel => none
        | .error (.threw (.withStatus why)) => some { rc := why }
        | .error (.threw .outOfRange) =>
            some { rc := ⟨"Failed due to unknown error in ParamInfoRequest: stoul", .unknown⟩ }
        | .ok (rc, responses) => some ⟨rc, if rc.isOk then responses else []⟩

/-! ## The responses of a recursive request -/

def ownLength (n : Node) : Nat := if n.isArrayType then n.size else 0

/-- One response for every parameter that the client can get and that is no array element, with
the own element count of an array. -/
def ExactlyOnce (d : Device) (s : d.State) (authz : Authorizer)
    (responses : List ParamInfoResponse) : Prop :=
  ∃ nodes : List (List Segment × Node), (nodes.map Prod.fst).Nodup ∧
    (∀ q n, (q, n) ∈ nodes ↔ d.readNode s authz q = some n ∧ Path.backIndex q = none) ∧
    responses.Perm (nodes.map fun x => ⟨paramInfo x.2.descriptor, ownLength x.2⟩)

/-- The parameters of the tree that are no array elements, in the order of the traversals. -/
def paramNodes (d : Device) (s : d.State) (authz : Authorizer) : List (List Segment × Node) :=
  (d.paramTree s authz).filter fun x => (Path.backIndex x.1).isNone

/-- What it takes for the responses to be exact. -/
structure Unambiguous (d : Device) (s : d.State) (authz : Authorizer) : Prop where
  /-- An array has fewer than 2^32 elements, and some unless it is at the top level. -/
  arrays : ∀ q n, d.readNode s authz q = some n → Path.backIndex q = none → n.isArrayType = true →
    n.size < 2 ^ 32 ∧ (n.size = 0 → q.length = 1)
  /-- The elements of a STRING_ARRAY are empty. -/
  elements : ∀ q i n, d.readNode s authz (q ++ [.index i]) = some n → n.size % 2 ^ 32 = 0
  /-- What has the oid of an array that comes after it, has its length. -/
  names : (paramNodes d s authz).Pairwise fun a b =>
    a.2.descriptor.getOid = b.2.descriptor.getOid → ownLength b.2 ≠ 0 →
      ownLength a.2 = ownLength b.2

/-- What the visit of a parameter of the tree adds. -/
def answered (x : List Segment × Node) : Bool :=
  x.1.length = 1 || !x.2.isArrayType || x.2.arrayLength ≠ 0

def record (responses : List ParamInfoResponse) (x : List Segment × Node) :
    List ParamInfoResponse :=
  if answered x then
    updateArrayLengths x.2.descriptor.getOid x.2.arrayLength
      (responses ++ [{ info := paramInfo x.2.descriptor }])
  else responses

theorem updateArrayLengths_zero (arrayName : String) (responses : List ParamInfoResponse) :
    updateArrayLengths arrayName 0 responses = responses := rfl

section

variable {d : Device} {s : d.State} {authz : Authorizer}

theorem addParamToResponses_of_read {param : Node} (h : authz.readAuthz param.descriptor = true)
    (responses : List ParamInfoResponse) :
    addParamToResponses authz param responses =
      responses ++ [{ info := paramInfo param.descriptor }] := by
  rw [addParamToResponses, if_pos h]

theorem record_top {x : List Segment × Node} (hread : authz.readAuthz x.2.descriptor = true)
    (htop : x.1.length = 1) (responses : List ParamInfoResponse) :
    record responses x = addParam authz x.2 responses := by
  rw [record, addParam, addParamToResponses_of_read hread, if_pos (by simp [answered, htop])]

theorem arrayLength_of_not_array {n : Node} (h : n.isArrayType = false) : n.arrayLength = 0 := by
  rw [Node.arrayLength, h]
  rfl

theorem foldl_visits_top (n : Node) (fqoid : String) (responses : List ParamInfoResponse) :
    (n.visits ("/" ++ n.descriptor.getOid)).foldl (visitInfo authz fqoid) responses =
      responses := by
  rw [Node.visits]
  split <;> simp [visitInfo]

theorem foldl_visits {q : List Segment} {n : Node} {path : String}
    (hread : authz.readAuthz n.descriptor = true) (hlength : q.length ≠ 1)
    (hpath : path ≠ "" ∧ path ≠ "/" ++ n.descriptor.getOid)
    (responses : List ParamInfoResponse) :
    (n.visits path).foldl (visitInfo authz "") responses = record responses (q, n) := by
  rw [Node.visits, record, answered]
  cases harray : n.isArrayType with
  | false =>
    simp [visitInfo, hpath.1, hpath.2, harray, arrayLength_of_not_array harray,
      addParamToResponses_of_read hread, updateArrayLengths_zero]
  | true =>
    by_cases hzero : n.arrayLength = 0
    · simp [visitInfo, hpath.1, hpath.2, harray, hzero, hlength]
    · simp [visitInfo, hpath.1, hpath.2, harray, hzero, hlength, Nat.pos_of_ne_zero hzero,
        addParamToResponses_of_read hread]

theorem readAuthz_of_readNode {q : List Segment} {n : Node}
    (h : d.readNode s authz q = some n) : authz.readAuthz n.descriptor = true := by
  obtain ⟨hread, hnode⟩ := Device.readNode_eq_some_iff.mp h
  exact d.readAuthz_of_readableAlong (d.ne_nil_of_nodeAt hnode) hread hnode

theorem path_ne_top (haddr : d.Addressed s authz) {q : List Segment} {n : Node}
    (hprintable : ∀ segment ∈ q, Path.Printable segment) (hlength : 1 < q.length)
    (h : d.readNode s authz q = some n) :
    Path.fqoid q ≠ "" ∧ Path.fqoid q ≠ "/" ++ n.descriptor.getOid := by
  have hparse := Path.parse_fqoid hprintable
  constructor
  · intro heq
    rw [heq] at hparse
    obtain rfl : [] = q := Except.ok.inj hparse
    simp at hlength
  · intro heq
    have htop := Path.parse_name (Device.identifier_of_readNode haddr h)
    rw [← heq, hparse] at htop
    rw [Except.ok.inj htop] at hlength
    simp at hlength

/-- The responses for a top level parameter and everything below it. -/
theorem addChildren_eq (haddr : d.Addressed s authz) {name : String} {param : Param d.State}
    (hparam : d.getParam s [.name name] authz = .ok param) (responses : List ParamInfoResponse) :
    addChildren d s authz "" param ("/" ++ param.descriptor.getOid)
        (addParam authz param.node responses) =
      .ok ((d.treeAt s authz [.name name]).foldl record responses) := by
  obtain ⟨hoid, hread, hcanonical⟩ := Device.oid_of_getParam_name haddr hparam
  have hn := Device.readNode_of_getParam hparam
  rw [addChildren, hoid, Device.traverseParams_eq haddr hcanonical.1 hparam
    (Device.height_lt_depth hparam)]
  simp only [bind, Except.bind, pure, Except.pure]
  rw [Device.treeAt_eq hn, Device.depth, preorder_succ, List.flatMap_cons, List.map_cons,
    List.foldl_append, List.foldl_cons, List.foldl_map, List.foldl_flatMap]
  congr 1
  -- the root is visited under its own oid, and was added before
  have hroot : (param.node.visits (textBelow ("/" ++ name) [.name name] [])).foldl
      (visitInfo authz "") (addParam authz param.node responses) =
        record responses ([.name name] ++ [], param.node) := by
    have hname : "/" ++ name = "/" ++ param.node.descriptor.getOid := congrArg _ hoid.symm
    rw [record_top hread rfl, textBelow, if_pos rfl, hname, foldl_visits_top]
  rw [hroot]
  apply List.foldl_ext
  intro acc found hfound
  obtain ⟨child, hchild, hfound⟩ := List.mem_flatMap.mp hfound
  obtain ⟨below, hbelow, rfl⟩ := List.mem_map.mp hfound
  have hmem : (child.1 :: below.1, below.2) ∈
      preorder (Node.children authz) d.depth param.node := by
    rw [Device.depth, preorder_succ]
    apply List.mem_cons_of_mem
    exact List.mem_flatMap.mpr ⟨child, hchild, List.mem_map.mpr ⟨below, hbelow, rfl⟩⟩
  have hreadable := (Device.mem_preorder_children_iff haddr hn).mp hmem
  have hprintable := Device.printable_of_walk haddr hn
    (Path.printable_of_parse hcanonical.1) (walk_of_mem_preorder hmem)
  have hne := path_ne_top haddr hprintable (by simp) hreadable.1
  rw [textBelow, if_neg (List.cons_ne_nil _ _)]
  have hlength : ([Segment.name name] ++ child.1 :: below.1).length ≠ 1 := by simp
  exact foldl_visits (readAuthz_of_readNode hreadable.1) hlength hne acc

theorem addTopLevel_eq (haddr : d.Addressed s authz) (names : List String)
    (responses : List ParamInfoResponse) :
    addTopLevel d s authz true
        (names.filterMap fun name => (d.getParam s [.name name] authz).toOption) responses =
      .ok ((names.flatMap fun name => d.treeAt s authz [.name name]).foldl record responses) := by
  induction names generalizing responses with
  | nil => rfl
  | cons name names ih =>
    rw [List.filterMap_cons, List.flatMap_cons, List.foldl_append]
    cases hget : d.getParam s [.name name] authz with
    | error why =>
      have htree : d.treeAt s authz [.name name] = [] := by
        rw [Device.treeAt, Device.readNode, hget]
        rfl
      rw [htree]
      exact ih responses
    | ok param =>
      simp only [Except.toOption, addTopLevel, if_true, addChildren_eq haddr hget, bind,
        Except.bind]
      exact ih _

/-- The responses are those of the tree; the only error is that there is nothing to read. -/
theorem collectInfo_eq (haddr : d.Addressed s authz) :
    ∃ rc, collectInfo d s authz "" true = .ok (rc, (d.paramTree s authz).foldl record []) ∧
      (rc.isOk = false → d.paramTree s authz = []) := by
  rw [collectInfo, if_pos rfl, Device.getTopLevelParams_eq haddr]
  simp only [ExceptionWithStatus.isOk_ok, Bool.not_true, Bool.false_eq_true, if_false]
  by_cases hempty : (d.params.names.filterMap fun name =>
      (d.getParam s [.name name] authz).toOption) = []
  · have htree : d.paramTree s authz = [] := by
      rw [Device.paramTree, List.flatMap_eq_nil_iff]
      intro name hname
      have hnone := List.filterMap_eq_nil_iff.mp hempty name hname
      rw [Device.treeAt, Device.readNode, hnone]
      rfl
    rw [hempty, htree]
    exact ⟨_, rfl, fun _ => rfl⟩
  · rw [if_neg (by simpa using hempty), addTopLevel_eq haddr]
    exact ⟨ok, rfl, fun h => absurd h (by decide)⟩

end

end Catena.Rpc
