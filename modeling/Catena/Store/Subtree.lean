import Catena.Store.ParamVisitor

/-!
# The tree below a parameter

A parameter has children: the elements of its array, as far as a 32-bit length counts them, and
its sub-parameters, as far as they exist in its value and may be read. `traverseParams` resolves
texts; where the names on the way are identifiers it visits the tree of the parameter in preorder.
-/

namespace Catena.Store

open Catena.Framework

mutual

/-- The sub-parameters have identifiers for names, under which their descriptors are kept. -/
def Ty.Named : Ty → Prop
  | .empty _ subParams => subParams.Named
  | .elem e => e.Named
  | .vector e => e.Named

def ElemTy.Named : ElemTy → Prop
  | .struct fields => fields.Named
  | .variant name info ty alternatives =>
      Path.isIdentifier name = true ∧ info.oid = name ∧ ty.Named ∧ alternatives.Named
  | _ => True

def Fields.Named : Fields → Prop
  | .nil => True
  | .cons name info ty rest =>
      Path.isIdentifier name = true ∧ info.oid = name ∧ ty.Named ∧ rest.Named

end

theorem Ty.Named.subParams {t : Ty} (h : t.Named) : t.subParams.Named := by
  cases t with
  | empty type subParams => exact h
  | elem e => cases e <;> trivial
  | vector e => cases e <;> trivial

theorem Fields.list_induction {P : Fields → Prop} (nil : P .nil)
    (cons : ∀ name info ty rest, P rest → P (.cons name info ty rest)) (fields : Fields) :
    P fields :=
  match fields with
  | .nil => nil
  | .cons name info ty rest => cons name info ty rest (Fields.list_induction nil cons rest)

theorem Fields.Named.find {fields : Fields} {name : String} {found : Descriptor × Ty}
    (h : fields.Named) (hfind : fields.find name = some found) :
    Path.isIdentifier name = true ∧ found.1.oid = name ∧ found.2.Named := by
  induction fields using Fields.list_induction with
  | nil => cases hfind
  | cons field info ty rest ih =>
    rw [Fields.find] at hfind
    split at hfind
    · rename_i heq
      obtain rfl := Option.some.inj hfind
      exact ⟨heq ▸ h.1, heq ▸ h.2.1, h.2.2.1⟩
    · exact ih h.2.2.2 hfind

/-! ## Heights -/

theorem Ty.height_pos (t : Ty) : 0 < t.height := by
  cases t with
  | empty type subParams => exact Nat.succ_pos _
  | elem e => cases e <;> exact Nat.succ_pos _
  | vector e => exact Nat.succ_pos _

theorem Ty.subParams_height (t : Ty) : t.subParams.height < t.height := by
  cases t with
  | empty type subParams => exact Nat.lt_succ_self _
  | elem e => cases e <;> exact Nat.lt_succ_self _
  | vector e =>
    cases e <;> simp only [Ty.subParams, Ty.height, ElemTy.height, Fields.height] <;> omega

theorem Fields.height_of_find {fields : Fields} {name : String} {found : Descriptor × Ty}
    (hfind : fields.find name = some found) : found.2.height ≤ fields.height := by
  induction fields using Fields.list_induction with
  | nil => cases hfind
  | cons field info ty rest ih =>
    rw [Fields.find] at hfind
    rw [Fields.height]
    split at hfind
    · obtain rfl := Option.some.inj hfind
      exact Nat.le_max_left _ _
    · exact Nat.le_trans (ih hfind) (Nat.le_max_right _ _)

theorem Ty.height_of_child {t : Ty} {pd : ParamDescriptor} {segment : Segment}
    {c : Ty × ParamDescriptor} (h : t.child pd segment = some c) : c.1.height < t.height := by
  unfold Ty.child at h
  split at h
  · obtain ⟨found, hfind, rfl⟩ := Option.map_eq_some_iff.mp h
    have hfound := Fields.height_of_find hfind
    have hsub := Ty.subParams_height found.2
    simp only [Ty.height]
    omega
  · obtain rfl := Option.some.inj h
    exact Nat.lt_succ_self _
  · obtain ⟨found, hfind, rfl⟩ := Option.map_eq_some_iff.mp h
    exact Nat.lt_succ_of_le (Fields.height_of_find hfind)
  · obtain ⟨found, hfind, rfl⟩ := Option.map_eq_some_iff.mp h
    exact Nat.lt_succ_of_le (Fields.height_of_find hfind)
  · cases h

theorem Ty.height_of_descend {path : List Segment} {t : Ty} {pd : ParamDescriptor}
    {c : Ty × ParamDescriptor} (h : Ty.descend path t pd = some c) :
    c.1.height + path.length ≤ t.height := by
  induction path generalizing t pd with
  | nil =>
    obtain rfl := Option.some.inj h
    exact Nat.le_refl _
  | cons segment path ih =>
    obtain ⟨child, hchild, hrest⟩ := Option.bind_eq_some_iff.mp h
    have hlower := Ty.height_of_child hchild
    have hbelow := ih hrest
    rw [List.length_cons]
    omega

theorem Ty.Named.child_name {t : Ty} {pd : ParamDescriptor} {name : String}
    {c : Ty × ParamDescriptor} (hnamed : t.Named) (h : t.child pd (.name name) = some c) :
    Path.isIdentifier name = true ∧ c.2.getOid = name := by
  have hfind : ∀ {fields : Fields} {found : Descriptor × Ty}, fields.Named →
      fields.find name = some found →
      Path.isIdentifier name = true ∧ found.1.oid = name :=
    fun hfields hfound => ⟨(hfields.find hfound).1, (hfields.find hfound).2.1⟩
  cases t with
  | empty type subParams =>
    obtain ⟨found, hfound, rfl⟩ := Option.map_eq_some_iff.mp h
    exact hfind hnamed hfound
  | vector e => cases h
  | elem e =>
    cases e with
    | int32 | float | string => cases h
    | struct fields =>
      obtain ⟨found, hfound, rfl⟩ := Option.map_eq_some_iff.mp h
      exact hfind hnamed hfound
    | variant field info ty alternatives =>
      obtain ⟨found, hfound, rfl⟩ := Option.map_eq_some_iff.mp h
      have hfields : (Fields.cons field info ty alternatives).Named := hnamed
      exact hfind hfields hfound

theorem Ty.Named.child {t : Ty} {pd : ParamDescriptor} {segment : Segment}
    {c : Ty × ParamDescriptor} (hnamed : t.Named) (h : t.child pd segment = some c) :
    c.1.Named := by
  unfold Ty.child at h
  split at h
  · obtain ⟨found, hfind, rfl⟩ := Option.map_eq_some_iff.mp h
    exact (Fields.Named.find hnamed hfind).2.2.subParams
  · obtain rfl := Option.some.inj h
    exact hnamed
  · obtain ⟨found, hfind, rfl⟩ := Option.map_eq_some_iff.mp h
    exact (Fields.Named.find hnamed hfind).2.2
  · rename_i name info ty alternatives oid
    obtain ⟨found, hfind, rfl⟩ := Option.map_eq_some_iff.mp h
    have hfields : (Fields.cons name info ty alternatives).Named := hnamed
    exact (hfields.find hfind).2.2
  · cases h

/-! ## Children -/

namespace Node

variable (authz : Authorizer)

/-- The segments that a traversal tries below a node, in order. -/
def keys (n : Node) : List Segment :=
  (List.range n.arrayLength).map .index ++ n.ty.subParams.names.map .name

/-- The node one segment below, if the client may read it. -/
def child (n : Node) (segment : Segment) : Option Node :=
  (n.below [segment]).filter fun m => authz.readAuthz m.descriptor

def children (n : Node) : List (Segment × Node) :=
  n.keys.filterMap fun segment => (n.child authz segment).map fun m => (segment, m)

theorem below_singleton (n : Node) (segment : Segment) :
    n.below [segment] = (focusChild segment n.ty n.descriptor n.value).map Param.node := by
  rw [below_cons]
  cases focusChild segment n.ty n.descriptor n.value <;> rfl

variable {authz}

theorem child_eq_some_iff {n m : Node} {segment : Segment} :
    n.child authz segment = some m ↔
      n.below [segment] = some m ∧ authz.readAuthz m.descriptor = true := by
  rw [child, Option.filter_eq_some_iff]

theorem mem_children_iff {n m : Node} {segment : Segment} :
    (segment, m) ∈ n.children authz ↔ segment ∈ n.keys ∧ n.child authz segment = some m := by
  rw [children, List.mem_filterMap]
  constructor
  · rintro ⟨key, hkey, h⟩
    obtain ⟨m', hm', h⟩ := Option.map_eq_some_iff.mp h
    obtain ⟨rfl, rfl⟩ := Prod.mk.inj h
    exact ⟨hkey, hm'⟩
  · rintro ⟨hkey, h⟩
    exact ⟨segment, hkey, by rw [h]; rfl⟩

theorem tyChild_of_below {n m : Node} (hwf : n.ty.WellFormed) {segment : Segment}
    (h : n.below [segment] = some m) :
    n.ty.child n.descriptor segment = some (m.ty, m.descriptor) := by
  rw [below_singleton] at h
  obtain ⟨p, hp, rfl⟩ := Option.map_eq_some_iff.mp h
  exact child_of_focusChild hwf hp

theorem child_ty {n m : Node} (hwf : n.ty.WellFormed) {segment : Segment}
    (h : n.child authz segment = some m) :
    m.ty.WellFormed ∧ m.ty.height < n.ty.height ∧ (n.ty.Named → m.ty.Named) := by
  have hchild := tyChild_of_below hwf (child_eq_some_iff.mp h).1
  exact ⟨hwf.child hchild, Ty.height_of_child hchild, fun hnamed => hnamed.child hchild⟩

end Node

namespace Device

variable {d : Device} {s : d.State} {authz : Authorizer}

/-- The node that `getParam` finds. -/
def readNode (d : Device) (s : d.State) (authz : Authorizer) (path : List Segment) :
    Option Node :=
  (d.getParam s path authz).toOption.map Param.node

theorem readNode_eq_some_iff {path : List Segment} {n : Node} :
    d.readNode s authz path = some n ↔
      d.ReadableAlong authz path ∧ d.nodeAt s path = some n := by
  rw [readNode, nodeAt, Option.map_eq_some_iff, Option.map_eq_some_iff]
  constructor
  · rintro ⟨p, hp, rfl⟩
    cases hget : d.getParam s path authz with
    | error why =>
      rw [hget] at hp
      cases hp
    | ok p' =>
      rw [hget] at hp
      obtain rfl := Option.some.inj hp
      obtain ⟨hread, hfocus⟩ := (d.getParam_ok_iff s path authz p').mp hget
      exact ⟨hread, p', hfocus, rfl⟩
  · rintro ⟨hread, p, hfocus, rfl⟩
    refine ⟨p, ?_, rfl⟩
    rw [(d.getParam_ok_iff s path authz p).mpr ⟨hread, hfocus⟩]
    rfl

theorem wellFormed_of_readNode {path : List Segment} {n : Node}
    (h : d.readNode s authz path = some n) : n.ty.WellFormed := by
  obtain ⟨-, hnode⟩ := readNode_eq_some_iff.mp h
  obtain ⟨p, hp, rfl⟩ := Option.map_eq_some_iff.mp hnode
  exact d.wellFormed_of_focus hp

/-- One segment further `getParam` finds the child of what it found. -/
theorem readNode_append_singleton {path : List Segment} {n : Node}
    (h : d.readNode s authz path = some n) (segment : Segment) :
    d.readNode s authz (path ++ [segment]) = n.child authz segment := by
  have hwf := wellFormed_of_readNode h
  obtain ⟨hread, hnode⟩ := readNode_eq_some_iff.mp h
  have hne := d.ne_nil_of_nodeAt hnode
  have hdescend := d.descend_of_nodeAt hnode
  apply Option.ext
  intro m
  rw [readNode_eq_some_iff, Node.child_eq_some_iff, d.nodeAt_append s path [segment] hne, hnode,
    Option.bind_some, d.readableAlong_append authz path [segment] hne]
  constructor
  · rintro ⟨⟨-, hlast⟩, hbelow⟩
    exact ⟨hbelow, (hlast _ hdescend).2 _ (Node.tyChild_of_below hwf hbelow)⟩
  · rintro ⟨hbelow, hauthz⟩
    refine ⟨⟨hread, ?_⟩, hbelow⟩
    intro c hc
    obtain rfl := Option.some.inj (hdescend.symm.trans hc)
    refine ⟨d.readAuthz_of_readableAlong hne hread hnode, ?_⟩
    intro c' hc'
    have hchild := Node.tyChild_of_below hwf hbelow
    rw [hchild] at hc'
    obtain rfl := Option.some.inj hc'
    exact hauthz

theorem getParam_of_readNode {path : List Segment} {n : Node}
    (h : d.readNode s authz path = some n) :
    ∃ param, d.getParam s path authz = .ok param ∧ param.node = n := by
  obtain ⟨param, hparam, hn⟩ := Option.map_eq_some_iff.mp h
  cases hget : d.getParam s path authz with
  | error why =>
    rw [hget] at hparam
    cases hparam
  | ok param' =>
    rw [hget] at hparam
    exact ⟨param', rfl, by rw [Option.some.inj hparam, hn]⟩

theorem readNode_of_getParam {path : List Segment} {param : Param d.State}
    (h : d.getParam s path authz = .ok param) : d.readNode s authz path = some param.node := by
  rw [readNode, h]
  rfl

end Device

/-! ## Texts of sub-parameters -/

namespace Path

theorem escaped_of_plain {segment : String} (htilde : '~' ∉ segment.toList)
    (hsolidus : '/' ∉ segment.toList) : escaped segment = segment := by
  rw [escaped, Common.escape_of_plain htilde hsolidus, String.ofList_toList]

theorem escaped_segmentText {segment : Segment} (h : Printable segment) :
    escaped (segmentText segment) = segmentText segment := by
  obtain ⟨hbody, hsolidus⟩ := bodySegment_text h
  exact escaped_of_plain (tilde_not_mem_body hbody) hsolidus

/-- An escaped name that is read below a path is one segment, and has not been escaped. -/
theorem parse_escaped {path path' : List Segment} {name : String}
    (hpath : ∀ segment ∈ path, Printable segment)
    (h : parse (fqoid path ++ "/" ++ escaped name) = .ok path') :
    ∃ segment, path' = path ++ [segment] ∧ bodySegment name.toList = some segment ∧
      parse ("/" ++ name) = .ok [segment] := by
  have hescaped : '~' ∉ Common.escape_ name.toList := by
    have htilde := tilde_not_mem h
    rw [String.toList_append, escaped, String.toList_ofList, List.mem_append, not_or] at htilde
    exact htilde.2
  have htilde : '~' ∉ name.toList := fun hmem => hescaped (Common.tilde_mem_escape (Or.inl hmem))
  have hsolidus : '/' ∉ name.toList :=
    fun hmem => hescaped (Common.tilde_mem_escape (Or.inr hmem))
  rw [escaped_of_plain htilde hsolidus] at h
  obtain ⟨segment, hsplit, hbody⟩ := parse_body hpath hsolidus h
  exact ⟨segment, hsplit, hbody, parse_singleton hbody hsolidus⟩

theorem parse_name {name : String} (h : isIdentifier name = true) :
    parse ("/" ++ name) = .ok [.name name] :=
  parse_singleton (bodySegment_name h).1 (bodySegment_name h).2

end Path

/-- What the client reads is found again from its text: the names along the way are identifiers,
and no other name of a sub-parameter is the number of something that stands beside it. -/
structure Device.Addressed (d : Device) (s : d.State) (authz : Authorizer) : Prop where
  names : ∀ path name n, d.readNode s authz (path ++ [.name name]) = some n →
    Path.isIdentifier name = true ∧ n.descriptor.getOid = name
  numbers : ∀ path n name i, d.readNode s authz path = some n → name ∈ n.ty.subParams.names →
    Path.parse ("/" ++ name) = .ok [.index i] → n.child authz (.index i) = none

/-! ## The traversal visits the tree -/

def Node.visits (n : Node) (path : String) : List Visit :=
  .visit n path :: if 0 < n.arrayLength then [.visitArray n path n.arrayLength] else []

/-- The text under which a parameter below is visited; the first text is the caller's. -/
def textBelow (text : String) (path below : List Segment) : String :=
  if below = [] then text else Path.fqoid (path ++ below)

/-- What is visited through one segment below a parameter. -/
def Node.visitsBelow (authz : Authorizer) (fuel : Nat) (path : List Segment) (n : Node)
    (segment : Segment) : List Visit :=
  ((n.child authz segment).map fun m =>
    (preorder (Node.children authz) fuel m).flatMap fun found =>
      found.2.visits (Path.fqoid (path ++ segment :: found.1))).getD []

theorem Node.printable_of_lt_arrayLength {n : Node} {i : Nat} (h : i < n.arrayLength) :
    Path.Printable (.index i) ∧ Path.segmentText (.index i) = toString i := by
  have hbound : i < 2 ^ 32 := by
    rw [Node.arrayLength] at h
    split at h
    · exact Nat.lt_trans h (Nat.mod_lt _ (by decide))
    · omega
  constructor
  · exact Nat.lt_trans hbound (by decide)
  · have hend : i ≠ Path.kEnd := by
      rw [Path.kEnd]
      omega
    exact if_neg hend

theorem collect_eq {ι : Type} {body : ι → Except Stop (List Visit)} {f : ι → List Visit}
    {items : List ι} (h : ∀ item ∈ items, body item = .ok (f item)) :
    collect body items = .ok (items.flatMap f) := by
  induction items with
  | nil => rfl
  | cons item items ih =>
    rw [collect, h item List.mem_cons_self,
      ih fun item' hitem' => h item' (List.mem_cons_of_mem _ hitem')]
    rfl

theorem Node.flatMap_children {authz : Authorizer} {β : Type} (n : Node)
    (f : Segment × Node → List β) :
    (n.children authz).flatMap f = n.keys.flatMap fun segment =>
      ((n.child authz segment).map fun m => f (segment, m)).getD [] := by
  rw [Node.children]
  induction n.keys with
  | nil => rfl
  | cons segment keys ih =>
    rw [List.filterMap_cons, List.flatMap_cons]
    cases n.child authz segment with
    | none => simpa using ih
    | some m => simp only [Option.map_some, List.flatMap_cons, ih, Option.getD_some]

namespace Device

variable {d : Device} {s : d.State} {authz : Authorizer}

theorem traverseChild_eq {traverse : Param d.State → String → Except Stop (List Visit)}
    {text : String} {path : List Segment} {n : Node} {segment : Segment}
    (hparse : Path.parse text = .ok path) (hn : d.readNode s authz path = some n)
    (hsegment : Path.Printable segment) {visits : Node → List Visit}
    (htraverse : ∀ param, d.getParam s (path ++ [segment]) authz = .ok param →
      n.child authz segment = some param.node →
        traverse param (Path.fqoid (path ++ [segment])) = .ok (visits param.node)) :
    d.traverseChild s authz traverse text (Path.segmentText segment) =
      .ok (((n.child authz segment).map visits).getD []) := by
  have htext : Path.fqoid path ++ "/" ++ Path.segmentText segment =
      Path.fqoid (path ++ [segment]) := by
    rw [Path.fqoid_append, Path.fqoid_singleton, String.append_assoc]
  have hpush := Path.parse_push hparse hsegment
  have hnode := readNode_append_singleton hn segment
  simp only [traverseChild, hparse, getParamByOid, Path.escaped_segmentText hsegment, hpush]
  cases hget : d.getParam s (path ++ [segment]) authz with
  | error why =>
    rw [readNode, hget] at hnode
    rw [← hnode]
    rfl
  | ok param =>
    rw [readNode_of_getParam hget] at hnode
    have hread := (Node.child_eq_some_iff.mp hnode.symm).2
    simp only [show authz.readAuthz param.descriptor = true from hread, if_true]
    rw [htext, htraverse param hget hnode.symm, ← hnode]
    rfl

/-- A name that is no identifier leads nowhere. -/
theorem traverseChild_lost {traverse : Param d.State → String → Except Stop (List Visit)}
    (haddr : d.Addressed s authz) {text : String} {path : List Segment} {n : Node} {name : String}
    (hparse : Path.parse text = .ok path) (hn : d.readNode s authz path = some n)
    (hname : name ∈ n.ty.subParams.names) (hidentifier : ¬Path.isIdentifier name = true) :
    d.traverseChild s authz traverse text name = .ok [] := by
  simp only [traverseChild, hparse, getParamByOid]
  cases hchild : Path.parse (Path.fqoid path ++ "/" ++ Path.escaped name) with
  | error why => cases why <;> rfl
  | ok path' =>
    obtain ⟨segment, rfl, hbody, hsingle⟩ :=
      Path.parse_escaped (Path.printable_of_parse hparse) hchild
    cases segment with
    | name oid => exact absurd (Path.identifier_of_bodySegment hbody) hidentifier
    | index i =>
      have hnone := haddr.numbers path n name i hn hname hsingle
      rw [← readNode_append_singleton hn, readNode] at hnone
      cases hget : d.getParam s (path ++ [.index i]) authz with
      | error why => simp only [hget]
      | ok param =>
        rw [hget] at hnone
        cases hnone

theorem names_of_named {fields : Fields} (h : fields.Named) :
    ∀ name ∈ fields.names, Path.isIdentifier name = true := by
  intro name hname
  induction fields using Fields.list_induction with
  | nil => cases hname
  | cons field info ty rest ih =>
    rcases List.mem_cons.mp hname with rfl | hname
    · exact h.1
    · exact ih h.2.2.2 hname

theorem not_skipped {name : String} (h : Path.isIdentifier name = true) :
    ¬(name = "" ∨ startsWith name "/" = true) := by
  have hsolidus := (Path.bodySegment_name h).2
  rintro (rfl | hstart)
  · cases h
  · rw [startsWith, List.isPrefixOf_iff_prefix] at hstart
    exact hsolidus (hstart.subset List.mem_cons_self)

theorem Addressed.identifier (haddr : d.Addressed s authz) {path : List Segment} {n m : Node}
    {name : String} (hn : d.readNode s authz path = some n)
    (h : n.child authz (.name name) = some m) : Path.isIdentifier name = true := by
  rw [← readNode_append_singleton hn] at h
  exact (haddr.names path name m h).1

/-- A traversal with enough fuel visits the tree of the parameter in preorder. -/
theorem traverseParams_eq (haddr : d.Addressed s authz) {fuel : Nat} {param : Param d.State}
    {text : String} {path : List Segment} (hparse : Path.parse text = .ok path)
    (hget : d.getParam s path authz = .ok param) (hfuel : param.ty.height < fuel) :
    d.traverseParams s authz fuel param text =
      .ok ((preorder (Node.children authz) fuel param.node).flatMap fun found =>
        found.2.visits (textBelow text path found.1)) := by
  induction fuel generalizing param text path with
  | zero => omega
  | succ fuel ih =>
    have hn := readNode_of_getParam hget
    have hwf := wellFormed_of_readNode hn
    -- what a segment below contributes, by induction
    have hchild : ∀ segment, Path.Printable segment →
        d.traverseChild s authz (d.traverseParams s authz fuel) text (Path.segmentText segment) =
          .ok (param.node.visitsBelow authz fuel path segment) := by
      intro segment hsegment
      apply traverseChild_eq hparse hn hsegment
      intro sub hsub hmem
      obtain ⟨-, hheight, -⟩ := Node.child_ty hwf hmem
      have hpush := Path.parse_push hparse hsegment
      have htext : Path.fqoid path ++ "/" ++ Path.segmentText segment =
          Path.fqoid (path ++ [segment]) := by
        rw [Path.fqoid_append, Path.fqoid_singleton, String.append_assoc]
      rw [htext] at hpush
      have hlower : sub.ty.height < param.ty.height := hheight
      rw [ih hpush hsub (by omega)]
      congr 2
      funext found
      rw [textBelow]
      split
      · rename_i hnil
        rw [hnil]
      · rw [List.append_assoc, List.singleton_append]
    have helements : collect (fun i =>
          d.traverseChild s authz (d.traverseParams s authz fuel) text (toString i))
          (List.range param.node.arrayLength) =
        .ok ((List.range param.node.arrayLength).flatMap fun i =>
          param.node.visitsBelow authz fuel path (.index i)) := by
      apply collect_eq
      intro i hi
      obtain ⟨hprintable, htext⟩ := Node.printable_of_lt_arrayLength (List.mem_range.mp hi)
      have hindex := hchild (.index i) hprintable
      rwa [htext] at hindex
    have hchildren : collect (fun name =>
          if name = "" ∨ startsWith name "/" = true then .ok []
          else d.traverseChild s authz (d.traverseParams s authz fuel) text name)
          param.ty.subParams.names =
        .ok (param.ty.subParams.names.flatMap fun name =>
          param.node.visitsBelow authz fuel path (.name name)) := by
      apply collect_eq
      intro name hname
      by_cases hidentifier : Path.isIdentifier name = true
      · rw [if_neg (not_skipped hidentifier)]
        exact hchild (.name name) hidentifier
      · have hnone : param.node.child authz (.name name) = none := by
          cases hsome : param.node.child authz (.name name) with
          | none => rfl
          | some m => exact absurd (haddr.identifier hn hsome) hidentifier
        rw [Node.visitsBelow, hnone]
        split
        · rfl
        · exact traverseChild_lost haddr hparse hn hname hidentifier
    have hbelow : ∀ segment,
        ((param.node.child authz segment).map fun m =>
          ((preorder (Node.children authz) fuel m).map fun found =>
            (segment :: found.1, found.2)).flatMap fun found =>
              found.2.visits (textBelow text path found.1)).getD [] =
          param.node.visitsBelow authz fuel path segment := by
      intro segment
      rw [Node.visitsBelow]
      congr 2
      funext m
      rw [List.flatMap_map]
      rfl
    rw [traverseParams, helements, hchildren, preorder_succ, List.flatMap_cons,
      List.flatMap_assoc, Node.flatMap_children]
    simp only [hbelow]
    rw [Node.keys, List.flatMap_append, List.flatMap_map, List.flatMap_map]
    simp only [bind, Except.bind, pure, Except.pure, Node.visits, textBelow, if_true,
      List.append_assoc, List.cons_append]
    rfl

end Device

end Catena.Store
