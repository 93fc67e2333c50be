import Catena.Store.TopLevel

/-!
# Walks in the tree of a parameter

The tree that a traversal visits has all of the parameters that `getParam` finds, except below
elements that a 32-bit length does not count.
-/

namespace Catena.Store

open Catena.Framework

/-- The descriptor declares the type of the value, or it is shared with the array around. -/
def Ty.Typed (t : Ty) (pd : ParamDescriptor) : Prop :=
  pd.type = t.paramType ∨ ∃ e, t = .elem e

theorem Ty.typed_child {t : Ty} {pd : ParamDescriptor} {segment : Segment}
    {c : Ty × ParamDescriptor} (h : t.child pd segment = some c) : c.1.Typed c.2 := by
  unfold Ty.child at h
  split at h
  · obtain ⟨found, -, rfl⟩ := Option.map_eq_some_iff.mp h
    exact Or.inl rfl
  · obtain rfl := Option.some.inj h
    exact Or.inr ⟨_, rfl⟩
  · obtain ⟨found, -, rfl⟩ := Option.map_eq_some_iff.mp h
    exact Or.inl rfl
  · obtain ⟨found, -, rfl⟩ := Option.map_eq_some_iff.mp h
    exact Or.inl rfl
  · cases h

theorem Ty.typed_descend {path : List Segment} {t : Ty} {pd : ParamDescriptor}
    {c : Ty × ParamDescriptor} (htyped : t.Typed pd) (h : Ty.descend path t pd = some c) :
    c.1.Typed c.2 := by
  induction path generalizing t pd with
  | nil =>
    obtain rfl := Option.some.inj h
    exact htyped
  | cons segment path ih =>
    obtain ⟨child, hchild, hrest⟩ := Option.bind_eq_some_iff.mp h
    exact ih (Ty.typed_child hchild) hrest

theorem Ty.named_descend {path : List Segment} {t : Ty} {pd : ParamDescriptor}
    {c : Ty × ParamDescriptor} (hnamed : t.Named) (h : Ty.descend path t pd = some c) :
    c.1.Named := by
  induction path generalizing t pd with
  | nil =>
    obtain rfl := Option.some.inj h
    exact hnamed
  | cons segment path ih =>
    obtain ⟨child, hchild, hrest⟩ := Option.bind_eq_some_iff.mp h
    exact ih (hnamed.child hchild) hrest

theorem isIdentifier_toString (i : Nat) : Path.isIdentifier (toString i) = false := by
  have htext : (toString i).toList = Nat.toDigits 10 i := by
    rw [Nat.toString_eq_ofList_toDigits, String.toList_ofList]
  rw [Path.isIdentifier, htext]
  cases hdigits : Nat.toDigits 10 i with
  | nil => rfl
  | cons c cs =>
    have hc : c.isDigit = true := by
      apply Nat.isDigit_of_mem_toDigits (b := 10) (n := i) (by decide) (by decide)
      rw [hdigits]
      exact List.mem_cons_self
    simp only [Path.isDigit_not_wordStart hc, Bool.false_and]

namespace Node

variable {authz : Authorizer} {n m : Node}

theorem isArrayType_of_vector {e : ElemTy} {pd : ParamDescriptor} {v : (Ty.vector e).Val}
    (htyped : (Ty.vector e).Typed pd) : (⟨.vector e, pd, v⟩ : Node).isArrayType = true := by
  rcases htyped with htype | ⟨e', he'⟩
  · rw [isArrayType]
    simp only [htype]
    cases e <;> rfl
  · cases he'

theorem arrayLength_le (n : Node) : n.arrayLength ≤ n.size % 2 ^ 32 := by
  rw [arrayLength]
  split
  · exact Nat.le_refl _
  · exact Nat.zero_le _

theorem lt_of_index_mem_keys {i : Nat} (h : .index i ∈ n.keys) : i < n.arrayLength := by
  rw [keys, List.mem_append, List.mem_map, List.mem_map] at h
  rcases h with ⟨j, hj, heq⟩ | ⟨name, -, heq⟩
  · obtain rfl := Segment.index.inj heq
    exact List.mem_range.mp hj
  · cases heq

theorem mem_keys_of_name {name : String} (h : name ∈ n.ty.subParams.names) :
    .name name ∈ n.keys := by
  rw [keys, List.mem_append]
  exact Or.inr (List.mem_map_of_mem h)

/-- A traversal tries every segment under which there is a child, but for elements that the
32-bit length does not count. -/
theorem mem_keys_of_child
    (hnames : ∀ name c, n.child authz (.name name) = some c → Path.isIdentifier name = true)
    (htyped : n.ty.Typed n.descriptor) {segment : Segment} (h : n.child authz segment = some m)
    (hcounted : ∀ i, segment = .index i → i < n.size % 2 ^ 32) : segment ∈ n.keys := by
  have hbelow := (child_eq_some_iff.mp h).1
  rw [below_singleton] at hbelow
  obtain ⟨p, hp, -⟩ := Option.map_eq_some_iff.mp hbelow
  obtain ⟨ty, pd, v⟩ := n
  cases ty with
  | empty type subParams =>
    obtain ⟨found, hfound, -⟩ := Option.map_eq_some_iff.mp hp
    cases segment with
    | index i =>
      -- without a value an index is taken for a name
      have hname := hnames (toString i) m h
      rw [isIdentifier_toString] at hname
      cases hname
    | name oid => exact mem_keys_of_name (Fields.mem_names_of_find hfound)
  | vector e =>
    cases segment with
    | name oid => cases hp
    | index i =>
      rw [keys, List.mem_append, arrayLength, isArrayType_of_vector htyped, if_pos rfl]
      left
      exact List.mem_map_of_mem (List.mem_range.mpr (hcounted i rfl))
  | elem e =>
    cases e with
    | int32 | float | string => cases hp
    | struct fields =>
      cases segment with
      | index i => cases hp
      | name oid =>
        obtain ⟨member, hmember, -⟩ := Option.map_eq_some_iff.mp hp
        have hfind := Fields.find_of_findParamByName oid fields v
        rw [hmember] at hfind
        exact mem_keys_of_name (Fields.mem_names_of_find hfind)
    | variant name info ty alternatives =>
      cases segment with
      | index i => cases hp
      | name oid =>
        rw [focusChild] at hp
        simp only at hp
        split at hp
        · rename_i hheld
          rw [← hheld]
          exact mem_keys_of_name (Fields.visit_mem_names (.cons name info ty alternatives) v)
        · cases hp

end Node

namespace Device

variable {d : Device} {s : d.State} {authz : Authorizer}

theorem typed_of_readNode {path : List Segment} {n : Node}
    (h : d.readNode s authz path = some n) : n.ty.Typed n.descriptor := by
  have hdescend := d.descend_of_nodeAt (readNode_eq_some_iff.mp h).2
  cases path with
  | nil => cases hdescend
  | cons segment rest =>
    cases segment with
    | index i => cases hdescend
    | name oid =>
      obtain ⟨found, -, hrest⟩ := Option.bind_eq_some_iff.mp hdescend
      exact Ty.typed_descend (Or.inl rfl) hrest

theorem named_of_readNode (hnamed : d.params.Named) {path : List Segment} {n : Node}
    (h : d.readNode s authz path = some n) : n.ty.Named := by
  have hdescend := d.descend_of_nodeAt (readNode_eq_some_iff.mp h).2
  cases path with
  | nil => cases hdescend
  | cons segment rest =>
    cases segment with
    | index i => cases hdescend
    | name oid =>
      obtain ⟨found, hfound, hrest⟩ := Option.bind_eq_some_iff.mp hdescend
      exact Ty.named_descend (hnamed.find hfound).2.2 hrest

theorem readNode_prefix {path below : List Segment} {m : Node} (hne : path ≠ [])
    (h : d.readNode s authz (path ++ below) = some m) :
    ∃ n, d.readNode s authz path = some n := by
  obtain ⟨hread, hnode⟩ := readNode_eq_some_iff.mp h
  rw [d.readableAlong_append authz path below hne] at hread
  rw [d.nodeAt_append s path below hne] at hnode
  obtain ⟨n, hn, -⟩ := Option.bind_eq_some_iff.mp hnode
  exact ⟨n, readNode_eq_some_iff.mpr ⟨hread.1, hn⟩⟩

theorem addressed_of_named (hnamed : d.params.Named) : d.Addressed s authz := by
  constructor
  · intro path name n hn
    by_cases hnil : path = []
    · rw [hnil] at hn
      obtain ⟨-, hnode⟩ := readNode_eq_some_iff.mp hn
      obtain ⟨found, hfound, hrest⟩ := Option.bind_eq_some_iff.mp (d.descend_of_nodeAt hnode)
      obtain ⟨hidentifier, hoid, -⟩ := hnamed.find hfound
      obtain ⟨-, hdescriptor⟩ := Prod.mk.inj (Option.some.inj hrest)
      rw [← hdescriptor]
      exact ⟨hidentifier, hoid⟩
    · obtain ⟨above, habove⟩ := readNode_prefix hnil hn
      rw [readNode_append_singleton habove, Node.child_eq_some_iff] at hn
      have hchild := Node.tyChild_of_below (wellFormed_of_readNode habove) hn.1
      exact (named_of_readNode hnamed habove).child_name hchild
  · intro path n name i hn hname hparse
    have hidentifier := names_of_named (named_of_readNode hnamed hn).subParams name hname
    have heq := (Path.parse_name hidentifier).symm.trans hparse
    cases Except.ok.inj heq

/-- Every index on the path, from some point on, is counted by the 32-bit length of its array. -/
def Counted (d : Device) (s : d.State) (authz : Authorizer) (path q : List Segment) : Prop :=
  ∀ above i rest arr, path <+: above → q = above ++ .index i :: rest →
    d.readNode s authz above = some arr → i < arr.size % 2 ^ 32

theorem counted_self (path : List Segment) : d.Counted s authz path path := by
  rintro above i rest arr ⟨tail, rfl⟩ hpath
  rw [List.append_assoc] at hpath
  have hnil := List.append_right_eq_self.mp hpath.symm
  simp at hnil

/-- The first index of a path that goes on below a parameter. -/
theorem counted_cons {path keys : List Segment} {segment : Segment} {n : Node}
    (hn : d.readNode s authz path = some n) :
    d.Counted s authz path (path ++ segment :: keys) ↔
      (∀ i, segment = .index i → i < n.size % 2 ^ 32) ∧
        d.Counted s authz (path ++ [segment]) (path ++ segment :: keys) := by
  constructor
  · intro h
    constructor
    · rintro i rfl
      exact h path i keys n (List.prefix_refl _) rfl hn
    · intro above i rest arr habove
      exact h above i rest arr ((List.prefix_append _ _).trans habove)
  · rintro ⟨hfirst, hrest⟩ above i rest arr ⟨tail, rfl⟩ hq harr
    cases tail with
    | nil =>
      rw [List.append_nil] at hq harr
      obtain rfl := Option.some.inj (hn.symm.trans harr)
      exact hfirst i (List.cons.inj (List.append_cancel_left hq)).1
    | cons segment' tail =>
      have hsame := List.cons.inj (List.append_cancel_left
        (hq.trans (by rw [List.append_assoc, List.cons_append])))
      rw [← hsame.1] at harr hq
      exact hrest _ i rest arr ⟨tail, by rw [List.append_assoc, List.singleton_append]⟩ hq harr

/-- A walk leads to what can be read, along indices that are counted. -/
theorem walk_iff (haddr : d.Addressed s authz) {path keys : List Segment} {n m : Node}
    (hn : d.readNode s authz path = some n) :
    Walk (Node.children authz) keys n m ↔
      d.readNode s authz (path ++ keys) = some m ∧ d.Counted s authz path (path ++ keys) := by
  induction keys generalizing path n with
  | nil =>
    rw [List.append_nil, hn]
    constructor
    · rintro rfl
      exact ⟨rfl, counted_self path⟩
    · rintro ⟨h, -⟩
      exact Option.some.inj h
  | cons segment keys ih =>
    have hchild := readNode_append_singleton hn segment
    have hassoc : path ++ segment :: keys = path ++ [segment] ++ keys := by
      rw [List.append_assoc, List.singleton_append]
    rw [counted_cons hn]
    constructor
    · rintro ⟨c, hc, hwalk⟩
      obtain ⟨hkey, hcn⟩ := Node.mem_children_iff.mp hc
      obtain ⟨hread, hcounted⟩ := (ih (hchild.trans hcn)).mp hwalk
      rw [hassoc]
      refine ⟨hread, ?_, hcounted⟩
      rintro i rfl
      exact Nat.lt_of_lt_of_le (Node.lt_of_index_mem_keys hkey) n.arrayLength_le
    · rintro ⟨hread, hfirst, hcounted⟩
      rw [hassoc] at hread hcounted
      obtain ⟨c, hc⟩ := readNode_prefix (by simp) hread
      have hcn := hchild.symm.trans hc
      refine ⟨c, Node.mem_children_iff.mpr ⟨?_, hcn⟩, (ih hc).mpr ⟨hread, hcounted⟩⟩
      exact Node.mem_keys_of_child (fun name c => haddr.identifier hn) (typed_of_readNode hn) hcn
        hfirst

theorem printable_of_walk (haddr : d.Addressed s authz) {path keys : List Segment} {n m : Node}
    (hn : d.readNode s authz path = some n) (hpath : ∀ segment ∈ path, Path.Printable segment)
    (h : Walk (Node.children authz) keys n m) :
    ∀ segment ∈ path ++ keys, Path.Printable segment := by
  induction keys generalizing path n with
  | nil => rwa [List.append_nil]
  | cons segment keys ih =>
    obtain ⟨c, hc, hwalk⟩ := h
    obtain ⟨hkey, hcn⟩ := Node.mem_children_iff.mp hc
    have hassoc : path ++ segment :: keys = path ++ [segment] ++ keys := by
      rw [List.append_assoc, List.singleton_append]
    rw [hassoc]
    apply ih ((readNode_append_singleton hn segment).trans hcn) _ hwalk
    intro segment' hsegment'
    rcases List.mem_append.mp hsegment' with hsegment' | hsegment'
    · exact hpath segment' hsegment'
    · rw [List.mem_singleton.mp hsegment']
      cases segment with
      | name oid => exact haddr.identifier hn hcn
      | index i => exact (Node.printable_of_lt_arrayLength (Node.lt_of_index_mem_keys hkey)).1

theorem height_lt_depth {path : List Segment} {param : Param d.State}
    (h : d.getParam s path authz = .ok param) : param.ty.height < d.depth := by
  have hdescend := d.descend_of_focus ((d.getParam_ok_iff s path authz param).mp h).2
  cases path with
  | nil => cases hdescend
  | cons segment rest =>
    cases segment with
    | index i => cases hdescend
    | name oid =>
      obtain ⟨found, hfound, hrest⟩ := Option.bind_eq_some_iff.mp hdescend
      have htop := Fields.height_of_find hfound
      have hbelow := Ty.height_of_descend hrest
      rw [depth]
      simp only at hbelow
      omega

theorem mem_preorder_children_iff (haddr : d.Addressed s authz) {path keys : List Segment}
    {n m : Node} (hn : d.readNode s authz path = some n) :
    (keys, m) ∈ preorder (Node.children authz) d.depth n ↔
      d.readNode s authz (path ++ keys) = some m ∧ d.Counted s authz path (path ++ keys) := by
  obtain ⟨param, hparam, rfl⟩ := getParam_of_readNode hn
  rw [← walk_iff haddr hn]
  have hbelow : ∀ a : Node, a.ty.WellFormed → ∀ child ∈ a.children authz,
      child.2.ty.WellFormed ∧ child.2.ty.height < a.ty.height := by
    intro a ha child hmem
    obtain ⟨hwf, hheight, -⟩ := Node.child_ty ha (Node.mem_children_iff.mp hmem).2
    exact ⟨hwf, hheight⟩
  apply @mem_preorder_iff Node Segment (Node.children authz) (fun a => a.ty.height)
    (fun a => a.ty.WellFormed) (fun a ha child hmem => (hbelow a ha child hmem).1) _ d.depth
    param.node m keys (wellFormed_of_readNode hn) (height_lt_depth hparam)
  intro a ha child hmem
  exact (hbelow a ha child hmem).2

/-- Indices do not count from the device on, but from the top level parameter. -/
theorem counted_nil_iff {name : String} {rest : List Segment} :
    d.Counted s authz [] (.name name :: rest) ↔
      d.Counted s authz [.name name] (.name name :: rest) := by
  constructor
  · intro h above i below arr habove
    exact h above i below arr List.nil_prefix
  · intro h above i below arr habove hq harr
    clear habove
    cases above with
    | nil => cases harr
    | cons segment above =>
      apply h (segment :: above) i below arr _ hq harr
      rw [List.cons_append] at hq
      exact ⟨above, by rw [(List.cons.inj hq).1]; rfl⟩

theorem exists_name_of_readNode {q : List Segment} {m : Node}
    (h : d.readNode s authz q = some m) :
    ∃ name rest, q = .name name :: rest ∧ name ∈ d.params.names := by
  have hdescend := d.descend_of_nodeAt (readNode_eq_some_iff.mp h).2
  cases q with
  | nil => cases hdescend
  | cons segment rest =>
    cases segment with
    | index i => cases hdescend
    | name oid =>
      obtain ⟨found, hfound, -⟩ := Option.bind_eq_some_iff.mp hdescend
      exact ⟨oid, rest, rfl, Fields.mem_names_of_find hfound⟩

end Device

end Catena.Store
