import Mathlib.Data.List.Nodup
import Catena.Store.Walk

/-!
# The tree of a device

The top level parameters and everything that a traversal visits below them, each once, in the
order of the traversals.
-/

namespace Catena.Store

open Catena.Framework

namespace Node

variable {authz : Authorizer}

theorem nodup_keys {n : Node} (hwf : n.ty.WellFormed) : n.keys.Nodup := by
  rw [keys, List.nodup_append]
  refine ⟨?_, ?_, ?_⟩
  · exact List.nodup_range.map fun _ _ h => Segment.index.inj h
  · exact (Fields.nodup_names hwf.subParams).map fun _ _ h => Segment.name.inj h
  · intro a ha b hb
    obtain ⟨i, -, rfl⟩ := List.mem_map.mp ha
    obtain ⟨name, -, rfl⟩ := List.mem_map.mp hb
    intro h
    cases h

theorem children_keys (n : Node) :
    (n.children authz).map Prod.fst =
      n.keys.filter fun segment => (n.child authz segment).isSome := by
  rw [children]
  induction n.keys with
  | nil => rfl
  | cons segment keys ih =>
    rw [List.filterMap_cons, List.filter_cons]
    cases n.child authz segment with
    | none => simpa using ih
    | some m => simpa using ih

theorem nodup_children {n : Node} (hwf : n.ty.WellFormed) :
    ((n.children authz).map Prod.fst).Nodup := by
  rw [children_keys]
  exact (nodup_keys hwf).filter _

end Node

namespace Device

variable {d : Device} {s : d.State} {authz : Authorizer}

/-- The tree of one parameter, under the paths from the device on. -/
def treeAt (d : Device) (s : d.State) (authz : Authorizer) (path : List Segment) :
    List (List Segment × Node) :=
  match d.readNode s authz path with
  | none => []
  | some n => (preorder (Node.children authz) d.depth n).map fun found =>
      (path ++ found.1, found.2)

/-- What the traversals from the top level visit. -/
def paramTree (d : Device) (s : d.State) (authz : Authorizer) : List (List Segment × Node) :=
  d.params.names.flatMap fun name => d.treeAt s authz [.name name]

theorem treeAt_eq {path : List Segment} {n : Node} (hn : d.readNode s authz path = some n) :
    d.treeAt s authz path = (preorder (Node.children authz) d.depth n).map fun found =>
      (path ++ found.1, found.2) := by
  rw [treeAt, hn]

theorem mem_treeAt_iff (haddr : d.Addressed s authz) {path q : List Segment} {m : Node}
    (hne : path ≠ []) :
    (q, m) ∈ d.treeAt s authz path ↔
      path <+: q ∧ d.readNode s authz q = some m ∧ d.Counted s authz path q := by
  rw [treeAt]
  cases hn : d.readNode s authz path with
  | none =>
    simp only [List.not_mem_nil, false_iff, not_and]
    rintro ⟨keys, rfl⟩ hread
    obtain ⟨n, hn'⟩ := readNode_prefix hne hread
    rw [hn] at hn'
    cases hn'
  | some n =>
    rw [List.mem_map]
    constructor
    · rintro ⟨⟨keys, m'⟩, hmem, heq⟩
      obtain ⟨rfl, rfl⟩ := Prod.mk.inj heq
      exact ⟨List.prefix_append _ _, (mem_preorder_children_iff haddr hn).mp hmem⟩
    · rintro ⟨⟨keys, rfl⟩, hread⟩
      exact ⟨(keys, m), (mem_preorder_children_iff haddr hn).mpr hread, rfl⟩

theorem mem_paramTree_iff (haddr : d.Addressed s authz) {q : List Segment} {m : Node} :
    (q, m) ∈ d.paramTree s authz ↔ d.readNode s authz q = some m ∧ d.Counted s authz [] q := by
  rw [paramTree, List.mem_flatMap]
  constructor
  · rintro ⟨name, -, hmem⟩
    obtain ⟨⟨rest, rfl⟩, hread, hcounted⟩ :=
      (mem_treeAt_iff haddr (List.cons_ne_nil _ _)).mp hmem
    exact ⟨hread, counted_nil_iff.mpr hcounted⟩
  · rintro ⟨hread, hcounted⟩
    obtain ⟨name, rest, rfl, hname⟩ := exists_name_of_readNode hread
    refine ⟨name, hname, (mem_treeAt_iff haddr (List.cons_ne_nil _ _)).mpr ?_⟩
    exact ⟨⟨rest, rfl⟩, hread, counted_nil_iff.mp hcounted⟩

theorem nodup_treeAt {path : List Segment} :
    ((d.treeAt s authz path).map Prod.fst).Nodup := by
  rw [treeAt]
  cases hn : d.readNode s authz path with
  | none => exact List.nodup_nil
  | some n =>
    have hchild : ∀ a : Node, a.ty.WellFormed → ∀ child ∈ a.children authz,
        child.2.ty.WellFormed := by
      intro a ha child hmem
      exact (Node.child_ty ha (Node.mem_children_iff.mp hmem).2).1
    have hnodup := nodup_preorder hchild (fun a ha => Node.nodup_children ha) d.depth
      (wellFormed_of_readNode hn)
    have hinj : Function.Injective fun keys : List Segment => path ++ keys :=
      fun _ _ h => List.append_cancel_left h
    have hmap := hnodup.map hinj
    rwa [List.map_map] at hmap ⊢

theorem path_of_mem_treeAt {path : List Segment} {x : List Segment × Node}
    (h : x ∈ d.treeAt s authz path) : path <+: x.1 := by
  rw [treeAt] at h
  split at h
  · cases h
  · obtain ⟨found, -, rfl⟩ := List.mem_map.mp h
    exact List.prefix_append _ _

theorem nodup_paramTree : ((d.paramTree s authz).map Prod.fst).Nodup := by
  rw [paramTree, List.map_flatMap, List.nodup_flatMap]
  constructor
  · intro name hname
    exact nodup_treeAt
  · apply (Fields.nodup_names d.wellFormed).imp
    intro name name' hne q hq hq'
    obtain ⟨x, hx, rfl⟩ := List.mem_map.mp hq
    obtain ⟨x', hx', heq⟩ := List.mem_map.mp hq'
    obtain ⟨rest, hrest⟩ := path_of_mem_treeAt hx
    obtain ⟨rest', hrest'⟩ := path_of_mem_treeAt hx'
    rw [heq, ← hrest] at hrest'
    exact hne (Segment.name.inj (List.cons.inj hrest').1).symm

/-! ## Array elements -/

theorem exists_of_backIndex {q : List Segment} {i : Nat} (h : Path.backIndex q = some i) :
    ∃ init, q = init ++ [.index i] := by
  rcases List.eq_nil_or_concat q with rfl | ⟨init, last, rfl⟩
  · cases h
  · refine ⟨init, ?_⟩
    rw [Path.backIndex, List.concat_eq_append, List.getLast?_append] at h
    cases last with
    | index j =>
      obtain rfl : j = i := Option.some.inj h
      exact List.concat_eq_append
    | name oid => cases h

theorem index_child (haddr : d.Addressed s authz) {path : List Segment} {n m : Node} {i : Nat}
    (hn : d.readNode s authz path = some n) (h : n.child authz (.index i) = some m) :
    ∃ e, n.ty = .vector e ∧ m.ty = .elem e ∧ m.descriptor = n.descriptor ∧ i < n.size := by
  have hbelow := (Node.child_eq_some_iff.mp h).1
  have hchild := Node.tyChild_of_below (wellFormed_of_readNode hn) hbelow
  rw [Node.below_singleton] at hbelow
  obtain ⟨p, hp, -⟩ := Option.map_eq_some_iff.mp hbelow
  have hnames : ∀ name, n.child authz (.name name) = some m → Path.isIdentifier name = true :=
    fun name => haddr.identifier hn
  obtain ⟨ty, pd, v⟩ := n
  cases ty with
  | empty type subParams =>
    have hname := hnames (toString i) h
    rw [isIdentifier_toString] at hname
    cases hname
  | vector e =>
    obtain ⟨hty, hdescriptor⟩ := Prod.mk.inj (Option.some.inj hchild)
    obtain ⟨x, hx, -⟩ := Option.map_eq_some_iff.mp hp
    exact ⟨e, rfl, hty.symm, hdescriptor.symm, (List.getElem?_eq_some_iff.mp hx).1⟩
  | elem e => cases e <;> cases hp

theorem element_of_readNode (haddr : d.Addressed s authz) {init : List Segment} {i : Nat} {m : Node}
    (h : d.readNode s authz (init ++ [.index i]) = some m) :
    ∃ n e, d.readNode s authz init = some n ∧ n.ty = .vector e ∧ m.ty = .elem e ∧
      m.descriptor = n.descriptor ∧ m.isArrayType = true ∧ i < n.size := by
  have hne : init ≠ [] := by
    rintro rfl
    cases h
  obtain ⟨n, hn⟩ := readNode_prefix hne h
  have hchild := (readNode_append_singleton hn (.index i)).symm.trans h
  obtain ⟨e, hty, hmty, hdescriptor, hi⟩ := index_child haddr hn hchild
  refine ⟨n, e, hn, hty, hmty, hdescriptor, ?_, hi⟩
  have htyped := typed_of_readNode hn
  obtain ⟨ty, pd, v⟩ := n
  obtain rfl : ty = .vector e := hty
  rw [Node.isArrayType, hdescriptor]
  exact Node.isArrayType_of_vector htyped

/-- Where every array has fewer than 2^32 elements, all that can be read is counted. -/
theorem counted_of_sizes (haddr : d.Addressed s authz)
    (hsizes : ∀ q n, d.readNode s authz q = some n → Path.backIndex q = none →
      n.isArrayType = true → n.size < 2 ^ 32) {q : List Segment} {m : Node}
    (h : d.readNode s authz q = some m) : d.Counted s authz [] q := by
  intro above i rest arr habove hq harr
  clear habove
  have hsplit : q = above ++ [.index i] ++ rest := by
    rw [hq, List.append_assoc, List.singleton_append]
  obtain ⟨c, hc⟩ := readNode_prefix (by simp) (hsplit ▸ h)
  obtain ⟨n, e, hn, hty, -, -, -, hi⟩ := element_of_readNode haddr hc
  obtain rfl := Option.some.inj (hn.symm.trans harr)
  have hback : Path.backIndex above = none := by
    by_contra hsome
    obtain ⟨j, hj⟩ := Option.ne_none_iff_exists'.mp hsome
    obtain ⟨init, rfl⟩ := exists_of_backIndex hj
    obtain ⟨-, e', -, -, helem, -⟩ := element_of_readNode haddr hn
    rw [hty] at helem
    cases helem
  have harray : n.isArrayType = true := by
    have htyped := typed_of_readNode hn
    obtain ⟨ty, pd, v⟩ := n
    obtain rfl : ty = .vector e := hty
    exact Node.isArrayType_of_vector htyped
  rw [Nat.mod_eq_of_lt (hsizes above n hn hback harray)]
  exact hi

theorem identifier_of_readNode (haddr : d.Addressed s authz) {path : List Segment} {n : Node}
    (h : d.readNode s authz path = some n) : Path.isIdentifier n.descriptor.getOid = true := by
  induction path using List.reverseRecOn generalizing n with
  | nil => cases h
  | append_singleton init segment ih =>
    cases segment with
    | name oid =>
      obtain ⟨hidentifier, hoid⟩ := haddr.names init oid n h
      rwa [hoid]
    | index i =>
      obtain ⟨array, -, harray, -, -, hdescriptor, -⟩ := element_of_readNode haddr h
      rw [hdescriptor]
      exact ih harray

end Device

end Catena.Store
