import Mathlib.Data.List.Nodup
import Mathlib.Data.List.Flatten

/-!
# Trees in preorder

A tree is given by the children of a node, each under a key. `preorder` lists the nodes with the
keys on the way to them, a node before its children. With more fuel than the height of the root
it lists exactly the nodes that a walk leads to, each once when the keys of children are
distinct.
-/

namespace Catena.Framework

variable {α κ : Type} (children : α → List (κ × α))

/-- The nodes at and below a node, down to a depth, with the keys that lead to them. -/
def preorder : Nat → α → List (List κ × α)
  | 0, _ => []
  | fuel + 1, a => ([], a) :: (children a).flatMap fun child =>
      (preorder fuel child.2).map fun found => (child.1 :: found.1, found.2)

def Walk : List κ → α → α → Prop
  | [], a, b => a = b
  | key :: keys, a, b => ∃ c, (key, c) ∈ children a ∧ Walk keys c b

variable {children} {height : α → Nat}

theorem preorder_succ (fuel : Nat) (a : α) :
    preorder children (fuel + 1) a = ([], a) :: (children a).flatMap fun child =>
      (preorder children fuel child.2).map fun found => (child.1 :: found.1, found.2) :=
  rfl

theorem walk_of_mem_preorder {fuel : Nat} {a b : α} {keys : List κ}
    (h : (keys, b) ∈ preorder children fuel a) : Walk children keys a b := by
  induction fuel generalizing a keys with
  | zero => cases h
  | succ fuel ih =>
    rw [preorder_succ, List.mem_cons, List.mem_flatMap] at h
    rcases h with h | ⟨child, hchild, h⟩
    · obtain ⟨rfl, rfl⟩ := Prod.mk.inj h
      rfl
    · obtain ⟨found, hfound, h⟩ := List.mem_map.mp h
      obtain ⟨rfl, rfl⟩ := Prod.mk.inj h
      exact ⟨child.2, hchild, ih hfound⟩

section complete

variable {P : α → Prop} (hchild : ∀ a, P a → ∀ child ∈ children a, P child.2)

include hchild

/-- With enough fuel the listing is complete. -/
theorem mem_preorder_of_walk
    (hheight : ∀ a, P a → ∀ child ∈ children a, height child.2 < height a) {fuel : Nat} {a b : α}
    {keys : List κ} (ha : P a) (hfuel : height a < fuel) (h : Walk children keys a b) :
    (keys, b) ∈ preorder children fuel a := by
  induction keys generalizing fuel a with
  | nil =>
    obtain rfl : a = b := h
    cases fuel with
    | zero => omega
    | succ fuel =>
      rw [preorder_succ]
      exact List.mem_cons_self
  | cons key keys ih =>
    obtain ⟨c, hc, hwalk⟩ := h
    have hlower : height c < height a := hheight a ha (key, c) hc
    cases fuel with
    | zero => omega
    | succ fuel =>
      have hmem := ih (hchild a ha (key, c) hc) (show height c < fuel by omega) hwalk
      rw [preorder_succ]
      apply List.mem_cons_of_mem
      rw [List.mem_flatMap]
      exact ⟨(key, c), hc, List.mem_map.mpr ⟨(keys, b), hmem, rfl⟩⟩

theorem mem_preorder_iff
    (hheight : ∀ a, P a → ∀ child ∈ children a, height child.2 < height a) {fuel : Nat} {a b : α}
    {keys : List κ} (ha : P a) (hfuel : height a < fuel) :
    (keys, b) ∈ preorder children fuel a ↔ Walk children keys a b :=
  ⟨walk_of_mem_preorder, mem_preorder_of_walk hchild hheight ha hfuel⟩

/-- Every node is listed once, where children have distinct keys. -/
theorem nodup_preorder (hkeys : ∀ a, P a → ((children a).map Prod.fst).Nodup) (fuel : Nat) {a : α}
    (ha : P a) : ((preorder children fuel a).map Prod.fst).Nodup := by
  induction fuel generalizing a with
  | zero => exact List.nodup_nil
  | succ fuel ih =>
    rw [preorder_succ, List.map_cons, List.nodup_cons, List.map_flatMap]
    constructor
    · intro h
      obtain ⟨child, -, h⟩ := List.mem_flatMap.mp h
      simp at h
    · rw [List.nodup_flatMap]
      constructor
      · intro child hmem
        have hinj : Function.Injective fun keys : List κ => child.1 :: keys := by
          intro keys keys' h
          exact (List.cons.inj h).2
        have hmap := (ih (hchild a ha child hmem)).map hinj
        rwa [List.map_map] at hmap ⊢
      · have hpairwise := List.pairwise_map.mp (hkeys a ha)
        apply hpairwise.imp
        intro child child' hne keys hmem hmem'
        simp only [List.map_map, List.mem_map, Function.comp_apply] at hmem hmem'
        obtain ⟨_, -, rfl⟩ := hmem
        obtain ⟨_, -, h⟩ := hmem'
        exact hne (List.cons.inj h).1.symm

end complete

end Catena.Framework
