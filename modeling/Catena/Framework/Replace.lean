import Mathlib.Data.Multiset.AddSub

/-!
# Replacing an element of a list

What becomes of the elements of a list, counted or as a multiset, when one of them is replaced.
-/

namespace Catena.Framework

variable {α : Type}

theorem set_add_singleton {l : List α} {j : Nat} {x : α} (y : α)
    (hx : l[j]? = some x) : (l.set j y : Multiset α) + {x} = (l : Multiset α) + {y} := by
  obtain ⟨hj, rfl⟩ := List.getElem?_eq_some_iff.mp hx
  have hset : (l.set j y : Multiset α) = y ::ₘ (l.eraseIdx j : Multiset α) :=
    Multiset.coe_eq_coe.mpr (List.set_perm_cons_eraseIdx hj y)
  have hself : (l : Multiset α) = l[j] ::ₘ (l.eraseIdx j : Multiset α) :=
    Multiset.coe_eq_coe.mpr (List.getElem_cons_eraseIdx_perm hj).symm
  rw [hset, hself, ← Multiset.singleton_add y, ← Multiset.singleton_add l[j]]
  rw [Multiset.add_comm {y}, Multiset.add_comm {l[j]}, Multiset.add_assoc,
    Multiset.add_comm {y}, ← Multiset.add_assoc]

theorem countP_set {p : α → Bool} {l : List α} {j : Nat} {x : α} (y : α)
    (hx : l[j]? = some x) :
    (l.set j y).countP p + (if p x then 1 else 0) = l.countP p + if p y then 1 else 0 := by
  obtain ⟨hj, rfl⟩ := List.getElem?_eq_some_iff.mp hx
  have hset := (List.set_perm_cons_eraseIdx hj y).countP_eq p
  have hself := (List.getElem_cons_eraseIdx_perm hj).countP_eq p
  rw [hset, ← hself, List.countP_cons, List.countP_cons]
  omega

end Catena.Framework
