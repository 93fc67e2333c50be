import Mathlib.Data.List.AList

/-!
# Maps with string keys

`StringMap` is an association list with distinct keys. `insertAll` is the loop that copies one
map into another entry by entry, and `freshKey` a number no entry uses. The maps of a message are
plain lists of entries; `setEntry` assigns to a key of such a list.
-/

namespace Catena.Framework

abbrev StringMap (α : Type) : Type := AList fun _ : String => α

abbrev AddressMap (α : Type) : Type := AList fun _ : Nat => α

section InsertAll

variable {κ α : Type} [DecidableEq κ]

/-- Copy the entries of a list into a map, a later entry over an earlier one. -/
def insertEntries (m : AList fun _ : κ => α) (entries : List (Σ _ : κ, α)) : AList fun _ : κ => α :=
  entries.foldl (fun m e => m.insert e.1 e.2) m

/-- Copy every entry of the second map into the first. -/
def insertAll (m new : AList fun _ : κ => α) : AList fun _ : κ => α := insertEntries m new.entries

theorem lookup_insertEntries (key : κ) (entries : List (Σ _ : κ, α)) (hd : entries.NodupKeys)
    (m : AList fun _ : κ => α) :
    (insertEntries m entries).lookup key = (entries.dlookup key).or (m.lookup key) := by
  induction entries generalizing m with
  | nil => rfl
  | cons e entries ih =>
    obtain ⟨hnot, hrest⟩ := List.nodupKeys_cons.mp hd
    have hstep := ih hrest (m.insert e.1 e.2)
    rw [insertEntries, List.foldl_cons]
    refine hstep.trans ?_
    by_cases h : e.1 = key
    · subst h
      rw [List.dlookup_eq_none.mpr hnot, AList.lookup_insert, List.dlookup_cons_eq]
      rfl
    · rw [AList.lookup_insert_ne (Ne.symm h), List.dlookup_cons_ne _ e (Ne.symm h)]

@[simp] theorem lookup_insertAll (key : κ) (m new : AList fun _ : κ => α) :
    (insertAll m new).lookup key = (new.lookup key).or (m.lookup key) :=
  lookup_insertEntries key new.entries new.nodupKeys m

end InsertAll

section SetEntry

variable {κ α : Type} [DecidableEq κ]

/-- `m[key] = value`. -/
def setEntry : List (κ × α) → κ → α → List (κ × α)
  | [], key, value => [(key, value)]
  | e :: m, key, value => if e.1 = key then (key, value) :: m else e :: setEntry m key value

theorem setEntry_of_notMem (m : List (κ × α)) (key : κ) (value : α) (h : key ∉ m.map Prod.fst) :
    setEntry m key value = m ++ [(key, value)] := by
  induction m with
  | nil => rfl
  | cons e m ih =>
    have hne : e.1 ≠ key := fun heq => h (by simp [heq])
    have hrest : key ∉ m.map Prod.fst := fun hmem => h (by simp [hmem])
    rw [setEntry, if_neg hne, ih hrest]
    rfl

theorem find?_setEntry (m : List (κ × α)) (key : κ) (value : α) :
    (setEntry m key value).find? (fun e => e.1 = key) = some (key, value) := by
  induction m with
  | nil => simp [setEntry]
  | cons e m ih =>
    rw [setEntry]
    split
    · simp
    · rename_i hne
      rw [List.find?_cons_of_neg (by simpa using hne), ih]

theorem foldl_setEntry (m entries : List (κ × α)) (h : ((m ++ entries).map Prod.fst).Nodup) :
    entries.foldl (fun m e => setEntry m e.1 e.2) m = m ++ entries := by
  induction entries generalizing m with
  | nil => simp
  | cons e entries ih =>
    have hnot : e.1 ∉ m.map Prod.fst := by
      intro hmem
      rw [List.map_append, List.nodup_append] at h
      exact h.2.2 _ hmem _ (by simp) rfl
    have hstep : m ++ e :: entries = (m ++ [e]) ++ entries := by simp
    rw [hstep] at h ⊢
    rw [List.foldl_cons, setEntry_of_notMem m e.1 e.2 hnot]
    exact ih _ h

theorem foldl_setEntry_entries {γ : Type} (m : AList fun _ : κ => γ) (f : (Σ _ : κ, γ) → α) :
    m.entries.foldl (fun dst e => setEntry dst e.1 (f e)) [] = m.entries.map fun e => (e.1, f e) := by
  have hkeys : ((m.entries.map fun e => (e.1, f e)).map Prod.fst).Nodup := by
    rw [List.map_map]
    exact m.nodupKeys
  have hcopy := foldl_setEntry [] (m.entries.map fun e => (e.1, f e)) hkeys
  rw [List.foldl_map] at hcopy
  exact hcopy

omit [DecidableEq κ] in
theorem mem_of_lookup [BEq κ] [LawfulBEq κ] {m : List (κ × α)} {key : κ} {value : α}
    (h : m.lookup key = some value) : (key, value) ∈ m := by
  obtain ⟨before, after, rfl, -⟩ := List.lookup_eq_some_iff.mp h
  exact List.mem_append_right before List.mem_cons_self

theorem lookup_of_mem {m : List (κ × α)} (h : (m.map Prod.fst).Nodup) {e : κ × α} (he : e ∈ m) :
    m.lookup e.1 = some e.2 := by
  induction m with
  | nil => cases he
  | cons e' m ih =>
    obtain ⟨hnot, hrest⟩ := List.nodup_cons.mp h
    rcases List.mem_cons.mp he with rfl | he
    · exact List.lookup_cons_self
    · have hne : (e.1 == e'.1) = false := by
        rw [beq_eq_false_iff_ne]
        intro heq
        exact hnot (heq ▸ List.mem_map_of_mem he)
      rw [List.lookup_cons, hne]
      exact ih hrest he

end SetEntry

def freshKey {α : Type} (m : AddressMap α) : Nat := m.keys.foldr max 0 + 1

theorem freshKey_notMem {α : Type} (m : AddressMap α) : freshKey m ∉ m := by
  have hbound : ∀ (keys : List Nat) (key : Nat), key ∈ keys → key ≤ keys.foldr max 0 := by
    intro keys key hkey
    induction keys with
    | nil => cases hkey
    | cons k keys ih =>
      rcases List.mem_cons.mp hkey with rfl | hmem
      · exact Nat.le_max_left _ _
      · exact Nat.le_trans (ih hmem) (Nat.le_max_right _ _)
  intro hmem
  have hle := hbound m.keys (freshKey m) hmem
  simp only [freshKey] at hle
  omega

end Catena.Framework
