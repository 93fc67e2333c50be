import Mathlib.Data.List.Pairwise

/-!
# Lists of declarations

Declarations have a name and a kind. When are the names in such a list distinct, where one kind may
repeat the names of its own, and when is each declaration in order after those before it?
-/

namespace Catena.Framework

section Names

variable {α κ ν : Type} [DecidableEq κ] (kind : α → κ) (name : α → ν)

def namesOf (k : κ) (l : List α) : List ν := (l.filter (kind · = k)).map name

/-- Two declarations have different names, unless both are of the kind `free`. -/
def NamedApart (free : κ) (a b : α) : Prop := kind a ≠ free ∨ kind b ≠ free → name a ≠ name b

variable {kind name}

theorem namesOf_append {k : κ} {l l' : List α} :
    namesOf kind name k (l ++ l') = namesOf kind name k l ++ namesOf kind name k l' := by
  unfold namesOf
  rw [List.filter_append, List.map_append]

theorem namesOf_cons_of_eq {a : α} {l : List α} :
    namesOf kind name (kind a) (a :: l) = name a :: namesOf kind name (kind a) l := by
  unfold namesOf
  rw [List.filter_cons_of_pos (by simp), List.map_cons]

theorem namesOf_cons_of_ne {k : κ} {a : α} {l : List α} (h : kind a ≠ k) :
    namesOf kind name k (a :: l) = namesOf kind name k l := by
  unfold namesOf
  rw [List.filter_cons_of_neg]
  exact fun h' => h (of_decide_eq_true h')

theorem namesOf_singleton {k : κ} {a : α} (h : kind a = k) :
    namesOf kind name k [a] = [name a] := by
  subst h
  exact namesOf_cons_of_eq

theorem namesOf_singleton_of_ne {k : κ} {a : α} (h : kind a ≠ k) : namesOf kind name k [a] = [] :=
  namesOf_cons_of_ne h

theorem mem_namesOf {k : κ} {l : List α} {n : ν} :
    n ∈ namesOf kind name k l ↔ ∃ a ∈ l, kind a = k ∧ name a = n := by
  constructor
  · intro h
    obtain ⟨a, ha, hn⟩ := List.mem_map.mp h
    obtain ⟨ha, hk⟩ := List.mem_filter.mp ha
    exact ⟨a, ha, of_decide_eq_true hk, hn⟩
  · rintro ⟨a, ha, hk, hn⟩
    exact List.mem_map.mpr ⟨a, List.mem_filter.mpr ⟨ha, decide_eq_true hk⟩, hn⟩

theorem nodup_namesOf_of_pairwise {free k : κ} (hk : k ≠ free) {l : List α}
    (h : l.Pairwise (NamedApart kind name free)) : (namesOf kind name k l).Nodup := by
  apply List.pairwise_map.mpr
  apply (h.filter _).imp_of_mem
  intro a b ha _ hab
  have hkind : kind a = k := of_decide_eq_true (List.mem_filter.mp ha).2
  exact hab (Or.inl (hkind ▸ hk))

/-- Names are apart if they are within each kind, and between any two kinds. -/
theorem pairwise_namedApart_iff {free : κ} {l : List α} :
    l.Pairwise (NamedApart kind name free) ↔
      (∀ k ≠ free, (namesOf kind name k l).Nodup) ∧
        ∀ k k', k ≠ k' → ∀ n ∈ namesOf kind name k l, n ∉ namesOf kind name k' l := by
  constructor
  · intro h
    refine ⟨fun k hk => nodup_namesOf_of_pairwise hk h, ?_⟩
    intro k k' hkk n hn hn'
    obtain ⟨a, ha, rfl, rfl⟩ := mem_namesOf.mp hn
    obtain ⟨b, hb, rfl, hname⟩ := mem_namesOf.mp hn'
    have hsymm : Std.Symm (NamedApart kind name free) :=
      ⟨fun a b hab hkinds heq => hab hkinds.symm heq.symm⟩
    have hne : a ≠ b := fun heq => hkk (congrArg kind heq)
    have hkinds : kind a ≠ free ∨ kind b ≠ free := by
      by_contra hnot
      obtain ⟨hka, hkb⟩ := not_or.mp hnot
      exact hkk ((not_not.mp hka).trans (not_not.mp hkb).symm)
    exact h.forall ha hb hne hkinds hname.symm
  · rintro ⟨hnodup, hcross⟩
    induction l with
    | nil => exact List.Pairwise.nil
    | cons a l ih =>
      apply List.Pairwise.cons
      · intro b hb hkinds heq
        by_cases hk : kind a = kind b
        · have hfree : kind a ≠ free := by
            rcases hkinds with h | h
            · exact h
            · exact hk ▸ h
          have := hnodup (kind a) hfree
          rw [namesOf_cons_of_eq] at this
          apply (List.nodup_cons.mp this).1
          exact mem_namesOf.mpr ⟨b, hb, hk.symm, heq.symm⟩
        · apply hcross (kind a) (kind b) hk (name a)
          · exact mem_namesOf.mpr ⟨a, List.mem_cons_self, rfl, rfl⟩
          · exact mem_namesOf.mpr ⟨b, List.mem_cons_of_mem _ hb, rfl, heq.symm⟩
      · apply ih
        · intro k hk
          have hsub : (namesOf kind name k l).Sublist (namesOf kind name k (a :: l)) :=
            ((List.sublist_cons_self a l).filter _).map name
          exact (hnodup k hk).sublist hsub
        · intro k k' hkk n hn hn'
          obtain ⟨b, hb, hkb, hnb⟩ := mem_namesOf.mp hn
          obtain ⟨c, hc, hkc, hnc⟩ := mem_namesOf.mp hn'
          apply hcross k k' hkk n
          · exact mem_namesOf.mpr ⟨b, List.mem_cons_of_mem _ hb, hkb, hnb⟩
          · exact mem_namesOf.mpr ⟨c, List.mem_cons_of_mem _ hc, hkc, hnc⟩

end Names

section Order

variable {α : Type} {legal : List α → α → Prop}

/-- Every declaration is legal after those before it. -/
def InOrder (legal : List α → α → Prop) (l : List α) : Prop :=
  ∀ before a after, l = before ++ a :: after → legal before a

theorem inOrder_nil : InOrder legal [] := by
  intro before a after h
  exact absurd h.symm (List.append_ne_nil_of_right_ne_nil _ (List.cons_ne_nil _ _))

theorem InOrder.snoc {l : List α} {a : α} (h : InOrder legal l) (ha : legal l a) :
    InOrder legal (l ++ [a]) := by
  intro before b after heq
  rcases List.append_eq_append_iff.mp heq with ⟨rest, hbefore, hrest⟩ | ⟨rest, hl, hrest⟩
  · rcases List.singleton_eq_append_iff.mp hrest with ⟨rfl, hb⟩ | ⟨_, hb⟩
    · obtain ⟨rfl, rfl⟩ := List.cons.inj hb
      rw [hbefore, List.append_nil]
      exact ha
    · exact absurd hb (List.cons_ne_nil _ _)
  · cases rest with
    | nil =>
      obtain ⟨rfl, _⟩ := List.cons.inj hrest
      rw [List.append_nil] at hl
      rw [← hl]
      exact ha
    | cons c rest =>
      obtain ⟨rfl, _⟩ := List.cons.inj hrest
      exact h before b rest hl

end Order

end Catena.Framework
