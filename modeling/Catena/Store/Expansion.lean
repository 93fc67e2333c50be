import Catena.Store.Accept
import Catena.Store.Unsubscribe
import Catena.Store.Walk

/-!
# What a wildcard expands to

On a device whose names are identifiers a wildcard is expanded to the oids at and below its path
that end with a name and that `getParam` finds, except below elements that a 32-bit length does
not count.
-/

namespace Catena.Store

open Catena.Framework
open ExceptionWithStatus (ok)

namespace Device

variable {d : Device} {s : d.State} {authz : Authorizer}

/-- The oids at or below a path that end with a name and that the client can get. -/
def Readable (d : Device) (s : d.State) (authz : Authorizer) (path q : List Segment) : Prop :=
  path <+: q ∧ Path.backIndex q = none ∧ ∃ param, d.getParam s q authz = .ok param

theorem readNode_iff_getParam {q : List Segment} :
    (∃ n, d.readNode s authz q = some n) ↔ ∃ param, d.getParam s q authz = .ok param := by
  constructor
  · rintro ⟨n, hn⟩
    obtain ⟨param, hparam, -⟩ := getParam_of_readNode hn
    exact ⟨param, hparam⟩
  · rintro ⟨param, hparam⟩
    exact ⟨param.node, readNode_of_getParam hparam⟩

theorem textBelow_of_canonical {p : String} {path keys : List Segment}
    (hp : Path.fqoid path = p) : textBelow p path keys = Path.fqoid (path ++ keys) := by
  rw [textBelow]
  split
  · rename_i hnil
    rw [hnil, List.append_nil, hp]
  · rfl

theorem mem_visits {n : Node} {path : String} {v : Visit} (h : v ∈ n.visits path) :
    v.path = path := by
  rw [Node.visits, List.mem_cons] at h
  rcases h with rfl | h
  · rfl
  · split at h
    · rw [List.mem_singleton.mp h]
      rfl
    · cases h

/-- A traversal from a printed path finds the oids that can be read along counted indices. -/
theorem traverse_finds (haddr : d.Addressed s authz) {p : String} {path : List Segment}
    (hp : Path.Canonical p path) {param : Param d.State}
    (hparam : d.getParam s path authz = .ok param) :
    ∃ visits, d.traverseParams s authz d.depth param p = .ok visits ∧
      (∀ v ∈ visits, ∃ q, Path.Canonical v.path q) ∧
      ∀ x, (∃ v ∈ visits, v.path = x ∧ Subscribable x) ↔
        ∃ q, Path.Canonical x q ∧ d.Readable s authz path q ∧ d.Counted s authz path q := by
  have hn := readNode_of_getParam hparam
  have hvisits := traverseParams_eq haddr hp.1 hparam (height_lt_depth hparam)
  refine ⟨_, hvisits, ?_⟩
  have hmem : ∀ keys m, (keys, m) ∈ preorder (Node.children authz) d.depth param.node ↔
      d.readNode s authz (path ++ keys) = some m ∧ d.Counted s authz path (path ++ keys) :=
    fun keys m => mem_preorder_children_iff haddr hn
  have hcanonical : ∀ keys m, (keys, m) ∈ preorder (Node.children authz) d.depth param.node →
      Path.parse (Path.fqoid (path ++ keys)) = .ok (path ++ keys) := by
    intro keys m h
    apply Path.parse_fqoid
    exact printable_of_walk haddr hn (Path.printable_of_parse hp.1) (walk_of_mem_preorder h)
  constructor
  · intro v hv
    obtain ⟨⟨keys, m⟩, hfound, hv⟩ := List.mem_flatMap.mp hv
    rw [textBelow_of_canonical hp.2] at hv
    rw [mem_visits hv]
    exact ⟨path ++ keys, hcanonical keys m hfound, rfl⟩
  · intro x
    constructor
    · rintro ⟨v, hv, rfl, q, hq, hback⟩
      obtain ⟨⟨keys, m⟩, hfound, hv⟩ := List.mem_flatMap.mp hv
      rw [textBelow_of_canonical hp.2] at hv
      have htext := mem_visits hv
      have hparse := hcanonical keys m hfound
      rw [← htext] at hparse
      obtain rfl := Except.ok.inj (hq.symm.trans hparse)
      obtain ⟨hread, hcounted⟩ := (hmem keys m).mp hfound
      exact ⟨path ++ keys, ⟨hq, htext.symm⟩,
        ⟨List.prefix_append _ _, hback, readNode_iff_getParam.mp ⟨m, hread⟩⟩, hcounted⟩
    · rintro ⟨q, hx, ⟨⟨keys, rfl⟩, hback, hget⟩, hcounted⟩
      obtain ⟨m, hm⟩ := readNode_iff_getParam.mpr hget
      refine ⟨.visit m x, ?_, rfl, path ++ keys, hx.1, hback⟩
      rw [List.mem_flatMap]
      refine ⟨(keys, m), (hmem keys m).mpr ⟨hm, hcounted⟩, ?_⟩
      rw [textBelow_of_canonical hp.2, hx.2]
      exact List.mem_cons_self

theorem subscribe_ok {visits : List Visit} (h : ∀ v ∈ visits, ∃ q, Path.parse v.path = .ok q)
    (oids : Finset String) : ∃ oids', subscribe visits oids = .ok oids' := by
  induction visits generalizing oids with
  | nil => exact ⟨oids, rfl⟩
  | cons visit visits ih =>
    obtain ⟨q, hq⟩ := h visit List.mem_cons_self
    rw [subscribe, hq]
    exact ih (fun v hv => h v (List.mem_cons_of_mem _ hv)) _

def Found (d : Device) (s : d.State) (authz : Authorizer) (path : List Segment) (x : String) :
    Prop :=
  ∃ q, Path.Canonical x q ∧ d.Readable s authz path q ∧ d.Counted s authz path q

theorem subscribe_traverse (haddr : d.Addressed s authz) {p : String} {path : List Segment}
    (hp : Path.Canonical p path) {param : Param d.State}
    (hparam : d.getParam s path authz = .ok param) (oids : Finset String) :
    ∃ visits oids', d.traverseParams s authz d.depth param p = .ok visits ∧
      subscribe visits oids = .ok oids' ∧ ∀ x, x ∈ oids' ↔ x ∈ oids ∨ d.Found s authz path x := by
  obtain ⟨visits, hvisits, hparses, hfinds⟩ := traverse_finds haddr hp hparam
  obtain ⟨oids', hoids'⟩ := subscribe_ok
    (fun v hv => (hparses v hv).imp fun q hq => hq.1) oids
  refine ⟨visits, oids', hvisits, hoids', ?_⟩
  intro x
  rw [mem_subscribe hoids', hfinds]
  rfl

theorem oid_of_getParam_name (haddr : d.Addressed s authz) {name : String} {param : Param d.State}
    (h : d.getParam s [.name name] authz = .ok param) :
    param.descriptor.getOid = name ∧ authz.readAuthz param.descriptor = true ∧
      Path.Canonical ("/" ++ name) [.name name] := by
  obtain ⟨hidentifier, hoid⟩ := haddr.names [] name param.node (readNode_of_getParam h)
  obtain ⟨hread, hfocus⟩ := (d.getParam_ok_iff s [.name name] authz param).mp h
  obtain ⟨found, hfound, hrest⟩ := Option.bind_eq_some_iff.mp (d.descend_of_focus hfocus)
  obtain ⟨-, hdescriptor⟩ := Prod.mk.inj (Option.some.inj hrest)
  refine ⟨hoid, ?_, Path.parse_name hidentifier, Path.fqoid_singleton _⟩
  rw [← hdescriptor]
  exact hread found hfound

theorem subscribeAll_ok (haddr : d.Addressed s authz) {params : List (Param d.State)}
    (hparams : ∀ param ∈ params, ∃ name, d.getParam s [.name name] authz = .ok param)
    (oids : Finset String) :
    ∃ oids', d.subscribeAll s authz params oids = .ok oids' ∧
      ∀ x, x ∈ oids' ↔ x ∈ oids ∨ ∃ param ∈ params, ∃ name,
        d.getParam s [.name name] authz = .ok param ∧ d.Found s authz [.name name] x := by
  induction params generalizing oids with
  | nil => exact ⟨oids, rfl, fun x => by simp⟩
  | cons param params ih =>
    obtain ⟨name, hname⟩ := hparams param List.mem_cons_self
    obtain ⟨hoid, hread, hcanonical⟩ := oid_of_getParam_name haddr hname
    obtain ⟨visits, oids₁, hvisits, hoids₁, hmem₁⟩ :=
      subscribe_traverse haddr hcanonical hname oids
    obtain ⟨oids', hoids', hmem'⟩ :=
      ih (fun param' hparam' => hparams param' (List.mem_cons_of_mem _ hparam')) oids₁
    refine ⟨oids', ?_, ?_⟩
    · rw [subscribeAll, if_pos hread, hoid, hvisits]
      simp only [bind, Except.bind, hoids₁, hoids']
    · intro x
      rw [hmem', hmem₁]
      simp only [List.mem_cons, exists_eq_or_imp, or_assoc]
      apply or_congr_right
      apply or_congr_left
      constructor
      · intro hfound
        exact ⟨name, hname, hfound⟩
      · rintro ⟨name', hname', hfound⟩
        obtain rfl : name = name' := by
          rw [← hoid, (oid_of_getParam_name haddr hname').1]
        exact hfound

theorem found_nil_iff {x : String} :
    d.Found s authz [] x ↔
      ∃ name param, d.getParam s [.name name] authz = .ok param ∧
        d.Found s authz [.name name] x := by
  constructor
  · rintro ⟨q, hx, ⟨-, hback, hget⟩, hcounted⟩
    obtain ⟨m, hm⟩ := readNode_iff_getParam.mpr hget
    obtain ⟨name, rest, rfl, -⟩ := exists_name_of_readNode hm
    have hsplit : Segment.name name :: rest = [.name name] ++ rest := rfl
    obtain ⟨n, hn⟩ := readNode_prefix (List.cons_ne_nil _ _) (hsplit ▸ hm)
    obtain ⟨param, hparam, -⟩ := getParam_of_readNode hn
    exact ⟨name, param, hparam, .name name :: rest, hx, ⟨⟨rest, rfl⟩, hback, hget⟩,
      counted_nil_iff.mp hcounted⟩
  · rintro ⟨name, param, -, q, hx, ⟨⟨rest, rfl⟩, hback, hget⟩, hcounted⟩
    exact ⟨.name name :: rest, hx, ⟨List.nil_prefix, hback, hget⟩, counted_nil_iff.mpr hcounted⟩

end Device

namespace SubscriptionManager

variable {d : Device} {s : d.State} {authz : Authorizer} {p : String} {path : List Segment}

/-- Adding `p/*` inserts what the wildcard finds, or fails on a path that cannot be got, whatever
has been subscribed before. -/
theorem addSubscription_found (haddr : d.Addressed s authz) (hp : Path.Canonical p path) :
    (∀ m : SubscriptionManager, ∃ oids,
      m.addSubscription (p ++ "/*") d s authz = .ok (ok, m.put d.slot oids) ∧
      ∀ x, x ∈ oids ↔ x ∈ m.subscriptions d.slot ∨ d.Found s authz path x) ∨
    (∃ rc, rc.isOk = false ∧ (∀ q, ¬d.Readable s authz path q) ∧
      ∀ m : SubscriptionManager, m.addSubscription (p ++ "/*") d s authz = .ok (rc, m)) := by
  by_cases hempty : p = ""
  · left
    intro m
    obtain rfl : path = [] := by
      rw [hempty] at hp
      exact (Except.ok.inj hp.1).symm
    obtain ⟨oids, hoids, hmem⟩ := @Device.subscribeAll_ok d s authz haddr _
      (fun param hparam => Device.mem_topLevelParams_iff.mp hparam) (m.subscriptions d.slot)
    refine ⟨oids, ?_, ?_⟩
    · rw [addSubscription, isWildcard_append, baseOf_append, hempty]
      simp only [Bool.not_true, Bool.false_eq_true, if_false, String.empty_append, ne_eq,
        not_true_eq_false, Device.getTopLevelParams_eq haddr, bind, Except.bind, hoids]
      rfl
    · intro x
      rw [hmem, Device.found_nil_iff]
      apply or_congr_right
      constructor
      · rintro ⟨param, -, name, hname, hfound⟩
        exact ⟨name, param, hname, hfound⟩
      · rintro ⟨name, param, hname, hfound⟩
        exact ⟨param, Device.mem_topLevelParams_iff.mpr ⟨name, hname⟩, name, hname, hfound⟩
  · have hget : d.getParamByOid s p authz = d.getParam s path authz := by
      rw [Device.getParamByOid, hp.1]
    cases hparam : d.getParam s path authz with
    | error rc =>
      right
      have hadd : ∀ m : SubscriptionManager,
          m.addSubscription (p ++ "/*") d s authz = .ok (rc, m) := by
        intro m
        rw [addSubscription, isWildcard_append, baseOf_append, if_neg (by decide),
          if_pos (append_wildcard_ne hempty), if_pos rfl, hget, hparam]
      refine ⟨rc, d.getParam_error hparam, ?_, hadd⟩
      rintro q ⟨⟨tail, rfl⟩, -, hq⟩
      obtain ⟨m', hm'⟩ := Device.readNode_iff_getParam.mpr hq
      have hne : path ≠ [] := by
        rintro rfl
        exact hempty hp.2.symm
      obtain ⟨n, hn⟩ := Device.readNode_prefix hne hm'
      obtain ⟨param, hok, -⟩ := Device.getParam_of_readNode hn
      rw [hparam] at hok
      cases hok
    | ok param =>
      left
      intro m
      obtain ⟨visits, oids, hvisits, hoids, hmem⟩ :=
        Device.subscribe_traverse haddr hp hparam (m.subscriptions d.slot)
      refine ⟨oids, ?_, hmem⟩
      rw [addSubscription, isWildcard_append, baseOf_append, if_neg (by decide),
        if_pos (append_wildcard_ne hempty), if_pos rfl, hget, hparam]
      simp only [bind, Except.bind, hvisits, hoids]
      rfl

/-- What adding `p/*` should do: when it returns OK, insert the oids at and below `p` that end
with a name and that the client can get, and remove nothing; otherwise, change nothing. Other
slots are not touched, and adding the wildcard again changes nothing. -/
def ExpandsExactly (m : SubscriptionManager) (d : Device) (s : d.State) (authz : Authorizer)
    (p : String) (path : List Segment) : Prop :=
  ∃ rc m', m.addSubscription (p ++ "/*") d s authz = .ok (rc, m') ∧
    (rc.isOk = true → ∀ x, x ∈ m'.subscriptions d.slot ↔ x ∈ m.subscriptions d.slot ∨
      ∃ q, Path.Canonical x q ∧ d.Readable s authz path q) ∧
    (rc.isOk = false → m'.subscriptions d.slot = m.subscriptions d.slot) ∧
    (∀ other, other ≠ d.slot → m'.subscriptions other = m.subscriptions other) ∧
    m'.addSubscription (p ++ "/*") d s authz = .ok (rc, m')

theorem counted_of_expandsExactly {m : SubscriptionManager} (haddr : d.Addressed s authz)
    (hp : Path.Canonical p path) (h : m.ExpandsExactly d s authz p path) {x : String}
    {q : List Segment} (hx : Path.Canonical x q) (hq : d.Readable s authz path q) :
    d.Counted s authz path q ∨ x ∈ m.subscriptions d.slot := by
  obtain ⟨rc, m', hadd', hexact, -⟩ := h
  rcases addSubscription_found haddr hp with hfound | ⟨rc, hrc, hnone, -⟩
  · obtain ⟨oids, hadd, hmem⟩ := hfound m
    obtain ⟨rfl, rfl⟩ := Prod.mk.inj (Except.ok.inj (hadd.symm.trans hadd'))
    have hin := (hexact rfl x).mpr (Or.inr ⟨q, hx, hq⟩)
    rw [subscriptions_put_self, hmem] at hin
    rcases hin with hin | ⟨q', hx', -, hcounted⟩
    · exact Or.inr hin
    · obtain rfl := Except.ok.inj (hx.1.symm.trans hx'.1)
      exact Or.inl hcounted
  · exact absurd hq (hnone q)

/-- A wildcard expands exactly just when each oid that it should find is found along indices that
a 32-bit length counts, or is subscribed already. -/
theorem expandsExactly_iff_counted (d : Device) (s : d.State) (authz : Authorizer)
    (m : SubscriptionManager) (p : String) (path : List Segment) (hnamed : d.params.Named)
    (hp : Path.Canonical p path) :
    m.ExpandsExactly d s authz p path ↔
      ∀ x q, Path.Canonical x q → d.Readable s authz path q →
        d.Counted s authz path q ∨ x ∈ m.subscriptions d.slot := by
  have haddr : d.Addressed s authz := Device.addressed_of_named hnamed
  constructor
  · intro hexact x q hx hq
    exact counted_of_expandsExactly haddr hp hexact hx hq
  · intro hcounted
    rcases addSubscription_found haddr hp with hfound | ⟨rc, hrc, -, hadd⟩
    · obtain ⟨oids, hadd, hmem⟩ := hfound m
      refine ⟨ok, m.put d.slot oids, hadd, ?_, (fun h => nomatch h), ?_, ?_⟩
      · intro hok x
        rw [subscriptions_put_self, hmem]
        constructor
        · rintro (hx | ⟨q, hx, hq, -⟩)
          · exact Or.inl hx
          · exact Or.inr ⟨q, hx, hq⟩
        · rintro (hx | ⟨q, hx, hq⟩)
          · exact Or.inl hx
          · rcases hcounted x q hx hq with h | h
            · exact Or.inr ⟨q, hx, hq, h⟩
            · exact Or.inl h
      · intro other hother
        exact subscriptions_put_of_ne m oids hother
      · -- the second expansion finds the same oids
        obtain ⟨oids', hadd', hmem'⟩ := hfound (m.put d.slot oids)
        have hsame : oids' = oids := by
          ext x
          rw [hmem', subscriptions_put_self, hmem]
          tauto
        rw [hadd', hsame, put_put]
    · refine ⟨rc, m, hadd m, ?_, fun hfail => rfl, fun other hother => rfl, hadd m⟩
      intro hok
      rw [hrc] at hok
      cases hok

end SubscriptionManager

def cellsDevice : Device where
  defaults := { defaultScope := "st2138:op" }
  params := .cons "cells" { oid := "cells" }
    (.vector (.struct (.cons "level" { oid := "level" } (.elem .int32) .nil))) .nil
  wellFormed := ⟨List.not_mem_nil, ⟨List.not_mem_nil, trivial, trivial⟩, trivial⟩

def cells (n : Nat) : cellsDevice.State :=
  ((List.replicate n ((0, ()) : Int32 × Unit), ()) : List (Int32 × Unit) × Unit)

theorem cellsDevice_named : cellsDevice.params.Named :=
  ⟨by decide, rfl, ⟨by decide, rfl, trivial, trivial⟩, trivial⟩

theorem readNode_cells (n : Nat) :
    ∃ arr, cellsDevice.readNode (cells n) .kAuthzDisabled [.name "cells"] = some arr ∧
      arr.size = n :=
  ⟨_, rfl, List.length_replicate⟩

theorem getParam_cells (n : Nat) :
    ∃ param, cellsDevice.getParam (cells (n + 1)) [.name "cells", .index 0, .name "level"]
      .kAuthzDisabled = .ok param :=
  ⟨_, rfl⟩

namespace SubscriptionManager

/-- An array of 2^32 elements is taken for an empty one. -/
theorem uncounted_missed :
    cellsDevice.params.Named ∧ Path.Canonical "/cells" [.name "cells"] ∧
    cellsDevice.Readable (cells (2 ^ 32)) .kAuthzDisabled [.name "cells"]
      [.name "cells", .index 0, .name "level"] ∧
    ¬noSubscriptions.ExpandsExactly cellsDevice (cells (2 ^ 32)) .kAuthzDisabled "/cells"
      [.name "cells"] := by
  have hreadable : cellsDevice.Readable (cells (2 ^ 32)) .kAuthzDisabled [.name "cells"]
      [.name "cells", .index 0, .name "level"] :=
    ⟨⟨_, rfl⟩, rfl, getParam_cells (2 ^ 32 - 1)⟩
  have hcanonical : Path.Canonical "/cells" [.name "cells"] := ⟨rfl, rfl⟩
  refine ⟨cellsDevice_named, hcanonical, hreadable, ?_⟩
  intro hexact
  rcases counted_of_expandsExactly (Device.addressed_of_named cellsDevice_named) hcanonical hexact
    (x := "/cells/0/level") ⟨rfl, rfl⟩ hreadable with hcounted | hmem
  · obtain ⟨arr, harr, hsize⟩ := readNode_cells (2 ^ 32)
    have hlt := hcounted [.name "cells"] 0 [.name "level"] arr (List.prefix_refl _) rfl harr
    rw [hsize] at hlt
    omega
  · cases hmem

/-- Two cells are counted. -/
theorem expandsExactly_iff_counted_cells :
    cellsDevice.params.Named ∧ Path.Canonical "/cells" [.name "cells"] ∧
    (noSubscriptions.ExpandsExactly cellsDevice (cells 2) .kAuthzDisabled "/cells"
        [.name "cells"] ↔
      ∀ x q, Path.Canonical x q →
        cellsDevice.Readable (cells 2) .kAuthzDisabled [.name "cells"] q →
        cellsDevice.Counted (cells 2) .kAuthzDisabled [.name "cells"] q ∨
          x ∈ noSubscriptions.subscriptions cellsDevice.slot) :=
  ⟨cellsDevice_named, ⟨rfl, rfl⟩, expandsExactly_iff_counted cellsDevice (cells 2)
    .kAuthzDisabled noSubscriptions "/cells" [.name "cells"] cellsDevice_named ⟨rfl, rfl⟩⟩

end SubscriptionManager

end Catena.Store
