import Mathlib.Data.Finset.Basic
import Catena.Store.TopLevel

/-!
# The subscription manager

The manager keeps the subscribed oids of every slot. A wildcard `p/*` is expanded when it is
added: a traversal inserts the oid of every parameter at and below `p` that is no array element.
When it is removed, the oids are found by a scan for texts that start with `p`.
-/

namespace Catena.Store

open ExceptionWithStatus (ok)

/-- `subscriptions_`; a slot that is not in the map has no subscriptions. -/
structure SubscriptionManager where
  subscriptions : Nat → Finset String

def Visit.path : Visit → String
  | .visit _ path | .visitArray _ path _ => path

/-- `SubscriptionVisitor`: both callbacks insert the path unless it ends with an index. -/
def subscribe : List Visit → Finset String → Except Stop (Finset String)
  | [], oids => .ok oids
  | visit :: visits, oids =>
      match Path.parse visit.path with
      | .error why => .error (.threw why)
      | .ok path =>
          subscribe visits (if (Path.backIndex path).isSome then oids else insert visit.path oids)

namespace Device

/-- The loop that subscribes everything below the top level parameters. -/
def subscribeAll (d : Device) (s : d.State) (authz : Authorizer) :
    List (Param d.State) → Finset String → Except Stop (Finset String)
  | [], oids => .ok oids
  | param :: params, oids =>
      if authz.readAuthz param.descriptor then do
        let visits ← d.traverseParams s authz d.depth param ("/" ++ param.descriptor.getOid)
        let oids ← subscribe visits oids
        subscribeAll d s authz params oids
      else subscribeAll d s authz params oids

/-- What the loop has inserted when it ends, or when an exception ends it. A traversal throws only
at its root, before it inserts anything. -/
def subscribeUntil (d : Device) (s : d.State) (authz : Authorizer) :
    List (Param d.State) → Finset String → Finset String
  | [], oids => oids
  | param :: params, oids =>
      if authz.readAuthz param.descriptor then
        let visits := d.traverseParams s authz d.depth param ("/" ++ param.descriptor.getOid)
        match visits.bind (subscribe · oids) with
        | .ok oids => subscribeUntil d s authz params oids
        | .error _ => oids
      else subscribeUntil d s authz params oids

end Device

namespace SubscriptionManager

/-- `SubscriptionManager::isWildcard`. -/
def isWildcard (oid : String) : Bool := endsWith oid "/*"

/-- `oid.substr(0, oid.length() - 2)`. -/
def baseOf (oid : String) : String := String.ofList (oid.toList.take (oid.toList.length - 2))

/-- The manager with other subscriptions for a slot. -/
def put (m : SubscriptionManager) (slot : Nat) (oids : Finset String) : SubscriptionManager :=
  ⟨Function.update m.subscriptions slot oids⟩

/-- `SubscriptionManager::addSubscription`: the status, and the manager afterwards. What has
been inserted before an exception is left out. -/
def addSubscription (m : SubscriptionManager) (oid : String) (d : Device) (s : d.State)
    (authz : Authorizer) : Except Stop (ExceptionWithStatus × SubscriptionManager) :=
  let wildcard := isWildcard oid
  let dmSubscriptions := m.subscriptions d.slot
  let baseOid := if wildcard then baseOf oid else oid
  if !wildcard then
    let param := d.getParamByOid s baseOid authz
    if baseOid ∈ dmSubscriptions then
      .ok (⟨"Subscription already exists for OID: " ++ baseOid, .alreadyExists⟩, m)
    else
      match param with
      | .error rc => .ok (rc, m)
      | .ok _ => .ok (ok, m.put d.slot (insert baseOid dmSubscriptions))
  else if oid ≠ "/*" then
    match d.getParamByOid s baseOid authz with
    | .error rc => .ok (rc, m)
    | .ok param => do
        let visits ← d.traverseParams s authz d.depth param baseOid
        let oids ← subscribe visits dmSubscriptions
        return (ok, m.put d.slot oids)
  else
    match d.getTopLevelParams s authz with
    | .error why => .error (.threw why)
    | .ok (rc, allParams) => do
        let oids ← d.subscribeAll s authz allParams dmSubscriptions
        return (rc, m.put d.slot oids)

/-- The manager after `addSubscription`, with what an exception has left in it. -/
def afterAdd (m : SubscriptionManager) (oid : String) (d : Device) (s : d.State)
    (authz : Authorizer) : SubscriptionManager :=
  match m.addSubscription oid d s authz with
  | .ok added => added.2
  | .error _ =>
      match d.getTopLevelParams s authz with
      | .error _ => m
      | .ok (_, allParams) =>
          if oid = "/*" then
            m.put d.slot (d.subscribeUntil s authz allParams (m.subscriptions d.slot))
          else m

/-- `SubscriptionManager::removeSubscription`: the status, and the manager afterwards. -/
def removeSubscription (m : SubscriptionManager) (oid : String) (slot : Nat) :
    ExceptionWithStatus × SubscriptionManager :=
  let dmSubscriptions := m.subscriptions slot
  let notFound := ⟨"Subscription not found for OID: " ++ oid, .notFound⟩
  if isWildcard oid then
    let basePath := baseOf oid
    let found := decide (∃ x ∈ dmSubscriptions, startsWith x basePath = true)
    let kept := dmSubscriptions.filter fun x => !startsWith x basePath
    (if found then ok else notFound, m.put slot kept)
  else if oid ∈ dmSubscriptions then (ok, m.put slot (dmSubscriptions.erase oid))
  else (notFound, m)

/-! ## Removing a wildcard -/

def AtOrBelow (p x : String) : Prop := x = p ∨ (p ++ "/").toList <+: x.toList

/-- The text goes on inside the last name of the path. -/
def Continues (p x : String) : Prop := ∃ c y, c ≠ '/' ∧ x.toList = p.toList ++ c :: y

/-- What removing `p/*` should do: remove what is at or below `p` and nothing else, and say so
when there was nothing. -/
def RemovesSubtree (m : SubscriptionManager) (slot : Nat) (p : String) : Prop :=
  let removed := m.removeSubscription (p ++ "/*") slot
  (∀ x, x ∈ removed.2.subscriptions slot ↔ x ∈ m.subscriptions slot ∧ ¬AtOrBelow p x) ∧
  (∀ other, other ≠ slot → removed.2.subscriptions other = m.subscriptions other) ∧
  (removed.1.status = .notFound ↔ removed.2.subscriptions slot = m.subscriptions slot)

@[simp] theorem subscriptions_put_self (m : SubscriptionManager) (slot : Nat)
    (oids : Finset String) : (m.put slot oids).subscriptions slot = oids := by
  rw [put]
  apply Function.update_self

@[simp] theorem subscriptions_put_of_ne (m : SubscriptionManager) {slot other : Nat}
    (oids : Finset String) (h : other ≠ slot) :
    (m.put slot oids).subscriptions other = m.subscriptions other := by
  rw [put]
  apply Function.update_of_ne h

@[simp] theorem put_put (m : SubscriptionManager) (slot : Nat) (oids oids' : Finset String) :
    (m.put slot oids).put slot oids' = m.put slot oids' := by
  rw [put, put, put, Function.update_idem]

@[simp] theorem put_subscriptions (m : SubscriptionManager) (slot : Nat) :
    m.put slot (m.subscriptions slot) = m := by
  rw [put, Function.update_eq_self]

@[simp] theorem isWildcard_append (p : String) : isWildcard (p ++ "/*") = true := by
  rw [isWildcard, endsWith, List.isSuffixOf_iff_suffix, String.toList_append]
  exact List.suffix_append _ _

@[simp] theorem baseOf_append (p : String) : baseOf (p ++ "/*") = p := by
  have hlength : (p.toList ++ "/*".toList).length - 2 = p.toList.length := by simp
  rw [baseOf, String.toList_append, hlength, List.take_left, String.ofList_toList]

theorem startsWith_iff {x p : String} : startsWith x p = true ↔ AtOrBelow p x ∨ Continues p x := by
  rw [startsWith, List.isPrefixOf_iff_prefix]
  constructor
  · rintro ⟨tail, htail⟩
    cases tail with
    | nil =>
      rw [List.append_nil] at htail
      exact Or.inl (Or.inl (String.toList_inj.mp htail.symm))
    | cons c y =>
      by_cases hc : c = '/'
      · refine Or.inl (Or.inr ⟨y, ?_⟩)
        rw [← htail, hc, String.toList_append]
        simp
      · exact Or.inr ⟨c, y, hc, htail.symm⟩
  · rintro ((rfl | hbelow) | ⟨c, y, -, htext⟩)
    · exact List.prefix_refl _
    · rw [String.toList_append] at hbelow
      exact (List.prefix_append _ _).trans hbelow
    · exact ⟨c :: y, htext.symm⟩

theorem not_atOrBelow_of_continues {x p : String} (h : Continues p x) : ¬AtOrBelow p x := by
  obtain ⟨c, y, hc, htext⟩ := h
  rintro (rfl | ⟨z, hz⟩)
  · simp at htext
  · rw [htext, String.toList_append, List.append_assoc] at hz
    exact hc (List.cons.inj (List.append_cancel_left hz)).1.symm

theorem removeSubscription_wildcard (m : SubscriptionManager) (slot : Nat) (p : String) :
    (m.removeSubscription (p ++ "/*") slot).2 =
      m.put slot ((m.subscriptions slot).filter fun x => !startsWith x p) := by
  rw [removeSubscription]
  simp

theorem mem_removeSubscription_wildcard {m : SubscriptionManager} {slot : Nat} {p x : String} :
    x ∈ (m.removeSubscription (p ++ "/*") slot).2.subscriptions slot ↔
      x ∈ m.subscriptions slot ∧ ¬AtOrBelow p x ∧ ¬Continues p x := by
  rw [removeSubscription_wildcard, subscriptions_put_self, Finset.mem_filter, Bool.not_eq_true',
    ← Bool.not_eq_true, startsWith_iff, not_or]

theorem notFound_iff (m : SubscriptionManager) (slot : Nat) (p : String) :
    (m.removeSubscription (p ++ "/*") slot).1.status = .notFound ↔
      (m.removeSubscription (p ++ "/*") slot).2.subscriptions slot = m.subscriptions slot := by
  rw [removeSubscription_wildcard, subscriptions_put_self, Finset.filter_eq_self,
    removeSubscription]
  simp only [isWildcard_append, if_true, baseOf_append, decide_eq_true_eq]
  split
  · rename_i hfound
    obtain ⟨x, hx, hstart⟩ := hfound
    simp only [ok, reduceCtorEq, false_iff, not_forall]
    exact ⟨x, hx, by simp [hstart]⟩
  · rename_i hfound
    simp only [true_iff]
    intro x hx
    rw [Bool.not_eq_true', ← Bool.not_eq_true]
    exact fun hstart => hfound ⟨x, hx, hstart⟩

theorem removesSubtree_iff (m : SubscriptionManager) (slot : Nat) (p : String) :
    m.RemovesSubtree slot p ↔ ∀ x ∈ m.subscriptions slot, ¬Continues p x := by
  constructor
  · rintro ⟨hkept, -, -⟩ x hx hcontinues
    have hmem := (hkept x).mpr ⟨hx, not_atOrBelow_of_continues hcontinues⟩
    exact (mem_removeSubscription_wildcard.mp hmem).2.2 hcontinues
  · intro h
    refine ⟨?_, ?_, notFound_iff m slot p⟩
    · intro x
      rw [mem_removeSubscription_wildcard]
      constructor
      · rintro ⟨hx, hbelow, -⟩
        exact ⟨hx, hbelow⟩
      · rintro ⟨hx, hbelow⟩
        exact ⟨hx, hbelow, h x hx⟩
    · intro other hother
      rw [removeSubscription_wildcard, subscriptions_put_of_ne m _ hother]

end SubscriptionManager

end Catena.Store
