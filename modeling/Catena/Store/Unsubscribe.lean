import Catena.Framework.Throws
import Catena.Store.SubscriptionManager

/-!
# Removing what a wildcard has added

A traversal visits its root under the text that the caller gave, and everything below under the
printed path of the root. A scan for the text that the caller gave finds all of it when that text
is the printed path.
-/

namespace Catena.Store

open ExceptionWithStatus (ok)
open Catena.Framework (bind_eq_ok_iff bind_ne_error)

/-- Below the path of the text, as it is printed. -/
def Below (path : List Segment) (x : String) : Prop :=
  ∃ y, x.toList = (Path.fqoid path).toList ++ '/' :: y

/-! ## What a traversal visits -/

theorem exists_of_mem_collect {ι : Type} {body : ι → Except Stop (List Visit)} {items : List ι}
    {visits : List Visit} {v : Visit} (h : collect body items = .ok visits) (hv : v ∈ visits) :
    ∃ item ∈ items, ∃ found, body item = .ok found ∧ v ∈ found := by
  induction items generalizing visits with
  | nil =>
    obtain rfl := Except.ok.inj h
    cases hv
  | cons item items ih =>
    obtain ⟨found, hfound, h⟩ := bind_eq_ok_iff.mp h
    obtain ⟨rest, hrest, h⟩ := bind_eq_ok_iff.mp h
    obtain rfl := Except.ok.inj h
    rcases List.mem_append.mp hv with hv | hv
    · exact ⟨item, List.mem_cons_self, found, hfound, hv⟩
    · obtain ⟨item', hitem', found', hfound', hv'⟩ := ih hrest hv
      exact ⟨item', List.mem_cons_of_mem _ hitem', found', hfound', hv'⟩

namespace Device

variable {d : Device} {s : d.State} {authz : Authorizer}

theorem getParamByOid_ok_iff {oid : String} {param : Param d.State} :
    d.getParamByOid s oid authz = .ok param ↔
      ∃ path, Path.parse oid = .ok path ∧ d.getParam s path authz = .ok param := by
  rw [getParamByOid]
  cases Path.parse oid with
  | error why => cases why <;> simp
  | ok path => simp

/-- What is visited, apart from the root, is visited through a child. -/
theorem exists_of_mem_traverse {fuel : Nat} {param : Param d.State} {text : String}
    {visits : List Visit} {v : Visit}
    (h : d.traverseParams s authz (fuel + 1) param text = .ok visits) (hv : v ∈ visits) :
    v.path = text ∨ ∃ segment found,
      d.traverseChild s authz (d.traverseParams s authz fuel) text segment = .ok found ∧
        v ∈ found := by
  rw [traverseParams] at h
  obtain ⟨elements, helements, h⟩ := bind_eq_ok_iff.mp h
  obtain ⟨children, hchildren, h⟩ := bind_eq_ok_iff.mp h
  obtain rfl := Except.ok.inj h
  rw [List.cons_append, List.cons_append, List.mem_cons, List.mem_append, List.mem_append] at hv
  rcases hv with rfl | (hv | hv) | hv
  · exact Or.inl rfl
  · split at hv
    · rw [List.mem_singleton.mp hv]
      exact Or.inl rfl
    · cases hv
  · obtain ⟨i, -, found, hfound, hv⟩ := exists_of_mem_collect helements hv
    exact Or.inr ⟨_, found, hfound, hv⟩
  · obtain ⟨name, -, found, hfound, hv⟩ := exists_of_mem_collect hchildren hv
    split at hfound
    · obtain rfl := Except.ok.inj hfound
      cases hv
    · exact Or.inr ⟨name, found, hfound, hv⟩

theorem exists_of_mem_traverseChild {traverse : Param d.State → String → Except Stop (List Visit)}
    {text segment : String} {visits : List Visit} {v : Visit}
    (h : d.traverseChild s authz traverse text segment = .ok visits) (hv : v ∈ visits) :
    ∃ path path' param, Path.parse text = .ok path ∧
      Path.parse (Path.fqoid path ++ "/" ++ Path.escaped segment) = .ok path' ∧
      d.getParam s path' authz = .ok param ∧
      traverse param (Path.fqoid path ++ "/" ++ Path.escaped segment) = .ok visits := by
  rw [traverseChild] at h
  split at h
  · cases h
  · rename_i path hparse
    dsimp only at h
    split at h
    · obtain rfl := Except.ok.inj h
      cases hv
    · rename_i param hparam
      obtain ⟨path', hparse', hget⟩ := getParamByOid_ok_iff.mp hparam
      split at h
      · exact ⟨path, path', param, hparse, hparse', hget, h⟩
      · obtain rfl := Except.ok.inj h
        cases hv

/-- A traversal visits the text that it is given and texts below its printed path. -/
theorem path_of_mem_traverse {fuel : Nat} {param : Param d.State} {text : String}
    {visits : List Visit} {v : Visit}
    (h : d.traverseParams s authz fuel param text = .ok visits) (hv : v ∈ visits) :
    v.path = text ∨ ∃ path, Path.parse text = .ok path ∧ Below path v.path := by
  induction fuel generalizing param text visits with
  | zero => cases h
  | succ fuel ih =>
    rcases exists_of_mem_traverse h hv with hroot | ⟨segment, found, hfound, hv⟩
    · exact Or.inl hroot
    · obtain ⟨path, path', sub, hparse, hparse', -, htraverse⟩ :=
        exists_of_mem_traverseChild hfound hv
      have htext : (Path.fqoid path ++ "/" ++ Path.escaped segment).toList =
          (Path.fqoid path).toList ++ '/' :: (Path.escaped segment).toList := by
        rw [String.toList_append, String.toList_append, List.append_assoc]
        rfl
      refine Or.inr ⟨path, hparse, ?_⟩
      rcases ih htraverse hv with hchild | ⟨path'', hparse'', y, hy⟩
      · exact ⟨(Path.escaped segment).toList, by rw [hchild, htext]⟩
      · obtain rfl := Except.ok.inj (hparse''.symm.trans hparse')
        have hprinted := Path.parse_fqoid (Path.printable_of_parse hparse)
        obtain ⟨seg, below, rfl⟩ := Path.parse_below hprinted hparse' htext
        refine ⟨(Path.segmentText seg).toList ++ (Path.fqoid below).toList ++ '/' :: y, ?_⟩
        rw [hy, Path.toList_fqoid, Path.toList_fqoid, List.flatMap_append, List.flatMap_cons,
          ← Path.toList_fqoid, ← Path.toList_fqoid below]
        simp

end Device

/-! ## Traversals end -/

theorem collect_ne_error {ι : Type} {body : ι → Except Stop (List Visit)} {why : Stop}
    (h : ∀ item, body item ≠ .error why) (items : List ι) : collect body items ≠ .error why := by
  induction items with
  | nil =>
    intro h
    cases h
  | cons item items ih =>
    rw [collect]
    apply bind_ne_error (h item)
    intro visits
    apply bind_ne_error ih
    intro rest h
    cases h

namespace Device

variable {d : Device} {s : d.State} {authz : Authorizer}

theorem length_le_of_getParam {path : List Segment} {param : Param d.State}
    (h : d.getParam s path authz = .ok param) : path.length ≤ d.params.height := by
  have hdescend := d.descend_of_focus ((d.getParam_ok_iff s path authz param).mp h).2
  cases path with
  | nil => cases hdescend
  | cons segment rest =>
    cases segment with
    | index i => cases hdescend
    | name oid =>
      obtain ⟨found, hfound, hrest⟩ := Option.bind_eq_some_iff.mp hdescend
      have htop := Fields.height_of_find hfound
      have hbelow := Ty.height_of_descend hrest
      have hpos := Ty.height_pos param.ty
      rw [List.length_cons]
      simp only at hbelow
      omega

theorem traverseChild_fueled {traverse : Param d.State → String → Except Stop (List Visit)}
    {text segment : String}
    (htraverse : ∀ path path' param, Path.parse text = .ok path →
      Path.parse (Path.fqoid path ++ "/" ++ Path.escaped segment) = .ok path' →
      d.getParam s path' authz = .ok param →
      traverse param (Path.fqoid path ++ "/" ++ Path.escaped segment) ≠ .error .outOfFuel) :
    d.traverseChild s authz traverse text segment ≠ .error .outOfFuel := by
  intro h
  rw [traverseChild] at h
  split at h
  · cases h
  · rename_i path hparse
    dsimp only at h
    split at h
    · cases h
    · rename_i param hparam
      obtain ⟨path', hparse', hget⟩ := getParamByOid_ok_iff.mp hparam
      split at h
      · exact htraverse path path' param hparse hparse' hget h
      · cases h

/-- The longer the path of the root, the less fuel a traversal needs. -/
theorem traverseParams_fueled {fuel : Nat} {param : Param d.State} {text : String}
    (hpos : 0 < fuel)
    (hfuel : ∀ path, Path.parse text = .ok path → d.params.height < fuel + path.length) :
    d.traverseParams s authz fuel param text ≠ .error .outOfFuel := by
  induction fuel generalizing param text with
  | zero => omega
  | succ fuel ih =>
    have hchild : ∀ segment, d.traverseChild s authz (d.traverseParams s authz fuel) text segment ≠
        .error .outOfFuel := by
      intro segment
      apply traverseChild_fueled
      intro path path' sub hparse hparse' hget
      have hlength := length_le_of_getParam hget
      have hlonger : path.length < path'.length := by
        have htext : (Path.fqoid path ++ "/" ++ Path.escaped segment).toList =
            (Path.fqoid path).toList ++ '/' :: (Path.escaped segment).toList := by
          rw [String.toList_append, String.toList_append, List.append_assoc]
          rfl
        have hprinted := Path.parse_fqoid (Path.printable_of_parse hparse)
        obtain ⟨seg, below, rfl⟩ := Path.parse_below hprinted hparse' htext
        rw [List.length_append, List.length_cons]
        omega
      have hroot := hfuel path hparse
      apply ih (by omega)
      intro path'' hparse''
      obtain rfl := Except.ok.inj (hparse'.symm.trans hparse'')
      omega
    rw [traverseParams]
    apply bind_ne_error (collect_ne_error (fun i => hchild (toString i)) _)
    intro elements
    apply bind_ne_error
    · apply collect_ne_error
      intro name
      split
      · intro h
        cases h
      · exact hchild name
    · intro children h
      cases h

theorem traverseParams_depth {param : Param d.State} {text : String} :
    d.traverseParams s authz d.depth param text ≠ .error .outOfFuel := by
  apply traverseParams_fueled (Nat.succ_pos _)
  intro path hpath
  exact Nat.lt_of_lt_of_le (Nat.lt_succ_self _) (Nat.le_add_right _ _)

end Device

/-! ## Texts that are not printed paths -/

namespace Path

theorem parse_solidus_end {x : List Char} {jptr : String} {path : List Segment}
    (h : parse jptr = .ok path) : jptr.toList ≠ x ++ ['/'] := by
  intro htext
  obtain ⟨rest, hbodies, hrest⟩ := parse_ok_iff.mp h
  rw [htext, bodies_append_solidus] at hbodies
  have hmem : [] ∈ rest := by
    cases hx : bodies x with
    | nil => exact absurd hx (bodies_ne_nil x)
    | cons b bs =>
      rw [hx, List.cons_append, List.cons.injEq] at hbodies
      rw [← hbodies.2]
      simp [bodies]
  have hnone : none ∈ rest.map bodySegment := List.mem_map.mpr ⟨[], hmem, rfl⟩
  rw [hrest] at hnone
  simp at hnone

theorem length_le_of_prefix {jptr next : String} {path path' : List Segment}
    (h : parse jptr = .ok path) (h' : parse next = .ok path') (hnext : jptr.toList <+: next.toList) :
    path.length ≤ path'.length := by
  obtain ⟨tail, htail⟩ := hnext
  cases tail with
  | nil =>
    rw [List.append_nil] at htail
    rw [String.toList_inj.mp htail, h'] at h
    exact Nat.le_of_eq (congrArg List.length (Except.ok.inj h).symm)
  | cons c y =>
    by_cases hc : c = '/'
    · obtain ⟨segment, below, rfl⟩ := parse_below h h' (by rw [← htail, hc])
      rw [List.length_append]
      omega
    · obtain ⟨init, segment, segment', below, rfl, rfl, -⟩ := parse_inside h h' htail.symm hc
      simp

/-- No other spelling of a path is the start of its printed form. -/
theorem not_prefix_fqoid {p : String} {path : List Segment} (h : parse p = .ok path)
    (hne : fqoid path ≠ p) : ¬p.toList <+: (fqoid path).toList := by
  intro hprefix
  have hprintable := printable_of_parse h
  have hprinted := parse_fqoid hprintable
  obtain ⟨tail, htail⟩ := hprefix
  cases tail with
  | nil =>
    rw [List.append_nil] at htail
    exact hne (String.toList_inj.mp htail.symm)
  | cons c z =>
    by_cases hc : c = '/'
    · obtain ⟨segment, below, hlonger⟩ := parse_below h hprinted (by rw [← htail, hc])
      simpa using congrArg List.length hlonger
    · obtain ⟨init, segment, segment', below, hlast, hlast', hzero⟩ :=
        parse_inside h hprinted htail.symm hc
      -- only a zero can be spelled longer, and its printed form is a single digit
      have hsame := List.append_cancel_left (hlast.symm.trans hlast')
      obtain rfl := hzero (List.cons.inj hsame).1
      have htext : (fqoid path).toList = ((fqoid init).toList ++ ['/']) ++ ['0'] := by
        rw [hlast, fqoid_append, String.toList_append, List.append_assoc]
        rfl
      have hshort : p.toList <+: ((fqoid init).toList ++ ['/']) ++ ['0'] := by
        rw [← htext]
        exact ⟨c :: z, htail⟩
      rcases List.prefix_concat_iff.mp hshort with hfull | hshort
      · rw [← htext] at hfull
        exact hne (String.toList_inj.mp hfull.symm)
      · rcases List.prefix_concat_iff.mp hshort with hsolidus | hshort
        · exact parse_solidus_end h hsolidus
        · have hinit : parse (fqoid init) = .ok init := by
            apply parse_fqoid
            intro seg hseg
            apply hprintable
            rw [hlast]
            exact List.mem_append_left _ hseg
          have hlength := length_le_of_prefix h hinit hshort
          rw [hlast, List.length_append, List.length_singleton] at hlength
          omega

/-- What is below a printed path does not start with another spelling of it. -/
theorem not_prefix_of_below {p x : String} {path : List Segment} (h : parse p = .ok path)
    (hne : fqoid path ≠ p) (hx : Below path x) : ¬p.toList <+: x.toList := by
  intro hprefix
  obtain ⟨y, hy⟩ := hx
  rw [hy] at hprefix
  rcases List.prefix_or_prefix_of_prefix hprefix (List.prefix_append (fqoid path).toList _) with
    hshort | ⟨tail, htail⟩
  · exact not_prefix_fqoid h hne hshort
  · rw [← htail] at hprefix
    cases tail with
    | nil =>
      rw [List.append_nil] at htail
      exact hne (String.toList_inj.mp htail)
    | cons c z =>
      rw [List.prefix_append_right_inj, List.cons_prefix_cons] at hprefix
      have hprinted := parse_fqoid (printable_of_parse h)
      obtain ⟨segment, below, hlonger⟩ := parse_below hprinted h (by rw [← htail, hprefix.1])
      simpa using congrArg List.length hlonger

end Path

/-! ## What a wildcard inserts -/

/-- The oid of a parameter that is no array element. -/
def Subscribable (x : String) : Prop := ∃ path, Path.parse x = .ok path ∧ Path.backIndex path = none

theorem mem_subscribe {visits : List Visit} {oids oids' : Finset String}
    (h : subscribe visits oids = .ok oids') {x : String} :
    x ∈ oids' ↔ x ∈ oids ∨ ∃ v ∈ visits, v.path = x ∧ Subscribable x := by
  induction visits generalizing oids with
  | nil =>
    obtain rfl := Except.ok.inj h
    simp
  | cons visit visits ih =>
    rw [subscribe] at h
    split at h
    · cases h
    · rename_i path hparse
      rw [ih h]
      simp only [List.mem_cons, exists_eq_or_imp]
      by_cases hback : (Path.backIndex path).isSome = true
      · have hno : ¬(visit.path = x ∧ Subscribable x) := by
          rintro ⟨rfl, path', hpath', hnone⟩
          obtain rfl := Except.ok.inj (hparse.symm.trans hpath')
          rw [hnone] at hback
          cases hback
        rw [if_pos hback]
        tauto
      · have hnone : Path.backIndex path = none := by simpa using hback
        rw [if_neg hback, Finset.mem_insert]
        constructor
        · rintro ((rfl | hx) | hx)
          · exact Or.inr (Or.inl ⟨rfl, path, hparse, hnone⟩)
          · exact Or.inl hx
          · exact Or.inr (Or.inr hx)
        · rintro (hx | ⟨rfl, -⟩ | hx)
          · exact Or.inl (Or.inr hx)
          · exact Or.inl (Or.inl rfl)
          · exact Or.inr hx

namespace Device

variable {d : Device} {s : d.State} {authz : Authorizer}

/-- The oids that the traversal from `p` finds to subscribe. -/
def Expands (d : Device) (s : d.State) (authz : Authorizer) (p x : String) : Prop :=
  ∃ param visits, d.getParamByOid s p authz = .ok param ∧
    d.traverseParams s authz d.depth param p = .ok visits ∧
    ∃ v ∈ visits, v.path = x ∧ Subscribable x

theorem Expands.cases {p x : String} (h : d.Expands s authz p x) :
    ∃ path, Path.parse p = .ok path ∧ (x = p ∨ Below path x) := by
  obtain ⟨param, visits, hparam, hvisits, v, hv, rfl, -⟩ := h
  obtain ⟨path, hparse, -⟩ := getParamByOid_ok_iff.mp hparam
  refine ⟨path, hparse, ?_⟩
  rcases path_of_mem_traverse hvisits hv with hroot | ⟨path', hparse', hbelow⟩
  · exact Or.inl hroot
  · obtain rfl := Except.ok.inj (hparse.symm.trans hparse')
    exact Or.inr hbelow

theorem mem_subscribeAll {params : List (Param d.State)} {oids oids' : Finset String}
    (h : d.subscribeAll s authz params oids = .ok oids') {x : String} :
    x ∈ oids' ↔ x ∈ oids ∨ ∃ param ∈ params, authz.readAuthz param.descriptor = true ∧
      ∃ visits, d.traverseParams s authz d.depth param ("/" ++ param.descriptor.getOid) =
          .ok visits ∧
        ∃ v ∈ visits, v.path = x ∧ Subscribable x := by
  induction params generalizing oids with
  | nil =>
    obtain rfl := Except.ok.inj h
    simp
  | cons param params ih =>
    rw [subscribeAll] at h
    simp only [List.mem_cons, exists_eq_or_imp]
    split at h
    · rename_i hread
      obtain ⟨visits, hvisits, h⟩ := bind_eq_ok_iff.mp h
      obtain ⟨oids₁, hoids₁, h⟩ := bind_eq_ok_iff.mp h
      rw [ih h, mem_subscribe hoids₁, or_assoc]
      apply or_congr_right
      apply or_congr_left
      constructor
      · intro hx
        exact ⟨hread, visits, hvisits, hx⟩
      · rintro ⟨-, visits', hvisits', hx⟩
        rwa [Except.ok.inj (hvisits.symm.trans hvisits')]
    · rename_i hread
      rw [ih h]
      simp [hread]

end Device

namespace SubscriptionManager

variable {m m' : SubscriptionManager} {d : Device} {s : d.State} {authz : Authorizer} {p : String}
  {rc : ExceptionWithStatus}

theorem append_wildcard_ne (hp : p ≠ "") : p ++ "/*" ≠ "/*" := by
  intro h
  have hlist := congrArg String.toList h
  rw [String.toList_append] at hlist
  have hnil := List.append_left_eq_self.mp hlist
  exact hp (String.toList_inj.mp hnil)

/-- Adding `p/*` inserts the oids that the traversal from `p` finds. -/
theorem mem_addSubscription (hp : p ≠ "")
    (h : m.addSubscription (p ++ "/*") d s authz = .ok (rc, m')) :
    (∃ oids, m' = m.put d.slot oids) ∧
      ∀ x, x ∈ m'.subscriptions d.slot ↔ x ∈ m.subscriptions d.slot ∨ d.Expands s authz p x := by
  rw [addSubscription] at h
  simp only [isWildcard_append, Bool.not_true, Bool.false_eq_true, if_false, if_true,
    baseOf_append, append_wildcard_ne hp, ne_eq, not_false_eq_true] at h
  split at h
  · rename_i hparam
    obtain ⟨rfl, rfl⟩ := Prod.mk.inj (Except.ok.inj h)
    refine ⟨⟨m.subscriptions d.slot, (put_subscriptions m d.slot).symm⟩, ?_⟩
    intro x
    constructor
    · exact Or.inl
    · rintro (hx | ⟨param, visits, hparam', -⟩)
      · exact hx
      · rw [hparam] at hparam'
        cases hparam'
  · rename_i param hparam
    obtain ⟨visits, hvisits, h⟩ := bind_eq_ok_iff.mp h
    obtain ⟨oids, hoids, h⟩ := bind_eq_ok_iff.mp h
    obtain ⟨rfl, rfl⟩ := Prod.mk.inj (Except.ok.inj h)
    refine ⟨⟨oids, rfl⟩, ?_⟩
    intro x
    rw [subscriptions_put_self, mem_subscribe hoids]
    apply or_congr_right
    constructor
    · intro hx
      exact ⟨param, visits, hparam, hvisits, hx⟩
    · rintro ⟨param', visits', hparam', hvisits', hx⟩
      obtain rfl := Except.ok.inj (hparam.symm.trans hparam')
      rwa [Except.ok.inj (hvisits.symm.trans hvisits')]

/-- Adding the wildcard for everything inserts oids that start with a solidus. -/
theorem mem_addSubscription_all (h : m.addSubscription "/*" d s authz = .ok (rc, m')) :
    ∃ oids, m' = m.put d.slot oids ∧ m.subscriptions d.slot ⊆ oids ∧
      ∀ x ∈ oids, x ∈ m.subscriptions d.slot ∨ AtOrBelow "" x := by
  rw [addSubscription] at h
  simp only [show isWildcard "/*" = true from rfl, Bool.not_true, Bool.false_eq_true, if_false,
    ne_eq, not_true_eq_false] at h
  split at h
  · cases h
  · rename_i allParams hparams
    obtain ⟨oids, hoids, h⟩ := bind_eq_ok_iff.mp h
    obtain ⟨rfl, rfl⟩ := Prod.mk.inj (Except.ok.inj h)
    refine ⟨oids, rfl, ?_, ?_⟩
    · intro x hx
      exact (Device.mem_subscribeAll hoids).mpr (Or.inl hx)
    · intro x hx
      rcases (Device.mem_subscribeAll hoids).mp hx with hx | ⟨param, -, -, visits, hvisits, hx⟩
      · exact Or.inl hx
      · obtain ⟨v, hv, rfl, -⟩ := hx
        right
        right
        rcases Device.path_of_mem_traverse hvisits hv with hroot | ⟨path, -, y, hy⟩
        · rw [hroot]
          exact ⟨param.descriptor.getOid.toList, by simp⟩
        · rw [hy]
          cases path with
          | nil => exact ⟨y, rfl⟩
          | cons segment path =>
            rw [Path.toList_fqoid, List.flatMap_cons]
            exact ⟨_, rfl⟩

theorem atOrBelow_of_canonical {path : List Segment} {x : String} (hp : Path.Canonical p path)
    (hx : x = p ∨ Below path x) : AtOrBelow p x := by
  rcases hx with rfl | ⟨y, hy⟩
  · exact Or.inl rfl
  · rw [hp.2] at hy
    refine Or.inr ⟨y, ?_⟩
    rw [hy, String.toList_append, List.append_assoc]
    rfl

/-- What adding `p/*` leaves: from a printed path only oids at and below it are inserted. -/
theorem addSubscription_wildcard (h : m.addSubscription (p ++ "/*") d s authz = .ok (rc, m')) :
    ∃ oids, m' = m.put d.slot oids ∧ m.subscriptions d.slot ⊆ oids ∧
      ((∃ path, Path.Canonical p path) →
        ∀ x ∈ oids, x ∈ m.subscriptions d.slot ∨ AtOrBelow p x) ∧
      ((¬∃ path, Path.Canonical p path) →
        ∀ x, x ∈ oids ↔ x ∈ m.subscriptions d.slot ∨ d.Expands s authz p x) := by
  by_cases hp : p = ""
  · obtain ⟨oids, hoids, hsub, hnew⟩ := mem_addSubscription_all (hp ▸ h)
    refine ⟨oids, hoids, hsub, fun _ => hp ▸ hnew, ?_⟩
    intro hnot
    exact absurd ⟨[], by rw [hp]; exact ⟨rfl, rfl⟩⟩ hnot
  · obtain ⟨⟨oids, rfl⟩, hmem⟩ := mem_addSubscription hp h
    rw [subscriptions_put_self] at hmem
    refine ⟨oids, rfl, fun x hx => (hmem x).mpr (Or.inl hx), ?_, fun _ => hmem⟩
    rintro ⟨path, hpath⟩ x hx
    apply ((hmem x).mp hx).imp_right
    intro hexpands
    obtain ⟨path', hparse, hcases⟩ := hexpands.cases
    obtain rfl := Except.ok.inj (hpath.1.symm.trans hparse)
    exact atOrBelow_of_canonical hpath hcases

/-- The manager is restored exactly if the scan finds what was added, and nothing older. -/
theorem restored_iff {oids : Finset String} (hsub : m.subscriptions d.slot ⊆ oids)
    (hnone : ∀ x ∈ m.subscriptions d.slot, ¬AtOrBelow p x) :
    ((m.put d.slot oids).removeSubscription (p ++ "/*") d.slot).2 = m ↔
      (∀ x ∈ m.subscriptions d.slot, ¬Continues p x) ∧
      ∀ x ∈ oids, x ∉ m.subscriptions d.slot → startsWith x p = true := by
  rw [removeSubscription_wildcard, put_put, subscriptions_put_self]
  constructor
  · intro h
    have hkept : (oids.filter fun x => !startsWith x p) = m.subscriptions d.slot := by
      rw [← subscriptions_put_self m d.slot (oids.filter fun x => !startsWith x p), h]
    constructor
    · intro x hx hcontinues
      rw [← hkept, Finset.mem_filter, Bool.not_eq_true', ← Bool.not_eq_true, startsWith_iff] at hx
      exact hx.2 (Or.inr hcontinues)
    · intro x hx hnew
      rw [← hkept, Finset.mem_filter, not_and, Bool.not_eq_true', Bool.not_eq_false] at hnew
      exact hnew hx
  · rintro ⟨hold, hnew⟩
    have hkept : (oids.filter fun x => !startsWith x p) = m.subscriptions d.slot := by
      ext x
      rw [Finset.mem_filter, Bool.not_eq_true', ← Bool.not_eq_true, startsWith_iff]
      constructor
      · rintro ⟨hx, hstart⟩
        by_contra hnot
        exact hstart (startsWith_iff.mp (hnew x hx hnot))
      · intro hx
        exact ⟨hsub hx, fun hstart => hstart.elim (hnone x hx) (hold x hx)⟩
    rw [hkept, put_subscriptions]

/-- Removing `p/*` right after it was added to a set with no oid at or below `p` restores the
set, if no subscribed oid goes on inside the last name of `p`, and `p` is spelled as it is
printed or leads to nothing else that is not subscribed yet. -/
theorem restores_iff (h : m.addSubscription (p ++ "/*") d s authz = .ok (rc, m'))
    (hnone : ∀ x ∈ m.subscriptions d.slot, ¬AtOrBelow p x) :
    (m'.removeSubscription (p ++ "/*") d.slot).2 = m ↔
      (∀ x ∈ m.subscriptions d.slot, ¬Continues p x) ∧
      ((∃ path, Path.Canonical p path) ∨
        ∀ x, d.Expands s authz p x → x = p ∨ x ∈ m.subscriptions d.slot) := by
  obtain ⟨oids, rfl, hsub, hcanonical, hspelled⟩ := addSubscription_wildcard h
  rw [restored_iff hsub hnone]
  apply and_congr_right
  intro hold
  by_cases hp : ∃ path, Path.Canonical p path
  · simp only [hp, true_or, iff_true]
    intro x hx hnew
    exact startsWith_iff.mpr (Or.inl ((hcanonical hp x hx).resolve_left hnew))
  · simp only [hp, false_or]
    constructor
    · intro hstart x hexpands
      by_contra hnot
      rw [not_or] at hnot
      have hx := hstart x ((hspelled hp x).mpr (Or.inr hexpands)) hnot.2
      obtain ⟨path, hparse, hcases⟩ := hexpands.cases
      rw [startsWith, List.isPrefixOf_iff_prefix] at hx
      have hne : Path.fqoid path ≠ p := fun heq => hp ⟨path, hparse, heq⟩
      exact Path.not_prefix_of_below hparse hne (hcases.resolve_left hnot.1) hx
    · intro hall x hx hnew
      rcases (hspelled hp x).mp hx with hx | hx
      · exact absurd hx hnew
      · rcases hall x hx with rfl | hx
        · exact startsWith_iff.mpr (Or.inl (Or.inl rfl))
        · exact absurd hx hnew

theorem subscribe_fueled {visits : List Visit} {oids : Finset String} :
    subscribe visits oids ≠ .error .outOfFuel := by
  induction visits generalizing oids with
  | nil => exact fun h => nomatch h
  | cons visit visits ih =>
    rw [subscribe]
    split
    · exact fun h => nomatch h
    · exact ih

theorem subscribeAll_fueled {params : List (Param d.State)} {oids : Finset String} :
    d.subscribeAll s authz params oids ≠ .error .outOfFuel := by
  induction params generalizing oids with
  | nil => exact fun h => nomatch h
  | cons param params ih =>
    rw [Device.subscribeAll]
    split
    · apply bind_ne_error Device.traverseParams_depth
      intro visits
      apply bind_ne_error subscribe_fueled
      exact fun oids => ih
    · exact ih

/-- The depth that is allowed to the traversals is never used up. -/
theorem addSubscription_fueled (m : SubscriptionManager) (oid : String) (d : Device)
    (s : d.State) (authz : Authorizer) :
    m.addSubscription oid d s authz ≠ .error .outOfFuel := by
  rw [addSubscription]
  cases isWildcard oid with
  | false =>
    simp only [Bool.not_false, if_true, Bool.false_eq_true, if_false]
    split
    · exact fun h => nomatch h
    · cases d.getParamByOid s oid authz <;> exact fun h => nomatch h
  | true =>
    simp only [Bool.not_true, Bool.false_eq_true, if_false, if_true]
    split
    · cases d.getParamByOid s (baseOf oid) authz with
      | error rc => exact fun h => nomatch h
      | ok param =>
        apply bind_ne_error Device.traverseParams_depth
        intro visits
        apply bind_ne_error subscribe_fueled
        exact fun oids h => nomatch h
    · split
      · exact fun h => nomatch h
      · apply bind_ne_error subscribeAll_fueled
        exact fun oids h => nomatch h

/-- Removing `p/*` removes exactly what is at and below `p` just when no subscribed oid goes on
inside the last name of `p`; and it undoes the addition of `p/*` just when, besides, `p` is
spelled as it is printed or leads to nothing else that is not subscribed yet. -/
theorem removeSubscription_exact_iff (m : SubscriptionManager) (p : String) :
    (∀ slot : Nat, m.RemovesSubtree slot p ↔ ∀ x ∈ m.subscriptions slot, ¬Continues p x) ∧
    (∀ (m' : SubscriptionManager) (d : Device) (s : d.State) (authz : Authorizer)
      (rc : ExceptionWithStatus), m.addSubscription (p ++ "/*") d s authz = .ok (rc, m') →
      (∀ x ∈ m.subscriptions d.slot, ¬AtOrBelow p x) →
      ((m'.removeSubscription (p ++ "/*") d.slot).2 = m ↔
        (∀ x ∈ m.subscriptions d.slot, ¬Continues p x) ∧
        ((∃ path, Path.Canonical p path) ∨
          ∀ x, d.Expands s authz p x → x = p ∨ x ∈ m.subscriptions d.slot))) :=
  ⟨fun slot => removesSubtree_iff m slot p, fun _ _ _ _ _ h hnone => restores_iff h hnone⟩

end SubscriptionManager

/-- A device with a struct and an INT32 param, the name of which continues that of the struct. -/
def testDevice : Device where
  defaults := { defaultScope := "st2138:op" }
  params := .cons "test" { oid := "test" }
      (.elem (.struct (.cons "param1" { oid := "param1" } (.elem .int32) .nil)))
    (.cons "test2" { oid := "test2" } (.elem .int32) .nil)
  wellFormed := ⟨by simp [Fields.names], ⟨List.not_mem_nil, trivial, trivial⟩,
    List.not_mem_nil, trivial, trivial⟩

namespace SubscriptionManager

def noSubscriptions : SubscriptionManager := ⟨fun _ => ∅⟩

/-- `/test2` is no longer subscribed after `/test/*` is removed. -/
theorem sibling_removed :
    noSubscriptions.addSubscription "/test2" testDevice
        (((0, ()), 0, ()) : (Int32 × Unit) × Int32 × Unit) .kAuthzDisabled =
      .ok (ok, noSubscriptions.put 0 {"/test2"}) ∧
    ¬AtOrBelow "/test" "/test2" ∧
    "/test2" ∉ ((noSubscriptions.put 0 {"/test2"}).removeSubscription
      ("/test" ++ "/*") 0).2.subscriptions 0 ∧
    ¬(noSubscriptions.put 0 {"/test2"}).RemovesSubtree 0 "/test" := by
  have hcontinues : Continues "/test" "/test2" := ⟨'2', [], by decide, rfl⟩
  refine ⟨rfl, not_atOrBelow_of_continues hcontinues, ?_, ?_⟩
  · intro hmem
    exact (mem_removeSubscription_wildcard.mp hmem).2.2 hcontinues
  · rw [removesSubtree_iff]
    intro h
    exact h "/test2" (by simp) hcontinues

/-- `/test2/*` is added to an empty set and removed again. -/
theorem removeSubscription_exact_iff_test :
    noSubscriptions.addSubscription ("/test2" ++ "/*") testDevice
        (((0, ()), 0, ()) : (Int32 × Unit) × Int32 × Unit) .kAuthzDisabled =
      .ok (ok, noSubscriptions.put 0 {"/test2"}) ∧
    (((noSubscriptions.put 0 {"/test2"}).removeSubscription ("/test2" ++ "/*") 0).2 =
        noSubscriptions ↔
      (∀ x ∈ noSubscriptions.subscriptions 0, ¬Continues "/test2" x) ∧
      ((∃ path, Path.Canonical "/test2" path) ∨
        ∀ x, testDevice.Expands (((0, ()), 0, ()) : (Int32 × Unit) × Int32 × Unit)
          .kAuthzDisabled "/test2" x → x = "/test2" ∨ x ∈ noSubscriptions.subscriptions 0)) := by
  have hadd : noSubscriptions.addSubscription ("/test2" ++ "/*") testDevice
        (((0, ()), 0, ()) : (Int32 × Unit) × Int32 × Unit) .kAuthzDisabled =
      .ok (ok, noSubscriptions.put 0 {"/test2"}) := rfl
  refine ⟨hadd, ?_⟩
  exact (removeSubscription_exact_iff _ _).2 _ testDevice _ _ _ hadd fun x hx => nomatch hx

end SubscriptionManager

end Catena.Store
