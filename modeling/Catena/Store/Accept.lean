import Catena.Store.Commit

/-!
# What a validated multi-set is known to satisfy

`tryMultiSetValue` looks at one entry at a time, at the store as it is before the commit. The
cases of `Accepted` are what it has established for an entry when it returns true. The case
`noIndex` is the index that stands for no index written out as a number: the value is then
validated against the parent of the node it addresses.
-/

namespace Catena.Store

open ExceptionWithStatus (ok)

/-- The segments of the oid; `[]` if it is not a path. -/
def SetValuePayload.path (payload : SetValuePayload) : List Segment :=
  match Path.parse payload.oid with
  | .ok path => path
  | .error _ => []

/-- What has been established for an entry that passed its validation. -/
inductive Accepted (d : Device) (s : d.State) (authz : Authorizer) (path : List Segment)
    (src : Value) : Prop where
  | whole (n : Node) (hindex : Path.backIndex path = none)
      (hread : d.ReadableAlong authz path) (hnode : d.nodeAt s path = some n)
      (hvalid : (validFromProto authz n.ty n.descriptor src).isOk = true)
      (hsize : src.size ≤ n.descriptor.maxLength)
  | element (i : Nat) (e : ElemTy) (pd : ParamDescriptor) (v : List e.Val)
      (hindex : Path.backIndex path = some i) (hend : i ≠ Path.kEnd)
      (hnone : i ≠ Path.kNone) (hread : d.ReadableAlong authz (Path.popBack path))
      (hnode : d.nodeAt s (Path.popBack path) = some ⟨.vector e, pd, v⟩) (hi : i < v.length)
      (hvalid : (validFromProtoElem authz e pd src).isOk = true)
      (hmax : v.length ≤ pd.maxLength)
      (htotal : ((v.map e.size).set i src.size).sum ≤ pd.totalLength)
  | append (e : ElemTy) (pd : ParamDescriptor) (v : List e.Val)
      (hindex : Path.backIndex path = some Path.kEnd)
      (hread : d.ReadableAlong authz (Path.popBack path))
      (hnode : d.nodeAt s (Path.popBack path) = some ⟨.vector e, pd, v⟩)
      (hvalid : (validFromProtoElem authz e pd src).isOk = true)
      (hmax : v.length + 1 ≤ pd.maxLength)
      (htotal : (v.map e.size ++ [src.size]).sum ≤ pd.totalLength)
  | noIndex (n : Node) (hindex : Path.backIndex path = some Path.kNone)
      (hread : d.ReadableAlong authz (Path.popBack path))
      (hnode : d.nodeAt s (Path.popBack path) = some n)
      (hvalid : (validFromProto authz n.ty n.descriptor src).isOk = true)

/-- The array stays within its limits when the value is appended or set at the index. -/
def ElementFits (pd : ParamDescriptor) (e : ElemTy) (v : List e.Val) (src : Value)
    (index : Nat) : Prop :=
  (index = Path.kEnd ∧ v.length + 1 ≤ pd.maxLength ∧
    (v.map e.size ++ [src.size]).sum ≤ pd.totalLength) ∨
  (index ≠ Path.kEnd ∧ index < v.length ∧ v.length ≤ pd.maxLength ∧
    ((v.map e.size).set index src.size).sum ≤ pd.totalLength)

theorem Path.kEnd_ne_kNone : Path.kEnd ≠ Path.kNone := by decide

namespace Param

variable {R : Type} (authz : Authorizer)

theorem validateSetWhole_ok {p : Param R} {src : Value} {index : Nat}
    (h : (p.validateSetWhole authz src index).1.isOk = true) :
    index = Path.kNone ∧ (validFromProto authz p.ty p.descriptor src).isOk = true ∧
      src.size ≤ p.descriptor.maxLength := by
  by_cases hi : index = Path.kNone
  · by_cases hv : (validFromProto authz p.ty p.descriptor src).isOk = true
    · refine ⟨hi, hv, ?_⟩
      by_contra hsize
      simp [validateSetWhole, hi, hv, Nat.lt_of_not_le hsize] at h
    · simp [validateSetWhole, hi, hv] at h
  · simp [validateSetWhole, hi] at h

/-- The checks on an element, when no earlier call has left a tracker. -/
theorem validateSetElem_ok {p : Param R} {e : ElemTy} {v : List e.Val} {src : Value}
    {index : Nat} (hm : p.mSizeTracker = none) (ht : p.tSizeTracker = none)
    (h : (p.validateSetElem authz e v src index).1.isOk = true) :
    index ≠ Path.kNone ∧ (validFromProtoElem authz e p.descriptor src).isOk = true ∧
      ElementFits p.descriptor e v src index := by
  by_cases hnone : index = Path.kNone
  · simp [validateSetElem, hnone] at h
  by_cases hend : index = Path.kEnd
  · simp only [validateSetElem, hm, ht, Option.getD_none, hend, ne_eq, not_true_eq_false,
      false_and, if_false, if_true, Path.kEnd_ne_kNone] at h
    split at h
    case isFalse hv => exact absurd h hv
    rename_i hv
    split at h
    · simp at h
    rename_i hmax
    split at h
    · simp at h
    rename_i htotal
    exact ⟨hnone, hv, .inl ⟨hend, Nat.le_of_not_lt hmax, Nat.le_of_not_lt htotal⟩⟩
  · simp only [validateSetElem, hm, ht, Option.getD_none, hnone, hend, ne_eq, not_false_eq_true,
      true_and, if_false] at h
    split at h
    · simp at h
    rename_i hbound
    split at h
    case isFalse hv => exact absurd h hv
    rename_i hv
    split at h
    · simp at h
    rename_i hmax
    split at h
    · simp at h
    rename_i htotal
    exact ⟨hnone, hv, .inr ⟨hend, Nat.lt_of_not_le hbound, Nat.le_of_not_lt hmax,
      Nat.le_of_not_lt htotal⟩⟩

/-- A validated value is either a whole value without an index or an element of an array. -/
theorem validateSetValue_ok {p : Param R} {src : Value} {index : Nat}
    (hm : p.mSizeTracker = none) (ht : p.tSizeTracker = none)
    (h : (p.validateSetValue authz src index).1.isOk = true) :
    (index = Path.kNone ∧ (validFromProto authz p.ty p.descriptor src).isOk = true ∧
      src.size ≤ p.descriptor.maxLength) ∨
    (index ≠ Path.kNone ∧ ∃ (e : ElemTy) (v : List e.Val), p.node = ⟨.vector e, p.descriptor, v⟩ ∧
      (validFromProtoElem authz e p.descriptor src).isOk = true ∧
      ElementFits p.descriptor e v src index) := by
  have hwhole (hw : (p.validateSetWhole authz src index).1.isOk = true) :=
    validateSetWhole_ok authz hw
  obtain ⟨ty, pd, value, assign, mSize, tSize⟩ := p
  cases ty with
  | vector e =>
    change List e.Val at value
    have helem (he : (Param.validateSetElem authz ⟨.vector e, pd, value, assign, mSize, tSize⟩ e
        value src index).1.isOk = true) := validateSetElem_ok authz hm ht he
    cases src <;> first
      | exact .inl (hwhole h)
      | exact .inr ⟨(helem h).1, e, value, rfl, (helem h).2⟩
      | simp [validateSetValue] at h
  | empty type subParams =>
    cases src <;> first
      | exact .inl (hwhole h)
      | simp [validateSetValue] at h
  | elem e =>
    cases src <;> first
      | exact .inl (hwhole h)
      | simp [validateSetValue] at h

end Param

/-! An exception that carries a status never carries the OK status. -/

theorem Path.segmentsOf_error {ms : List Path.Match} {why : Thrown}
    (h : Path.segmentsOf ms = .error why) : why = .outOfRange := by
  induction ms with
  | nil => cases h
  | cons m ms ih =>
    simp only [Path.segmentsOf] at h
    cases hm : Path.segmentOf m with
    | error why' =>
      have hwhy : why' = .outOfRange := by
        cases m with
        | oid text => cases hm
        | last => cases hm
        | idx digits =>
          simp only [Path.segmentOf, Path.stoul] at hm
          split at hm
          · cases hm
          · exact (Except.error.inj hm).symm
      rw [hm] at h
      exact (Except.error.inj h).symm.trans hwhy
    | ok segment =>
      rw [hm] at h
      cases hms : Path.segmentsOf ms with
      | error why' =>
        rw [hms] at h
        exact ih (hms.trans (congrArg Except.error (Except.error.inj h)))
      | ok segments =>
        rw [hms] at h
        cases h

theorem Path.parse_error {jptr : String} {why : ExceptionWithStatus}
    (h : Path.parse jptr = .error (.withStatus why)) : why.isOk = false := by
  simp only [Path.parse] at h
  split at h
  · split at h
    · cases Path.segmentsOf_error h
    · cases h
      rfl
  · cases h
    rfl

theorem getParam_error {R : Type} (authz : Authorizer) (fqoid : String) (path : List Segment)
    (t : Ty) (pd : ParamDescriptor) (v : t.Val) (f : t.Val → R) (why : ExceptionWithStatus)
    (h : getParam authz fqoid path t pd v f = .error why) : why.isOk = false := by
  induction path generalizing t pd v f with
  | nil =>
    simp only [getParam] at h
    split at h
    · split at h <;> cases h <;> rfl
    · cases h
      rfl
  | cons segment rest ih =>
    simp only [getParam] at h
    split at h
    · cases t with
      | empty type subParams =>
        repeat' split at h
        all_goals first
          | exact ih _ _ _ _ h
          | (cases h; rfl)
          | cases h
      | vector e =>
        repeat' split at h
        all_goals first
          | exact ih _ _ _ _ h
          | (cases h; rfl)
          | cases h
      | elem e =>
        cases e <;> simp only at h <;> repeat' split at h
        all_goals first
          | exact ih _ _ _ _ h
          | (cases h; rfl)
          | cases h
    · cases h
      rfl

namespace Device

variable (d : Device)

theorem trackers_of_focus {s : d.State} {path : List Segment} {p : Param d.State}
    (h : d.focus s path = some p) : p.mSizeTracker = none ∧ p.tSizeTracker = none := by
  cases path with
  | nil => cases h
  | cons segment rest =>
    cases segment with
    | index i => cases h
    | name oid =>
      obtain ⟨member, _, hrest⟩ := Option.bind_eq_some_iff.mp h
      obtain ⟨q, _, rfl⟩ := Option.map_eq_some_iff.mp hrest
      exact ⟨rfl, rfl⟩

theorem accepted_of_validateSetValue {s : d.State} {authz : Authorizer} {path : List Segment}
    {src : Value} {p : Param d.State}
    (hget : d.getParam s (if (Path.backIndex path).isSome then Path.popBack path else path) authz =
      .ok p)
    (h : (p.validateSetValue authz src ((Path.backIndex path).getD Path.kNone)).1.isOk = true) :
    Accepted d s authz path src := by
  obtain ⟨hread, hfocus⟩ := (d.getParam_ok_iff s _ authz p).mp hget
  obtain ⟨hm, ht⟩ := d.trackers_of_focus hfocus
  have hnode := congrArg (Option.map Param.node) hfocus
  have hok := Param.validateSetValue_ok authz hm ht h
  cases hb : Path.backIndex path with
  | none =>
    simp only [hb, Option.isSome_none, Bool.false_eq_true, if_false, Option.getD_none] at hread hnode hok
    obtain ⟨_, hvalid, hsize⟩ | ⟨hne, _⟩ := hok
    · exact .whole p.node hb hread hnode hvalid hsize
    · exact absurd rfl hne
  | some i =>
    simp only [hb, Option.isSome_some, if_true, Option.getD_some] at hread hnode hok
    obtain ⟨rfl, hvalid, _⟩ | ⟨hne, e, v, hp, hvalid, hfits⟩ := hok
    · exact .noIndex p.node hb hread hnode hvalid
    · replace hnode := hnode.trans (congrArg some hp)
      obtain ⟨rfl, hmax, htotal⟩ | ⟨hend, hi, hmax, htotal⟩ := hfits
      · exact .append e p.descriptor v hb hread hnode hvalid hmax htotal
      · exact .element i e p.descriptor v hb hend hne hread hnode hi hvalid hmax htotal

theorem getParam_error {s : d.State} {path : List Segment} {authz : Authorizer}
    {why : ExceptionWithStatus} (h : d.getParam s path authz = .error why) : why.isOk = false := by
  simp only [getParam] at h
  split at h
  · split at h
    · cases h
      rfl
    · split at h
      · cases h
        rfl
      · split at h
        · cases h
        · exact Store.getParam_error authz _ _ _ _ _ _ _ h
  · cases h
    rfl

theorem tryLoop_of_not_ok {s : d.State} {authz : Authorizer} (payloads : List SetValuePayload)
    (ans ans' : ExceptionWithStatus) (oids oids' : List String) (hans : ans.isOk = false)
    (h : d.tryLoop s authz payloads ans oids = .ok (ans', oids')) : ans'.isOk = false := by
  induction payloads generalizing ans oids with
  | nil =>
    simp only [tryLoop, Except.ok.injEq, Prod.mk.injEq] at h
    exact h.1 ▸ hans
  | cons payload payloads ih =>
    simp only [tryLoop] at h
    split at h
    · exact ih _ _ rfl h
    · rw [hans] at h
      exact ih _ _ hans h

/-- Every entry of a loop that ends with an OK status has been accepted. -/
theorem accepted_of_tryLoop {s : d.State} {authz : Authorizer} (payloads : List SetValuePayload)
    (ans ans' : ExceptionWithStatus) (oids oids' : List String)
    (h : d.tryLoop s authz payloads ans oids = .ok (ans', oids')) (hok : ans'.isOk = true) :
    ∀ payload ∈ payloads, Path.parse payload.oid = .ok payload.path ∧
      Accepted d s authz payload.path payload.value := by
  induction payloads generalizing ans oids with
  | nil => simp
  | cons payload payloads ih =>
    simp only [tryLoop] at h
    split at h
    · have hno := d.tryLoop_of_not_ok _ _ _ _ _ rfl h
      rw [hno] at hok
      cases hok
    · by_cases hans : ans.isOk = true
      · simp only [hans, Bool.not_true, Bool.false_eq_true, if_false] at h
        split at h
        · rename_i why hparse
          obtain ⟨rfl, _⟩ : why = ans' ∧ _ := by simpa using h
          rw [Path.parse_error hparse] at hok
          cases hok
        · cases h
        · rename_i path hparse
          have hpath : payload.path = path := by simp [SetValuePayload.path, hparse]
          split at h
          · rename_i why hget
            obtain ⟨rfl, _⟩ : why = ans' ∧ _ := by simpa using h
            rw [d.getParam_error hget] at hok
            cases hok
          · rename_i param hget
            split at h
            · rename_i hvalid
              refine List.forall_mem_cons.mpr ⟨⟨hpath ▸ hparse, hpath ▸ ?_⟩, ih _ _ h⟩
              exact d.accepted_of_validateSetValue hget hvalid
            · rename_i hvalid
              obtain ⟨hans', _⟩ : _ = ans' ∧ _ := by simpa using h
              exact absurd hok (hans' ▸ hvalid)
      · simp only [hans, Bool.not_false, if_true] at h
        have hno := d.tryLoop_of_not_ok _ _ _ _ _ (Bool.not_eq_true _ ▸ hans) h
        rw [hno] at hok
        cases hok

/-- Every entry of a multi-set that `tryMultiSetValue` lets through has been accepted. -/
theorem accepted_of_try {s : d.State} {authz : Authorizer} {src : List SetValuePayload}
    {ans : ExceptionWithStatus} (h : d.tryMultiSetValue s src authz = .ok ans)
    (hok : ans.isOk = true) : ∀ payload ∈ src, Path.parse payload.oid = .ok payload.path ∧
      Accepted d s authz payload.path payload.value := by
  simp only [tryMultiSetValue] at h
  split at h
  · cases h
    cases hok
  · split at h
    · cases h
    · rename_i ans' oids hloop
      split at h
      · cases h
      · obtain rfl := Except.ok.inj h
        exact d.accepted_of_tryLoop src ok ans' [] oids hloop hok

end Device

end Catena.Store
