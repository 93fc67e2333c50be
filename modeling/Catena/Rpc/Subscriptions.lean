import Catena.Store.ParamProto
import Catena.Store.ReadFrame

/-!
# Listing subscriptions

The gRPC front end lists the subscribed parameters in the write phase of `UpdateSubscriptions`,
a state machine that is called again after every message; the REST front end lists them in one
loop. Both serialize with the client's authorizer, but only REST looks the oid up with it. So
gRPC also lists a parameter below one that the client may not read, and a parameter without a
value that the client may not read.
-/

namespace Catena.Rpc

open Store

/-- A message to the client, with the subscribed oid it is about. -/
structure Listed where
  subscribed : String
  res : ComponentParam

/-- The states of `UpdateSubscriptions` from the write phase on. -/
inductive CallStatus where
  | kWrite
  | kPostWrite
  | kFinish
  deriving DecidableEq, Repr

/-- `UpdateSubscriptions`: the oids from `it_` on, and what has been sent. -/
structure UpdateSubscriptions where
  it : List String
  status : CallStatus := .kWrite
  writes : List Listed := []

theorem getParamByOid_error {d : Device} {s : d.State} {oid : String} {authz : Authorizer}
    {why : ExceptionWithStatus} (h : d.getParamByOid s oid authz = .error why) :
    why.isOk = false := by
  simp only [Device.getParamByOid] at h
  split at h
  · rename_i hparse
    obtain rfl := Except.error.inj h
    exact Path.parse_error hparse
  · obtain rfl := Except.error.inj h
    rfl
  · exact d.getParam_error h

section

variable (d : Device) (s : d.State) (authz : Authorizer)

/-- The loop of `kWrite`: the first message to send, and the oids after it. The oid is looked up
with the default authorizer. -/
def nextParam : List String → Option Listed × List String
  | [] => (none, [])
  | oid :: it =>
      match d.getParamByOid s oid .kAuthzDisabled with
      | .error _ => nextParam it
      | .ok param =>
          let written := param.toProtoParam authz
          if written.1.isOk then (some ⟨oid, param.descriptor.getOid, written.2⟩, it)
          else nextParam it

def UpdateSubscriptions.postWrite (call : UpdateSubscriptions) : UpdateSubscriptions :=
  { call with status := .kFinish }

/-- `UpdateSubscriptions::proceed`. Without a message to send, the write phase falls through. -/
def UpdateSubscriptions.proceed (call : UpdateSubscriptions) : UpdateSubscriptions :=
  match call.status with
  | .kWrite =>
      match nextParam d s authz call.it with
      | (some listed, it) => { call with it, writes := call.writes ++ [listed] }
      | (none, it) => { call with it, status := .kPostWrite }.postWrite
  | .kPostWrite => call.postWrite
  | .kFinish => call

/-- `GET /subscriptions`. A message is sent whenever the status is OK. -/
def getSubscriptions : List String → List Listed
  | [] => []
  | oid :: oids =>
      let (supressErr, res) : ExceptionWithStatus × ComponentParam :=
        match d.getParamByOid s oid authz with
        | .error why => (why, ⟨"", .ofValue .kindNotSet⟩)
        | .ok param =>
            let written := param.toProtoParam authz
            (written.1, ⟨param.descriptor.getOid, written.2⟩)
      if supressErr.isOk then ⟨oid, res⟩ :: getSubscriptions oids else getSubscriptions oids

/-- The message for an oid that is looked up with `lookupAuthz` and serialized with `authz`. -/
def listing (lookupAuthz : Authorizer) (oid : String) : Option Listed :=
  match d.getParamByOid s oid lookupAuthz with
  | .error _ => none
  | .ok param =>
      let written := param.toProtoParam authz
      if written.1.isOk then some ⟨oid, param.descriptor.getOid, written.2⟩ else none

theorem nextParam_cons (oid : String) (it : List String) :
    nextParam d s authz (oid :: it) =
      match listing d s authz .kAuthzDisabled oid with
      | some listed => (some listed, it)
      | none => nextParam d s authz it := by
  simp only [nextParam, listing]
  cases d.getParamByOid s oid .kAuthzDisabled with
  | error why => rfl
  | ok param =>
    simp only
    by_cases hok : (param.toProtoParam authz).1.isOk = true
    · rw [if_pos hok, if_pos hok]
    · rw [if_neg hok, if_neg hok]

theorem getSubscriptions_eq_filterMap (oids : List String) :
    getSubscriptions d s authz oids = oids.filterMap (listing d s authz authz) := by
  induction oids with
  | nil => rfl
  | cons oid oids ih =>
    simp only [getSubscriptions, List.filterMap_cons, listing]
    cases hget : d.getParamByOid s oid authz with
    | error why =>
      have hwhy : why.isOk = false := getParamByOid_error hget
      simp only [hwhy, Bool.false_eq_true, if_false]
      exact ih
    | ok param =>
      simp only
      by_cases hok : (param.toProtoParam authz).1.isOk = true
      · simp only [hok, if_true]
        rw [ih]
      · simp only [hok]
        exact ih

theorem proceed_iterate_finish (n : Nat) {call : UpdateSubscriptions}
    (h : call.status = .kFinish) : (UpdateSubscriptions.proceed d s authz)^[n] call = call := by
  induction n with
  | zero => rfl
  | succ n ih =>
    rw [Function.iterate_succ_apply, UpdateSubscriptions.proceed, h]
    exact ih

/-- Called often enough, the state machine has sent the messages of the remaining oids. -/
theorem proceed_iterate (oids : List String) (writes : List Listed) (n : Nat)
    (h : oids.length < n) :
    (UpdateSubscriptions.proceed d s authz)^[n] ⟨oids, .kWrite, writes⟩ =
      ⟨[], .kFinish, writes ++ oids.filterMap (listing d s authz .kAuthzDisabled)⟩ := by
  induction oids generalizing writes n with
  | nil =>
    cases n with
    | zero => cases h
    | succ n =>
      rw [Function.iterate_succ_apply, List.filterMap_nil, List.append_nil]
      exact proceed_iterate_finish d s authz n rfl
  | cons oid oids ih =>
    cases n with
    | zero => cases h
    | succ n =>
      cases hlisting : listing d s authz .kAuthzDisabled oid with
      | none =>
        -- the loop goes on to the next oid within the same call
        have hskip : UpdateSubscriptions.proceed d s authz ⟨oid :: oids, .kWrite, writes⟩ =
            UpdateSubscriptions.proceed d s authz ⟨oids, .kWrite, writes⟩ := by
          simp only [UpdateSubscriptions.proceed, nextParam_cons, hlisting]
        rw [Function.iterate_succ_apply, hskip, ← Function.iterate_succ_apply,
          List.filterMap_cons_none hlisting]
        apply ih
        exact Nat.lt_of_succ_lt h
      | some listed =>
        have hsend : UpdateSubscriptions.proceed d s authz ⟨oid :: oids, .kWrite, writes⟩ =
            ⟨oids, .kWrite, writes ++ [listed]⟩ := by
          simp only [UpdateSubscriptions.proceed, nextParam_cons, hlisting]
        rw [Function.iterate_succ_apply, hsend, List.filterMap_cons_some hlisting,
          ih _ n (Nat.lt_of_succ_lt_succ h), List.append_assoc]
        rfl

theorem listing_eq_some_iff (lookupAuthz : Authorizer) (oid : String) (listed : Listed) :
    listing d s authz lookupAuthz oid = some listed ↔
      ∃ path p, Path.parse oid = .ok path ∧ d.ReadableAlong lookupAuthz path ∧
        d.focus s path = some p ∧ p.ty.Every (Readable authz) p.descriptor p.value ∧
          (⟨oid, p.descriptor.getOid, (p.toProtoParam authz).2⟩ : Listed) = listed := by
  have hstatus (p : Param d.State) : (p.toProtoParam authz).1.isOk = true ↔
      p.ty.Every (Readable authz) p.descriptor p.value := by
    rw [← toProto_isOk_iff authz p.ty p.descriptor p.value .kindNotSet, Param.toProtoParam,
      toProtoParam, apply_ite Prod.fst, ite_self]
  simp only [listing, Device.getParamByOid]
  cases Path.parse oid with
  | error why => cases why <;> simp
  | ok path =>
    simp only [Except.ok.injEq, exists_and_left, exists_eq_left']
    cases hget : d.getParam s path lookupAuthz with
    | error why =>
      have hno (p : Param d.State) : ¬(d.ReadableAlong lookupAuthz path ∧ d.focus s path = some p) := by
        rw [← d.getParam_ok_iff, hget]
        simp
      constructor
      · intro h
        cases h
      · rintro ⟨hread, p, hfocus, _⟩
        exact absurd ⟨hread, hfocus⟩ (hno p)
    | ok p =>
      have hp := (d.getParam_ok_iff s path lookupAuthz p).mp hget
      simp only [hp.1, hp.2, true_and, Option.some.injEq, exists_eq_left', ← hstatus p,
        Option.ite_none_right_eq_some]

theorem readableAlong_kAuthzDisabled (path : List Segment) :
    d.ReadableAlong .kAuthzDisabled path := by
  have hbelow (rest : List Segment) (t : Ty) (pd : ParamDescriptor) :
      ReadableAlong .kAuthzDisabled rest t pd := by
    induction rest generalizing t pd with
    | nil => rfl
    | cons segment rest ih => exact ⟨rfl, fun c _ => ih c.1 c.2⟩
  match path with
  | [] => trivial
  | .index _ :: _ => trivial
  | .name oid :: rest => exact fun found _ => hbelow rest found.2 _

/-- The client may read every parameter along the oid. -/
def ReadableOid (oid : String) : Prop :=
  ∃ path, Path.parse oid = .ok path ∧ d.ReadableAlong authz path

/-- Both front ends send the same messages, and only about parameters the client may read. -/
def ListsAlike (subbedOids : List String) (call : UpdateSubscriptions) : Prop :=
  call.writes.map Listed.res = (getSubscriptions d s authz subbedOids).map Listed.res ∧
    ∀ listed ∈ call.writes ++ getSubscriptions d s authz subbedOids,
      ReadableOid d authz listed.subscribed

/-- A subscribed oid of a value the client may read is one it may read all along. -/
def NoHiddenAncestor (subbedOids : List String) : Prop :=
  ∀ oid ∈ subbedOids, ∀ path n, Path.parse oid = .ok path → d.nodeAt s path = some n →
    n.ty.Every (Readable authz) n.descriptor n.value → d.ReadableAlong authz path

theorem listing_eq_of_noHiddenAncestor {subbedOids : List String}
    (h : NoHiddenAncestor d s authz subbedOids) {oid : String} (hoid : oid ∈ subbedOids) :
    listing d s authz .kAuthzDisabled oid = listing d s authz authz oid := by
  apply Option.ext
  intro listed
  rw [listing_eq_some_iff, listing_eq_some_iff]
  constructor
  · rintro ⟨path, p, hparse, _, hfocus, hevery, hlisted⟩
    have hread := h oid hoid path p.node hparse (congrArg (Option.map Param.node) hfocus) hevery
    exact ⟨path, p, hparse, hread, hfocus, hevery, hlisted⟩
  · rintro ⟨path, p, hparse, _, hrest⟩
    exact ⟨path, p, hparse, readableAlong_kAuthzDisabled d path, hrest⟩

theorem readableOid_of_listing {oid : String} {listed : Listed}
    (h : listing d s authz authz oid = some listed) : ReadableOid d authz listed.subscribed := by
  obtain ⟨path, p, hparse, hread, _, _, rfl⟩ := (listing_eq_some_iff ..).mp h
  exact ⟨path, hparse, hread⟩

theorem listsAlike_filterMap_iff (subbedOids : List String) :
    ListsAlike d s authz subbedOids
        ⟨[], .kFinish, subbedOids.filterMap (listing d s authz .kAuthzDisabled)⟩ ↔
      NoHiddenAncestor d s authz subbedOids := by
  rw [ListsAlike, getSubscriptions_eq_filterMap]
  constructor
  · rintro ⟨_, hreadable⟩ oid hoid path n hparse hnode hevery
    obtain ⟨p, hfocus, rfl⟩ := Option.map_eq_some_iff.mp hnode
    have hlisting := (listing_eq_some_iff d s authz .kAuthzDisabled oid _).mpr
      ⟨path, p, hparse, readableAlong_kAuthzDisabled d path, hfocus, hevery, rfl⟩
    obtain ⟨path', hparse', hread⟩ := hreadable _
      (List.mem_append_left _ (List.mem_filterMap.mpr ⟨oid, hoid, hlisting⟩))
    obtain rfl := Except.ok.inj (hparse.symm.trans hparse')
    exact hread
  · intro h
    have hsame := List.filterMap_congr
      fun oid hoid => listing_eq_of_noHiddenAncestor d s authz h hoid
    refine ⟨congrArg (List.map Listed.res) hsame, ?_⟩
    intro listed hlisted
    rw [hsame, List.mem_append, or_self, List.mem_filterMap] at hlisted
    obtain ⟨oid, _, hlisting⟩ := hlisted
    exact readableOid_of_listing d s authz hlisting

/-- The write phase ends, and what it has sent is what REST sends, all of it readable, exactly
when no subscribed value the client may read is below a parameter it may not read. -/
theorem listsAlike_iff_noHiddenAncestor (subbedOids : List String) :
    ∃ call : UpdateSubscriptions,
      (∀ n, subbedOids.length < n →
        (UpdateSubscriptions.proceed d s authz)^[n] { it := subbedOids } = call) ∧
      call.status = .kFinish ∧
      (ListsAlike d s authz subbedOids call ↔ NoHiddenAncestor d s authz subbedOids) := by
  refine ⟨_, fun n hn => proceed_iterate d s authz subbedOids [] n hn, rfl, ?_⟩
  exact listsAlike_filterMap_iff d s authz subbedOids

end

/-- A STRUCT in the administrators' scope with a field that monitors may read. -/
def vaultDevice : Device where
  defaults := { defaultScope := "st2138:mon" }
  params := .cons "vault" { oid := "vault", scope := "st2138:adm" } (.elem (.struct
    (.cons "label" { oid := "label", scope := "st2138:mon" } (.elem .string) .nil))) .nil
  wellFormed := ⟨List.not_mem_nil, ⟨List.not_mem_nil, trivial, trivial⟩, trivial⟩

/-- gRPC lists the field, REST does not. -/
theorem hidden_ancestor_listed :
    ∃ call : UpdateSubscriptions,
      (UpdateSubscriptions.proceed vaultDevice (("a", ()), ()) ⟨false, ["st2138:mon"]⟩)^[2]
        { it := ["/vault/label"] } = call ∧
      call.status = .kFinish ∧
      ¬ListsAlike vaultDevice (("a", ()), ()) ⟨false, ["st2138:mon"]⟩ ["/vault/label"] call := by
  have hparse : Path.parse "/vault/label" = .ok [.name "vault", .name "label"] := rfl
  refine ⟨_, proceed_iterate _ _ _ ["/vault/label"] [] 2 (by decide), rfl, ?_⟩
  intro halike
  have hread := (listsAlike_filterMap_iff ..).mp halike "/vault/label" List.mem_cons_self _ _ hparse
    rfl (show Authorizer.readAuthz _ _ = true by decide)
  exact absurd (hread _ rfl).1 (by decide)

end Catena.Rpc
