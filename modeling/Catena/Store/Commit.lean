import Catena.Store.Denote
import Catena.Store.Node

/-!
# The steps of a commit

Each entry of a multi-set acts on one node: an entry that ends in the one-past-the-end index
appends to the array above it, any other entry writes the node at its path.
-/

namespace Catena.Store

open Catena.Framework
open ExceptionWithStatus (ok)

/-- `fromProto` on the node. -/
def writeAct (authz : Authorizer) (src : Value) : Act ExceptionWithStatus := fun t pd v =>
  some (fromProto authz t pd src v)

/-- `addBack` on the node, and `fromProto` on the new element. -/
def appendAct (authz : Authorizer) (src : Value) : Act ExceptionWithStatus
  | .vector e, pd, (v : List e.Val) =>
      if authz.writeAuthz pd ∧ v.length < pd.maxLength then
        let written := fromProtoElem authz e pd src e.default
        some (written.1, List.append v [written.2])
      else none
  | _, _, _ => none

namespace Path

def IsAppend (path : List Segment) : Prop := backIndex path = some kEnd

instance (path : List Segment) : Decidable (IsAppend path) :=
  inferInstanceAs (Decidable (backIndex path = some kEnd))

def target (path : List Segment) : List Segment := if IsAppend path then popBack path else path

theorem eq_popBack_append {path : List Segment} {i : Nat} (h : backIndex path = some i) :
    path = popBack path ++ [.index i] := by
  simp only [backIndex] at h
  split at h
  · rename_i j hlast
    obtain rfl := Option.some.inj h
    obtain ⟨_, hlast⟩ := List.getLast?_eq_some_iff.mp hlast
    subst hlast
    simp [popBack]
  · cases h

@[simp] theorem backIndex_append_index (path : List Segment) (i : Nat) :
    backIndex (path ++ [.index i]) = some i := by
  simp [backIndex]

@[simp] theorem popBack_append_index (path : List Segment) (segment : Segment) :
    popBack (path ++ [segment]) = path := by
  simp [popBack]

end Path

theorem focus_append (path path' : List Segment) (t : Ty) (pd : ParamDescriptor) (v : t.Val) :
    focus (path ++ path') t pd v = (focus path t pd v).bind fun p =>
      (focus path' p.ty p.descriptor p.value).map (Param.within p.assign) := by
  induction path generalizing t pd v with
  | nil =>
    cases path' with
    | nil => rfl
    | cons segment path' =>
      simp only [List.nil_append, focus, Option.bind_some, Option.map_bind, Option.map_map,
        Function.comp_def]
      rfl
  | cons segment path ih =>
    simp only [List.cons_append, focus, ih, Option.map_bind, Option.bind_assoc, Option.bind_map,
      Option.map_map, Function.comp_def]
    rfl

theorem readableAlong_append (authz : Authorizer) (path path' : List Segment) (t : Ty)
    (pd : ParamDescriptor) :
    ReadableAlong authz (path ++ path') t pd ↔ ReadableAlong authz path t pd ∧
      ∀ c, Ty.descend path t pd = some c → ReadableAlong authz path' c.1 c.2 := by
  induction path generalizing t pd with
  | nil =>
    simp only [List.nil_append, ReadableAlong, Ty.descend, Option.some.injEq, forall_eq']
    refine ⟨fun h => ⟨?_, h⟩, fun h => h.2⟩
    cases path' with
    | nil => exact h
    | cons segment path' => exact h.1
  | cons segment path ih =>
    cases hc : t.child pd segment with
    | none => simp [ReadableAlong, Ty.descend, hc]
    | some c => simp [ReadableAlong, Ty.descend, hc, ih, and_assoc]

theorem Ty.WellFormed.descend {path : List Segment} {t : Ty} {pd : ParamDescriptor}
    {c : Ty × ParamDescriptor} (hwf : t.WellFormed) (h : Ty.descend path t pd = some c) :
    c.1.WellFormed := by
  induction path generalizing t pd with
  | nil =>
    obtain rfl := Option.some.inj h
    exact hwf
  | cons segment path ih =>
    obtain ⟨c', hc', hrest⟩ := Option.bind_eq_some_iff.mp h
    exact ih (hwf.child hc') hrest

namespace Device

variable (d : Device)

theorem focus_append (s : d.State) (path path' : List Segment) (h : path ≠ []) :
    d.focus s (path ++ path') = (d.focus s path).bind fun p =>
      (Store.focus path' p.ty p.descriptor p.value).map (Param.within p.assign) := by
  cases path with
  | nil => exact absurd rfl h
  | cons segment rest =>
    cases segment with
    | index i => rfl
    | name oid =>
      simp only [List.cons_append, focus, Store.focus_append, Option.bind_assoc, Option.bind_map,
        Option.map_bind, Option.map_map, Function.comp_def]
      rfl

theorem readableAlong_append (authz : Authorizer) (path path' : List Segment) (h : path ≠ []) :
    d.ReadableAlong authz (path ++ path') ↔ d.ReadableAlong authz path ∧
      ∀ c, d.descend path = some c → Store.ReadableAlong authz path' c.1 c.2 := by
  cases path with
  | nil => exact absurd rfl h
  | cons segment rest =>
    cases segment with
    | index i => simp [ReadableAlong, descend]
    | name oid =>
      cases hf : d.params.find oid with
      | none => simp [ReadableAlong, descend, hf]
      | some found => simp [ReadableAlong, descend, hf, Store.readableAlong_append]

theorem wellFormed_of_focus {s : d.State} {path : List Segment} {p : Param d.State}
    (h : d.focus s path = some p) : p.ty.WellFormed := by
  cases path with
  | nil => cases h
  | cons segment rest =>
    cases segment with
    | index i => cases h
    | name oid =>
      have hd := d.descend_of_focus h
      obtain ⟨found, hfound, hdesc⟩ := Option.bind_eq_some_iff.mp hd
      exact Ty.WellFormed.descend (Fields.WellFormed.find d.params d.wellFormed hfound) hdesc

def commitStep (authz : Authorizer) (path : List Segment) (src : Value) :
    Action d.State ExceptionWithStatus :=
  if Path.IsAppend path then d.zoom (appendAct authz src) (Path.popBack path)
  else d.zoom (writeAct authz src) path

theorem commitTarget_of_index (s : d.State) (path : List Segment) (i : Nat)
    (authz : Authorizer) (hi : i ≠ Path.kEnd) (p : Param d.State) :
    d.commitTarget s (path ++ [.index i]) authz = some p ↔ ∃ parent,
      d.getParam s path authz = .ok parent ∧
        Store.getParam authz (Path.fqoid (path ++ [.index i])) [.index i] parent.ty
          parent.descriptor parent.value parent.assign = .ok p := by
  simp only [commitTarget, Path.backIndex_append_index, Path.popBack_append_index, hi, if_false]
  cases d.getParam s path authz with
  | error why => simp
  | ok parent =>
    simp only [Except.ok.injEq, exists_eq_left']
    cases Store.getParam authz (Path.fqoid (path ++ [.index i])) [.index i] parent.ty
      parent.descriptor parent.value parent.assign <;> simp [Except.toOption]

/-- The parameter an entry that does not append writes is the node at its path. -/
theorem commitTarget_of_not_append (s : d.State) (path : List Segment) (authz : Authorizer)
    (h : ¬Path.IsAppend path) (p : Param d.State) :
    d.commitTarget s path authz = some p ↔
      d.ReadableAlong authz path ∧ d.focus s path = some p := by
  cases hb : Path.backIndex path with
  | none =>
    rw [← getParam_ok_iff]
    simp only [commitTarget, hb]
    cases d.getParam s path authz <;> simp [Except.toOption]
  | some i =>
    have hi : i ≠ Path.kEnd := fun hi => h (hb.trans (congrArg some hi))
    have hpath := Path.eq_popBack_append hb
    generalize Path.popBack path = parentPath at hpath
    subst hpath
    rw [commitTarget_of_index d s parentPath i authz hi p]
    by_cases hp : parentPath = []
    · subst hp
      simp [getParam, focus]
    · simp only [getParam_ok_iff, d.focus_append s parentPath [.index i] hp,
        d.readableAlong_append authz parentPath [.index i] hp]
      constructor
      · rintro ⟨parent, ⟨hread, hfocus⟩, hget⟩
        have hwf := d.wellFormed_of_focus hfocus
        obtain ⟨hlast, hnode⟩ := (Store.getParam_ok_iff authz _ [.index i] (by simp) parent.ty
          parent.descriptor parent.value parent.assign p hwf).mp hget
        refine ⟨⟨hread, fun c hc => ?_⟩, by simpa [hfocus] using hnode⟩
        obtain rfl := Option.some.inj ((d.descend_of_focus hfocus).symm.trans hc)
        exact hlast
      · rintro ⟨⟨hread, hlast⟩, hnode⟩
        obtain ⟨parent, hfocus, hnode⟩ := Option.bind_eq_some_iff.mp hnode
        have hwf := d.wellFormed_of_focus hfocus
        exact ⟨parent, ⟨hread, hfocus⟩, (Store.getParam_ok_iff authz _ [.index i] (by simp)
          parent.ty parent.descriptor parent.value parent.assign p hwf).mpr
            ⟨hlast _ (d.descend_of_focus hfocus), hnode⟩⟩

theorem fromProto_eq_act {R : Type} (p : Param R) (authz : Authorizer) (src : Value) :
    p.act (writeAct authz src) = some (p.fromProto authz src) := rfl

theorem addBack_eq_act {R : Type} (p : Param R) (authz : Authorizer) (src : Value) :
    p.act (appendAct authz src) =
      (p.addBack authz).toOption.map fun element => element.fromProto authz src := by
  obtain ⟨ty, descriptor, value, assign, mSize, tSize⟩ := p
  cases ty with
  | empty type subParams => rfl
  | elem e => rfl
  | vector e =>
    change List e.Val at value
    by_cases hw : authz.writeAuthz descriptor = true
    · by_cases hl : value.length < descriptor.maxLength
      · have hl' : ¬descriptor.maxLength ≤ value.length := by omega
        simp only [Param.act, appendAct, Param.addBack, hw, hl, hl', true_and, if_true,
          Bool.not_true, Bool.false_eq_true, if_false]
        rfl
      · have hl' : descriptor.maxLength ≤ value.length := by omega
        simp only [Param.act, appendAct, Param.addBack, hw, hl, hl', and_false, if_true,
          Bool.not_true, Bool.false_eq_true, if_false]
        rfl
    · simp [Param.act, appendAct, Param.addBack, hw, Except.toOption]

/-- The commit of an entry is the action of the entry on its node, if the client may read
the way to the node. -/
theorem commitTarget_fromProto (s s' : d.State) (path : List Segment) (authz : Authorizer)
    (src : Value) (rc : ExceptionWithStatus) :
    (d.commitTarget s path authz).map (fun p => p.fromProto authz src) = some (rc, s') ↔
      d.ReadableAlong authz (Path.target path) ∧ d.commitStep authz path src s = some (rc, s') := by
  by_cases happ : Path.IsAppend path
  · simp only [commitStep, Path.target, happ, if_true, zoom_eq_focus, addBack_eq_act]
    have htarget : d.commitTarget s path authz =
        (d.getParam s (Path.popBack path) authz).toOption.bind fun parent =>
          (parent.addBack authz).toOption := by
      simp only [commitTarget, show Path.backIndex path = some Path.kEnd from happ, if_true]
      cases d.getParam s (Path.popBack path) authz <;> rfl
    rw [htarget]
    cases hg : d.getParam s (Path.popBack path) authz with
    | error why =>
      have hno (p) : ¬(d.ReadableAlong authz (Path.popBack path) ∧
          d.focus s (Path.popBack path) = some p) := by
        rw [← getParam_ok_iff, hg]
        simp
      cases hf : d.focus s (Path.popBack path) with
      | none => simp [Except.toOption]
      | some p =>
        have hread : ¬d.ReadableAlong authz (Path.popBack path) := fun hr => hno p ⟨hr, hf⟩
        simp [Except.toOption, hread]
    | ok parent =>
      obtain ⟨hread, hfocus⟩ := (d.getParam_ok_iff s _ authz parent).mp hg
      simp [Except.toOption, hread, hfocus]
  · simp only [commitStep, Path.target, happ, if_false, zoom_eq_focus, fromProto_eq_act]
    have htarget := d.commitTarget_of_not_append s path authz happ
    cases hc : d.commitTarget s path authz with
    | none =>
      cases hf : d.focus s path with
      | none => simp
      | some p =>
        have hno : ¬d.ReadableAlong authz path := fun hr => by
          have := (htarget p).mpr ⟨hr, hf⟩
          rw [hc] at this
          cases this
        simp [hno]
    | some p =>
      obtain ⟨hread, hfocus⟩ := (htarget p).mp hc
      simp [hread, hfocus]

end Device

end Catena.Store
