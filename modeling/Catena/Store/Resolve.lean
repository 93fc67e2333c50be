import Catena.Store.Device
import Catena.Store.Zoom

/-!
# Resolving a path

`focus` follows a path to a node and keeps the way back. It is what `getParam` computes once
the authorization tests are taken out, and every action lifted along a path goes through it.
The type and the descriptor of a node depend on its path only: `descend` computes them
without a store.
-/

namespace Catena.Store

open Catena.Framework

/-- The type and the descriptor one segment below. -/
def Ty.child (t : Ty) (pd : ParamDescriptor) (segment : Segment) : Option (Ty × ParamDescriptor) :=
  match t, segment with
  | .empty _ subParams, segment =>
      (subParams.find segment.key).map fun found =>
        (.empty found.2.paramType found.2.subParams, pd.getSubParam found.1 found.2)
  | .vector e, .index _ => some (.elem e, pd)
  | .elem (.struct fields), .name oid =>
      (fields.find oid).map fun found => (found.2, pd.getSubParam found.1 found.2)
  | .elem (.variant name info ty alternatives), .name oid =>
      ((Fields.cons name info ty alternatives).find oid).map fun found =>
        (found.2, pd.getSubParam found.1 found.2)
  | _, _ => none

/-- The type and the descriptor at the end of a path. -/
def Ty.descend : List Segment → Ty → ParamDescriptor → Option (Ty × ParamDescriptor)
  | [], t, pd => some (t, pd)
  | segment :: path, t, pd => (t.child pd segment).bind fun c => Ty.descend path c.1 c.2

/-- The client may read every descriptor from the node to the end of the path. -/
def ReadableAlong (authz : Authorizer) : List Segment → Ty → ParamDescriptor → Prop
  | [], _, pd => authz.readAuthz pd = true
  | segment :: path, t, pd => authz.readAuthz pd = true ∧
      ∀ c, t.child pd segment = some c → ReadableAlong authz path c.1 c.2

/-- The node one segment below, as `getParam_` finds it. -/
def focusChild (segment : Segment) :
    (t : Ty) → ParamDescriptor → t.Val → Option (Param t.Val)
  | .empty _ subParams, pd, v =>
      (subParams.find segment.key).map fun found =>
        { ty := .empty found.2.paramType found.2.subParams
          descriptor := pd.getSubParam found.1 found.2
          value := v
          assign := fun y => y }
  | .vector e, pd, (v : List e.Val) =>
      match segment with
      | .index i => v[i]?.map fun x =>
          { ty := .elem e, descriptor := pd, value := x, assign := fun y => v.set i y }
      | .name _ => none
  | .elem (.struct fields), pd, v =>
      match segment with
      | .index _ => none
      | .name oid => (fields.findParamByName v oid).map fun member =>
          { ty := member.ty
            descriptor := pd.getSubParam member.info member.ty
            value := member.value
            assign := member.put }
  | .elem (.variant name info ty alternatives), pd, v =>
      match segment with
      | .index _ => none
      | .name oid =>
          let held := (Fields.cons name info ty alternatives).visit v
          if held.1 = oid then
            some { ty := held.2.ty
                   descriptor := pd.getSubParam held.2.info held.2.ty
                   value := held.2.value
                   assign := held.2.put }
          else none
  | .elem .int32, _, _ | .elem .float, _, _ | .elem .string, _, _ => none

def Param.within {R S : Type} (put : R → S) (p : Param R) : Param S :=
  { ty := p.ty, descriptor := p.descriptor, value := p.value, assign := fun y => put (p.assign y) }

def focus : List Segment → (t : Ty) → ParamDescriptor → t.Val → Option (Param t.Val)
  | [], t, pd, v => some { ty := t, descriptor := pd, value := v, assign := fun y => y }
  | segment :: path, t, pd, v =>
      (focusChild segment t pd v).bind fun c =>
        (focus path c.ty c.descriptor c.value).map (Param.within c.assign)

def Param.act {R α : Type} (p : Param R) (a : Act α) : Option (α × R) :=
  (a p.ty p.descriptor p.value).map fun r => (r.1, p.assign r.2)

section Focus

variable {α : Type} (sub : Descriptor → Ty → ParamDescriptor) (a : Act α)

theorem Fields.zoom_eq_findParamByName (name : String) : (fields : Fields) →
    (xs : fields.Vals) → fields.zoom sub name a xs =
      (fields.findParamByName xs name).bind fun member =>
        (a member.ty (sub member.info member.ty) member.value).map fun r => (r.1, member.put r.2)
  | .nil, _ => rfl
  | .cons field info ty rest, (x, xs) => by
    by_cases h : field = name
    · simp [Fields.zoom, Fields.findParamByName, h]
    · simp only [Fields.zoom, Fields.findParamByName, h, if_false,
        Fields.zoom_eq_findParamByName name rest xs, Option.bind_map, Option.map_bind,
        Option.map_map, Function.comp_def]

theorem Fields.zoomAlt_eq_visit (name : String) : (alternatives : Fields) →
    (v : alternatives.Alt) → alternatives.zoomAlt sub name a v =
      if (alternatives.visit v).1 = name then
        (a (alternatives.visit v).2.ty
            (sub (alternatives.visit v).2.info (alternatives.visit v).2.ty)
            (alternatives.visit v).2.value).map
          fun r => (r.1, (alternatives.visit v).2.put r.2)
      else none
  | .nil, v => Empty.elim v
  | .cons field info ty rest, .inl x => rfl
  | .cons field info ty rest, .inr y => by
    simp only [Fields.zoomAlt, Fields.visit, Fields.zoomAlt_eq_visit name rest y]
    by_cases h : (rest.visit y).1 = name
    · simp [h, Function.comp_def]
    · simp [h]

theorem zoomChild_eq_focusChild (segment : Segment) (t : Ty) (pd : ParamDescriptor)
    (v : t.Val) :
    zoomChild segment a t pd v = (focusChild segment t pd v).bind fun c => c.act a := by
  cases t with
  | empty type subParams =>
    cases hf : subParams.find segment.key with
    | none => simp only [zoomChild, focusChild, hf, Option.bind_none, Option.map_none]
    | some found =>
      simp only [zoomChild, focusChild, hf, Option.bind_some, Option.map_some]
      rfl
  | vector e =>
    cases segment with
    | index i =>
      change List e.Val at v
      simp only [zoomChild, zoomIndex, focusChild]
      cases hi : v[i]? with
      | none => rfl
      | some x => rfl
    | name oid => rfl
  | elem e =>
    cases e with
    | int32 | float | string => rfl
    | struct fields =>
      cases segment with
      | index i => rfl
      | name oid =>
        refine (Fields.zoom_eq_findParamByName pd.getSubParam a oid fields v).trans ?_
        simp only [focusChild]
        cases hf : fields.findParamByName v oid with
        | none => rfl
        | some member => rfl
    | variant name info ty alternatives =>
      cases segment with
      | index i => rfl
      | name oid =>
        refine (Fields.zoomAlt_eq_visit pd.getSubParam a oid (.cons ..) v).trans ?_
        simp only [focusChild]
        split
        · rfl
        · rfl

theorem zoom_eq_focus (path : List Segment) (t : Ty) (pd : ParamDescriptor) (v : t.Val) :
    zoom a path t pd v = (focus path t pd v).bind fun p => p.act a := by
  induction path generalizing t pd v with
  | nil =>
    simp only [zoom, focus, Option.bind_some, Param.act]
    cases a t pd v with
    | none => rfl
    | some r => rfl
  | cons segment path ih =>
    simp only [zoom, focus, zoomChild_eq_focusChild, Param.act, ih, Option.bind_assoc,
      Option.bind_map, Option.map_bind, Option.map_map, Function.comp_def, Param.within]

end Focus

section Static

theorem Fields.find_of_findParamByName (name : String) : (fields : Fields) →
    (xs : fields.Vals) → (fields.find name) =
      (fields.findParamByName xs name).map fun member => (member.info, member.ty)
  | .nil, _ => rfl
  | .cons field info ty rest, (x, xs) => by
    by_cases h : field = name
    · simp [Fields.find, Fields.findParamByName, h]
    · simp [Fields.find, Fields.findParamByName, h, Fields.find_of_findParamByName name rest xs,
        Function.comp_def]

theorem Fields.visit_mem_names : (alternatives : Fields) → (v : alternatives.Alt) →
    (alternatives.visit v).1 ∈ alternatives.names
  | .nil, v => Empty.elim v
  | .cons _ _ _ _, .inl _ => List.mem_cons_self
  | .cons _ _ _ rest, .inr y => List.mem_cons_of_mem _ (Fields.visit_mem_names rest y)

theorem Fields.find_visit : (alternatives : Fields) → (v : alternatives.Alt) →
    alternatives.WellFormed → alternatives.find (alternatives.visit v).1 =
      some ((alternatives.visit v).2.info, (alternatives.visit v).2.ty)
  | .nil, v, _ => Empty.elim v
  | .cons field info ty rest, .inl x, _ => by simp [Fields.find, Fields.visit]
  | .cons field info ty rest, .inr y, hwf => by
    have hne : field ≠ (rest.visit y).1 := fun h => hwf.1 (h ▸ Fields.visit_mem_names rest y)
    simp [Fields.find, Fields.visit, hne, Fields.find_visit rest y hwf.2.2]

theorem Fields.WellFormed.find {name : String} {found : Descriptor × Ty} : (fields : Fields) →
    fields.WellFormed → fields.find name = some found → found.2.WellFormed
  | .nil, _, h => by simp [Fields.find] at h
  | .cons field info ty rest, hwf, h => by
    by_cases hn : field = name
    · simp only [Fields.find, hn, if_true, Option.some.injEq] at h
      exact h ▸ hwf.2.1
    · simp only [Fields.find, hn, if_false] at h
      exact Fields.WellFormed.find rest hwf.2.2 h

theorem Ty.WellFormed.subParams {t : Ty} (h : t.WellFormed) : t.subParams.WellFormed := by
  cases t with
  | empty type subParams => exact h
  | elem e => cases e <;> exact h
  | vector e => cases e <;> exact h

theorem Ty.WellFormed.child {t : Ty} {pd : ParamDescriptor} {segment : Segment}
    {c : Ty × ParamDescriptor} (hwf : t.WellFormed) (h : t.child pd segment = some c) :
    c.1.WellFormed := by
  cases t with
  | empty type subParams =>
    obtain ⟨found, hfound, rfl⟩ := Option.map_eq_some_iff.mp h
    exact (Fields.WellFormed.find subParams hwf hfound).subParams
  | vector e =>
    cases segment with
    | index i =>
      obtain rfl : (Ty.elem e, pd) = c := Option.some.inj h
      exact hwf
    | name oid => cases h
  | elem e =>
    cases e with
    | int32 | float | string => cases segment <;> cases h
    | struct fields =>
      cases segment with
      | index i => cases h
      | name oid =>
        obtain ⟨found, hfound, rfl⟩ := Option.map_eq_some_iff.mp h
        exact Fields.WellFormed.find fields hwf hfound
    | variant name info ty alternatives =>
      cases segment with
      | index i => cases h
      | name oid =>
        obtain ⟨found, hfound, rfl⟩ := Option.map_eq_some_iff.mp h
        exact Fields.WellFormed.find (.cons name info ty alternatives) hwf hfound

/-- The node a path leads to in a value has the type and descriptor of the path. -/
theorem child_of_focusChild {segment : Segment} {t : Ty} {pd : ParamDescriptor} {v : t.Val}
    {c : Param t.Val} (hwf : t.WellFormed) (h : focusChild segment t pd v = some c) :
    t.child pd segment = some (c.ty, c.descriptor) := by
  cases t with
  | empty type subParams =>
    obtain ⟨found, hfound, rfl⟩ := Option.map_eq_some_iff.mp h
    exact Option.map_eq_some_iff.mpr ⟨found, hfound, rfl⟩
  | vector e =>
    cases segment with
    | index i =>
      obtain ⟨x, _, rfl⟩ := Option.map_eq_some_iff.mp h
      rfl
    | name oid => cases h
  | elem e =>
    cases e with
    | int32 | float | string => cases h
    | struct fields =>
      cases segment with
      | index i => cases h
      | name oid =>
        obtain ⟨member, hmember, rfl⟩ := Option.map_eq_some_iff.mp h
        have hfind := Fields.find_of_findParamByName oid fields v
        rw [hmember] at hfind
        exact Option.map_eq_some_iff.mpr ⟨_, hfind, rfl⟩
    | variant name info ty alternatives =>
      cases segment with
      | index i => cases h
      | name oid =>
        simp only [focusChild] at h
        split at h
        · rename_i hname
          obtain rfl := Option.some.inj h
          have hfind := Fields.find_visit (.cons name info ty alternatives) v hwf
          exact Option.map_eq_some_iff.mpr ⟨_, hname ▸ hfind, rfl⟩
        · cases h

theorem focus_wellFormed_descend {path : List Segment} {t : Ty} {pd : ParamDescriptor}
    {v : t.Val} {p : Param t.Val} (hwf : t.WellFormed) (h : focus path t pd v = some p) :
    Ty.descend path t pd = some (p.ty, p.descriptor) := by
  induction path generalizing t pd v p with
  | nil =>
    obtain rfl := Option.some.inj h
    rfl
  | cons segment path ih =>
    obtain ⟨c, hc, hrest⟩ := Option.bind_eq_some_iff.mp h
    obtain ⟨q, hq, rfl⟩ := Option.map_eq_some_iff.mp hrest
    have hchild := child_of_focusChild hwf hc
    simp only [Ty.descend, hchild, Option.bind_some]
    exact ih (hwf.child hchild) hq

end Static

section GetParam

variable {R : Type} (authz : Authorizer) (fqoid : String)

/-- One step of `getParam` that succeeds. -/
theorem getParam_cons_ok (segment : Segment) (rest : List Segment) (t : Ty)
    (pd : ParamDescriptor) (v : t.Val) (f : t.Val → R) (p : Param R) :
    getParam authz fqoid (segment :: rest) t pd v f = .ok p ↔
      authz.readAuthz pd = true ∧ ∃ c, focusChild segment t pd v = some c ∧
        ((rest = [] ∧ authz.readAuthz c.descriptor = true ∧ c.within f = p) ∨
          (rest ≠ [] ∧ getParam authz fqoid rest c.ty c.descriptor c.value
            (fun y => f (c.assign y)) = .ok p)) := by
  by_cases hr : authz.readAuthz pd = true
  case neg => simp [getParam, hr]
  simp only [getParam, hr, if_true, true_and]
  cases t with
  | empty type subParams =>
    cases hf : subParams.find segment.key with
    | none => simp [focusChild, hf]
    | some found =>
      simp only [focusChild, hf, Option.map_some, Option.some.injEq, exists_eq_left', ne_eq]
      by_cases hrest : rest = []
      · by_cases hs : authz.readAuthz (pd.getSubParam found.1 found.2) = true
        · simp [hrest, hs, Param.within]
        · simp [hrest, hs]
      · simp [hrest]
  | vector e =>
    change List e.Val at v
    cases segment with
    | name oid => simp [focusChild]
    | index i =>
      cases hi : v[i]? with
      | none =>
        have hc : focusChild (.index i) (.vector e) pd v = none := by
          simp only [focusChild, hi]
          rfl
        simp [hc, hi]
      | some x =>
        have hc : focusChild (.index i) (.vector e) pd v = some
            { ty := .elem e, descriptor := pd, value := x, assign := fun y => v.set i y } := by
          simp only [focusChild, hi]
          rfl
        simp only [hc, hi, Option.some.injEq, exists_eq_left', ne_eq]
        by_cases hrest : rest = []
        · simp [hrest, hr, Param.within]
        · cases e with
          | int32 | float | string =>
            cases rest with
            | nil => exact absurd rfl hrest
            | cons other rest => simp [ElemTy.hasSubParams, getParam, hr]
          | struct fields => simp [hrest, ElemTy.hasSubParams]
          | variant name info ty alternatives => simp [hrest, ElemTy.hasSubParams]
  | elem e =>
    cases e with
    | int32 | float | string => simp [focusChild]
    | struct fields =>
      cases segment with
      | index i => simp [focusChild]
      | name oid =>
        cases hf : fields.findParamByName v oid with
        | none =>
          have hc : focusChild (.name oid) (.elem (.struct fields)) pd v = none := by
            simp only [focusChild, hf]
            rfl
          simp [hc, hf]
        | some member =>
          have hc : focusChild (.name oid) (.elem (.struct fields)) pd v = some
              { ty := member.ty, descriptor := pd.getSubParam member.info member.ty,
                value := member.value, assign := member.put } := by
            simp only [focusChild, hf]
            rfl
          simp only [hc, hf, Option.some.injEq, exists_eq_left', ne_eq]
          by_cases hrest : rest = []
          · by_cases hs : authz.readAuthz (pd.getSubParam member.info member.ty) = true
            · simp [hrest, hs, Param.within]
            · simp [hrest, hs]
          · simp [hrest]
    | variant name info ty alternatives =>
      cases segment with
      | index i => simp [focusChild]
      | name oid =>
        by_cases hname : ((Fields.cons name info ty alternatives).visit v).1 = oid
        · have hc : focusChild (.name oid) (.elem (.variant name info ty alternatives)) pd v = some
              { ty := ((Fields.cons name info ty alternatives).visit v).2.ty
                descriptor := pd.getSubParam
                  ((Fields.cons name info ty alternatives).visit v).2.info
                  ((Fields.cons name info ty alternatives).visit v).2.ty
                value := ((Fields.cons name info ty alternatives).visit v).2.value
                assign := ((Fields.cons name info ty alternatives).visit v).2.put } := by
            simp only [focusChild, hname, if_true]
          simp only [hc, hname, Option.some.injEq, exists_eq_left', ne_eq, not_true_eq_false,
            if_false]
          by_cases hrest : rest = []
          · by_cases hs : authz.readAuthz (pd.getSubParam
              ((Fields.cons name info ty alternatives).visit v).2.info
              ((Fields.cons name info ty alternatives).visit v).2.ty) = true
            · simp [hrest, hs, Param.within]
            · simp [hrest, hs]
          · simp [hrest]
        · have hc : focusChild (.name oid) (.elem (.variant name info ty alternatives)) pd v =
              none := by
            simp only [focusChild, hname, if_false]
          simp [hc, hname]

/-- `getParam` finds the node at the end of the path if every descriptor on the way may be
read. -/
theorem getParam_ok_iff (path : List Segment) (hpath : path ≠ []) (t : Ty)
    (pd : ParamDescriptor) (v : t.Val) (f : t.Val → R) (p : Param R) (hwf : t.WellFormed) :
    getParam authz fqoid path t pd v f = .ok p ↔
      ReadableAlong authz path t pd ∧ (focus path t pd v).map (Param.within f) = some p := by
  induction path generalizing t pd v f with
  | nil => exact absurd rfl hpath
  | cons segment rest ih =>
    rw [getParam_cons_ok]
    simp only [ReadableAlong, and_assoc]
    refine and_congr_right fun hr => ?_
    cases hc : focusChild segment t pd v with
    | none => simp [focus, hc]
    | some c =>
      have hchild := child_of_focusChild hwf hc
      simp only [Option.some.injEq, exists_eq_left', hchild, focus, hc, Option.bind_some,
        Option.map_map]
      by_cases hrest : rest = []
      · subst hrest
        simp [ReadableAlong, focus, Param.within]
      · rw [ih hrest _ _ _ _ (hwf.child hchild)]
        simp [hrest, Function.comp_def, Param.within]

end GetParam

end Catena.Store
