import Catena.Store.Resolve

/-!
# The nodes of a device

The laws of paths at the level of the whole device: what an action at one path leaves at that
path and at the others, and how `Device::getParam` relates to the nodes.
-/

namespace Catena.Store

open Catena.Framework

/-- A node: its type, its descriptor and its value. -/
structure Node where
  ty : Ty
  descriptor : ParamDescriptor
  value : ty.Val

def peek : Act Node := fun t pd v => some (⟨t, pd, v⟩, v)

def Param.node {R : Type} (p : Param R) : Node := ⟨p.ty, p.descriptor, p.value⟩

namespace Fields

theorem put_value_findParamByName (name : String) : (fields : Fields) → (xs : fields.Vals) →
    (member : MemberRef fields.Vals) → fields.findParamByName xs name = some member →
    member.put member.value = xs
  | .nil, _, _, h => by cases h
  | .cons field info ty rest, (x, xs), member, h => by
    by_cases hn : field = name
    · simp only [findParamByName, hn, if_true] at h
      obtain rfl := Option.some.inj h
      rfl
    · simp only [findParamByName, hn, if_false] at h
      obtain ⟨inner, hinner, rfl⟩ := Option.map_eq_some_iff.mp h
      exact congrArg (Prod.mk x) (put_value_findParamByName name rest xs inner hinner)

theorem put_value_visit : (alternatives : Fields) → (v : alternatives.Alt) →
    (alternatives.visit v).2.put (alternatives.visit v).2.value = v
  | .nil, v => Empty.elim v
  | .cons _ _ _ _, .inl _ => rfl
  | .cons _ _ _ rest, .inr y => congrArg Sum.inr (put_value_visit rest y)

end Fields

theorem assign_value_focusChild {segment : Segment} {t : Ty} {pd : ParamDescriptor} {v : t.Val}
    {c : Param t.Val} (h : focusChild segment t pd v = some c) : c.assign c.value = v := by
  cases t with
  | empty type subParams =>
    obtain ⟨found, _, rfl⟩ := Option.map_eq_some_iff.mp h
    rfl
  | vector e =>
    change List e.Val at v
    cases segment with
    | name oid => cases h
    | index i =>
      obtain ⟨x, hx, rfl⟩ := Option.map_eq_some_iff.mp h
      obtain ⟨hi, rfl⟩ := List.getElem?_eq_some_iff.mp hx
      exact List.set_getElem_self hi
  | elem e =>
    cases e with
    | int32 | float | string => cases h
    | struct fields =>
      cases segment with
      | index i => cases h
      | name oid =>
        obtain ⟨member, hmember, rfl⟩ := Option.map_eq_some_iff.mp h
        exact Fields.put_value_findParamByName oid fields v member hmember
    | variant name info ty alternatives =>
      cases segment with
      | index i => cases h
      | name oid =>
        simp only [focusChild] at h
        split at h
        · obtain rfl := Option.some.inj h
          exact Fields.put_value_visit (.cons name info ty alternatives) v
        · cases h

theorem assign_value_focus {path : List Segment} {t : Ty} {pd : ParamDescriptor} {v : t.Val}
    {p : Param t.Val} (h : focus path t pd v = some p) : p.assign p.value = v := by
  induction path generalizing t pd v p with
  | nil =>
    obtain rfl := Option.some.inj h
    rfl
  | cons segment path ih =>
    obtain ⟨c, hc, hrest⟩ := Option.bind_eq_some_iff.mp h
    obtain ⟨q, hq, rfl⟩ := Option.map_eq_some_iff.mp hrest
    exact (congrArg c.assign (ih hq)).trans (assign_value_focusChild hc)

namespace Device

variable {α β : Type} (d : Device)

def zoom (a : Act α) : List Segment → Action d.State α
  | .name oid :: rest => d.params.zoom d.descriptor oid (Store.zoom a rest)
  | _ => fun _ => none

def focus (s : d.State) : List Segment → Option (Param d.State)
  | .name oid :: rest => (d.params.findParamByName s oid).bind fun member =>
      (Store.focus rest member.ty (d.descriptor member.info member.ty) member.value).map
        (Param.within member.put)
  | _ => none

/-- The type and the descriptor a path of the device leads to. -/
def descend : List Segment → Option (Ty × ParamDescriptor)
  | .name oid :: rest => (d.params.find oid).bind fun found =>
      Ty.descend rest found.2 (d.descriptor found.1 found.2)
  | _ => none

/-- The client may read every descriptor on the path. -/
def ReadableAlong (authz : Authorizer) : List Segment → Prop
  | .name oid :: rest => ∀ found, d.params.find oid = some found →
      Store.ReadableAlong authz rest found.2 (d.descriptor found.1 found.2)
  | _ => True

def nodeAt (s : d.State) (path : List Segment) : Option Node := (d.focus s path).map Param.node

theorem zoom_eq_focus (a : Act α) (path : List Segment) (s : d.State) :
    d.zoom a path s = (d.focus s path).bind fun p => p.act a := by
  cases path with
  | nil => rfl
  | cons segment rest =>
    cases segment with
    | index i => rfl
    | name oid =>
      simp only [zoom, focus, Fields.zoom_eq_findParamByName, Store.zoom_eq_focus,
        Option.bind_assoc, Option.map_bind, Option.bind_map, Function.comp_def, Param.act,
        Param.within, Option.map_map]

theorem descend_of_focus {s : d.State} {path : List Segment} {p : Param d.State}
    (h : d.focus s path = some p) : d.descend path = some (p.ty, p.descriptor) := by
  cases path with
  | nil => cases h
  | cons segment rest =>
    cases segment with
    | index i => cases h
    | name oid =>
      obtain ⟨member, hmember, hrest⟩ := Option.bind_eq_some_iff.mp h
      obtain ⟨q, hq, rfl⟩ := Option.map_eq_some_iff.mp hrest
      have hfind := Fields.find_of_findParamByName oid d.params s
      rw [hmember] at hfind
      have hwf := Fields.WellFormed.find d.params d.wellFormed hfind
      simp only [descend, hfind, Option.map_some, Option.bind_some]
      exact focus_wellFormed_descend hwf hq

theorem assign_value_of_focus {s : d.State} {path : List Segment} {p : Param d.State}
    (h : d.focus s path = some p) : p.assign p.value = s := by
  cases path with
  | nil => cases h
  | cons segment rest =>
    cases segment with
    | index i => cases h
    | name oid =>
      obtain ⟨member, hmember, hrest⟩ := Option.bind_eq_some_iff.mp h
      obtain ⟨q, hq, rfl⟩ := Option.map_eq_some_iff.mp hrest
      exact (congrArg member.put (assign_value_focus hq)).trans
        (Fields.put_value_findParamByName oid d.params s member hmember)

/-- `Device::getParam` succeeds exactly on the nodes whose path may be read. -/
theorem getParam_ok_iff (s : d.State) (path : List Segment) (authz : Authorizer)
    (p : Param d.State) :
    d.getParam s path authz = .ok p ↔ d.ReadableAlong authz path ∧ d.focus s path = some p := by
  cases path with
  | nil => simp [getParam, focus]
  | cons segment rest =>
    cases segment with
    | index i => simp [getParam, focus]
    | name oid =>
      have hfind := Fields.find_of_findParamByName oid d.params s
      cases hm : d.params.findParamByName s oid with
      | none => simp [getParam, focus, hm]
      | some member =>
        rw [hm] at hfind
        have hwf := Fields.WellFormed.find d.params d.wellFormed hfind
        have hread : d.ReadableAlong authz (.name oid :: rest) ↔
            Store.ReadableAlong authz rest member.ty (d.descriptor member.info member.ty) := by
          simp [ReadableAlong, hfind]
        rw [hread]
        simp only [getParam, focus, hm, Option.bind_some]
        by_cases hr : authz.readAuthz (d.descriptor member.info member.ty) = true
        · by_cases hrest : rest = []
          · subst hrest
            simp [hr, Store.ReadableAlong, Store.focus, Param.within]
          · simp only [hr, hrest, Bool.not_true, Bool.false_eq_true, if_false]
            exact Store.getParam_ok_iff authz _ rest hrest member.ty _ member.value member.put p hwf
        · have hno : ¬Store.ReadableAlong authz rest member.ty
              (d.descriptor member.info member.ty) := by
            cases rest with
            | nil => exact hr
            | cons segment rest => exact fun h => hr h.1
          simp [hr, hno]

theorem zoom_both (a : Act α) (b : Act β) (path : List Segment) :
    d.zoom (a.both b) path = (d.zoom a path).both (d.zoom b path) := by
  cases path with
  | nil => rfl
  | cons segment rest =>
    cases segment with
    | index i => rfl
    | name oid => simp only [zoom, Store.zoom_both, Fields.zoom_both]

theorem zoom_map (f : α → β) (a : Act α) (path : List Segment) :
    d.zoom (a.map f) path = (d.zoom a path).map f := by
  cases path with
  | nil => rfl
  | cons segment rest =>
    cases segment with
    | index i => rfl
    | name oid => simp only [zoom, Store.zoom_map, Fields.zoom_map]

theorem zoom_append (a : Act α) (path path' : List Segment) (h : path ≠ []) :
    d.zoom a (path ++ path') = d.zoom (Store.zoom a path') path := by
  cases path with
  | nil => exact absurd rfl h
  | cons segment rest =>
    cases segment with
    | index i => rfl
    | name oid => simp only [List.cons_append, zoom, Store.zoom_append]

/-- Actions on nodes of which neither is part of the other commute. -/
theorem zoom_commute (a : Act α) (b : Act β) {p q : List Segment} (h : Diverge p q) :
    (d.zoom a p).Commute (d.zoom b q) := by
  cases p with
  | nil => exact absurd List.nil_prefix h.1
  | cons segment p =>
    cases q with
    | nil => exact absurd List.nil_prefix h.2
    | cons other q =>
      cases segment with
      | index i => exact Action.commute_of_fails _ fun _ => rfl
      | name oid =>
        cases other with
        | index j => exact (Action.commute_of_fails _ fun _ => rfl).symm
        | name oid' =>
          by_cases ho : oid = oid'
          · subst ho
            have hboth : (Store.zoom a p).both (Store.zoom b q) =
                ((Store.zoom b q).both (Store.zoom a p)).map Prod.swap :=
              funext fun t => funext fun pd => Store.zoom_commute a b h.of_cons t pd
            have hzoom := congrArg (fun c => d.params.zoom d.descriptor oid c) hboth
            simp only [Fields.zoom_both, Fields.zoom_map] at hzoom
            exact hzoom
          · exact Fields.zoom_commute d.descriptor oid oid' ho _ _ d.params

theorem zoom_peek (path : List Segment) (s : d.State) :
    d.zoom peek path s = (d.nodeAt s path).map fun n => (n, s) := by
  rw [zoom_eq_focus]
  cases h : d.focus s path with
  | none => simp [nodeAt, h]
  | some p => simp [nodeAt, h, Param.act, peek, Param.node, d.assign_value_of_focus h]

theorem nodeAt_eq_of_zoom_peek {path : List Segment} {s s' : d.State} {n : Node}
    (h : d.zoom peek path s = some (n, s')) : d.nodeAt s path = some n := by
  rw [zoom_peek] at h
  obtain ⟨m, hm, he⟩ := Option.map_eq_some_iff.mp h
  exact hm.trans (congrArg some (congrArg Prod.fst he))

theorem descend_of_nodeAt {s : d.State} {path : List Segment} {n : Node}
    (h : d.nodeAt s path = some n) : d.descend path = some (n.ty, n.descriptor) := by
  obtain ⟨p, hp, rfl⟩ := Option.map_eq_some_iff.mp h
  exact d.descend_of_focus hp

theorem zoom_of_nodeAt {s : d.State} {path : List Segment} {n : Node} (a : Act α)
    (h : d.nodeAt s path = some n) {x : α} {v : n.ty.Val}
    (ha : a n.ty n.descriptor n.value = some (x, v)) :
    ∃ s', d.zoom a path s = some (x, s') ∧
      d.nodeAt s' path = some ⟨n.ty, n.descriptor, v⟩ := by
  obtain ⟨p, hp, rfl⟩ := Option.map_eq_some_iff.mp h
  change p.ty.Val at v
  change a p.ty p.descriptor p.value = some (x, v) at ha
  have hact : (a.both peek) p.ty p.descriptor p.value =
      some ((x, ⟨p.ty, p.descriptor, v⟩), v) := by
    simp [Act.both, Action.both, Action.bind, Action.map, ha, peek]
  have hboth : d.zoom (a.both peek) path s =
      some ((x, ⟨p.ty, p.descriptor, v⟩), p.assign v) := by
    rw [zoom_eq_focus, hp, Option.bind_some, Param.act, hact, Option.map_some]
  rw [zoom_both] at hboth
  obtain ⟨s', hs', hpeek⟩ := Action.both_apply_eq_some.mp hboth
  exact ⟨s', hs', d.nodeAt_eq_of_zoom_peek hpeek⟩

theorem nodeAt_of_zoom {s s' : d.State} {path : List Segment} {a : Act α} {x : α}
    (h : d.zoom a path s = some (x, s')) :
    ∃ n v, d.nodeAt s path = some n ∧ a n.ty n.descriptor n.value = some (x, v) ∧
      d.nodeAt s' path = some ⟨n.ty, n.descriptor, v⟩ := by
  rw [zoom_eq_focus] at h
  obtain ⟨p, hp, hact⟩ := Option.bind_eq_some_iff.mp h
  obtain ⟨⟨y, v⟩, ha, he⟩ := Option.map_eq_some_iff.mp hact
  simp only [Prod.mk.injEq] at he
  obtain ⟨rfl, rfl⟩ := he
  have hn : d.nodeAt s path = some p.node := by simp [nodeAt, hp]
  refine ⟨p.node, v, hn, ha, ?_⟩
  obtain ⟨s', hs', hnode⟩ := d.zoom_of_nodeAt a hn ha
  rw [zoom_eq_focus, hp, Option.bind_some, Param.act, ha] at hs'
  obtain rfl : p.assign v = s' := congrArg Prod.snd (Option.some.inj hs')
  exact hnode

theorem zoom_of_zoom {s s' : d.State} {path : List Segment} {a : Act α} {b : Act β} {x : α}
    {y : β} (h : d.zoom a path s = some (x, s'))
    (hab : ∀ n w, d.nodeAt s path = some n → a n.ty n.descriptor n.value = some (x, w) →
      b n.ty n.descriptor n.value = some (y, w)) : d.zoom b path s = some (y, s') := by
  rw [zoom_eq_focus] at h ⊢
  obtain ⟨p, hp, hact⟩ := Option.bind_eq_some_iff.mp h
  obtain ⟨⟨x', w⟩, ha, he⟩ := Option.map_eq_some_iff.mp hact
  simp only [Prod.mk.injEq] at he
  obtain ⟨rfl, rfl⟩ := he
  have hb : b p.ty p.descriptor p.value = some (y, w) :=
    hab p.node w (by simp [nodeAt, hp]) ha
  rw [hp, Option.bind_some, Param.act, hb, Option.map_some]

theorem zoom_congr_node {s : d.State} {path : List Segment} {n : Node} {a b : Act α}
    (hn : d.nodeAt s path = some n)
    (hab : a n.ty n.descriptor n.value = b n.ty n.descriptor n.value) :
    d.zoom a path s = d.zoom b path s := by
  obtain ⟨p, hp, rfl⟩ := Option.map_eq_some_iff.mp hn
  have hact : a p.ty p.descriptor p.value = b p.ty p.descriptor p.value := hab
  simp only [zoom_eq_focus, hp, Option.bind_some, Param.act, hact]

theorem nodeAt_of_zoom_diverge {s s' : d.State} {p q : List Segment} {a : Act α} {x : α}
    (hpq : Diverge p q) (h : d.zoom a p s = some (x, s')) : d.nodeAt s' q = d.nodeAt s q := by
  have hcomm := congrFun (d.zoom_commute a peek hpq) s
  simp only [Action.both, Action.bind, Action.map, h, Option.bind_some, zoom_peek] at hcomm
  cases hq : d.nodeAt s q with
  | none =>
    cases hq' : d.nodeAt s' q with
    | none => rfl
    | some m => simp [hq, hq'] at hcomm
  | some n =>
    cases hq' : d.nodeAt s' q with
    | none => simp [hq, hq', h] at hcomm
    | some m =>
      simp only [hq, hq', h, Option.map_some, Option.bind_some, Option.some.injEq, Prod.mk.injEq,
        Prod.swap_prod_mk, true_and, and_true] at hcomm
      exact congrArg some hcomm

theorem zoom_of_unchanged {s : d.State} {path : List Segment} {n : Node} (a : Act α)
    (h : d.nodeAt s path = some n) {x : α}
    (ha : a n.ty n.descriptor n.value = some (x, n.value)) : d.zoom a path s = some (x, s) := by
  obtain ⟨p, hp, rfl⟩ := Option.map_eq_some_iff.mp h
  change a p.ty p.descriptor p.value = some (x, p.value) at ha
  rw [zoom_eq_focus, hp, Option.bind_some, Param.act, ha, Option.map_some,
    d.assign_value_of_focus hp]

end Device

end Catena.Store
