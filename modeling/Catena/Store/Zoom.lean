import Catena.Framework.Action
import Catena.Store.ParamWithValue

/-!
# Acting on one node of the store

An action on a node is lifted along a path to the whole value. Actions on nodes of which
neither is below the other commute, whatever the actions do, since neither path selects
anything the other action can change.
-/

namespace Catena.Store

open Catena.Framework

/-- An action that can be taken at a node of any type. -/
abbrev Act (α : Type) : Type := (t : Ty) → ParamDescriptor → Action t.Val α

namespace Act

variable {α β : Type}

def map (f : α → β) (a : Act α) : Act β := fun t pd => (a t pd).map f

def bind (a : Act α) (k : α → Act β) : Act β := fun t pd => (a t pd).bind fun x => k x t pd

def both (a : Act α) (b : Act β) : Act (α × β) := fun t pd => (a t pd).both (b t pd)

end Act

section Child

variable {α β : Type}

def Fields.zoom (sub : Descriptor → Ty → ParamDescriptor) (name : String) (a : Act α) :
    (fields : Fields) → Action fields.Vals α
  | .nil, _ => none
  | .cons field info ty rest, (x, xs) =>
      if field = name then (a ty (sub info ty) x).map fun r => (r.1, (r.2, xs))
      else (rest.zoom sub name a xs).map fun r => (r.1, (x, r.2))

/-- Act on the alternative a variant holds, if it has the name. -/
def Fields.zoomAlt (sub : Descriptor → Ty → ParamDescriptor) (name : String) (a : Act α) :
    (alternatives : Fields) → Action alternatives.Alt α
  | .nil, v => Empty.elim v
  | .cons field info ty rest, v =>
      match v with
      | .inl x =>
          if field = name then (a ty (sub info ty) x).map fun r => (r.1, .inl r.2) else none
      | .inr y => (rest.zoomAlt sub name a y).map fun r => (r.1, .inr r.2)

def zoomIndex {e : Type} (i : Nat) (a : Action e α) : Action (List e) α := fun v =>
  v[i]?.bind fun x => (a x).map fun r => (r.1, v.set i r.2)

/-- Act on the node one segment below. -/
def zoomChild (segment : Segment) (a : Act α) : Act α
  | .empty _ subParams, pd, v =>
      (subParams.find segment.key).bind fun found =>
        (a (.empty found.2.paramType found.2.subParams) (pd.getSubParam found.1 found.2) v).map
          fun r => (r.1, v)
  | .vector e, pd, v =>
      match segment with
      | .index i => zoomIndex i (a (.elem e) pd) v
      | .name _ => none
  | .elem (.struct fields), pd, v =>
      match segment with
      | .index _ => none
      | .name name => fields.zoom pd.getSubParam name a v
  | .elem (.variant name info ty alternatives), pd, v =>
      match segment with
      | .index _ => none
      | .name oid => (Fields.cons name info ty alternatives).zoomAlt pd.getSubParam oid a v
  | .elem .int32, _, _ | .elem .float, _, _ | .elem .string, _, _ => none

def zoom (a : Act α) : List Segment → Act α
  | [] => a
  | segment :: path => zoomChild segment (zoom a path)

end Child

section Laws

variable {α β : Type} (sub : Descriptor → Ty → ParamDescriptor)

theorem Fields.zoom_map (name : String) (f : α → β) (a : Act α) : (fields : Fields) →
    fields.zoom sub name (a.map f) = (fields.zoom sub name a).map f
  | .nil => rfl
  | .cons field info ty rest => by
    funext ⟨x, xs⟩
    by_cases h : field = name
    · simp [Fields.zoom, h, Act.map, Action.map, Function.comp_def]
    · simp [Fields.zoom, h, Fields.zoom_map name f a rest, Action.map, Function.comp_def]

theorem Fields.zoom_bind (name : String) (a : Act α) (k : α → Act β) : (fields : Fields) →
    fields.zoom sub name (a.bind k) = (fields.zoom sub name a).bind fun x =>
      fields.zoom sub name (k x)
  | .nil => rfl
  | .cons field info ty rest => by
    funext ⟨x, xs⟩
    by_cases h : field = name
    · cases ha : a ty (sub info ty) x with
      | none => simp [Fields.zoom, h, Act.bind, Action.bind, ha]
      | some r => simp [Fields.zoom, h, Act.bind, Action.bind, ha]
    · have hrest := congrFun (Fields.zoom_bind name a k rest) xs
      cases ha : rest.zoom sub name a xs with
      | none => simp [Fields.zoom, h, Action.bind, hrest, ha]
      | some r => simp [Fields.zoom, h, Action.bind, hrest, ha]

theorem Fields.zoom_both (name : String) (a : Act α) (b : Act β) (fields : Fields) :
    fields.zoom sub name (a.both b) = (fields.zoom sub name a).both (fields.zoom sub name b) := by
  have h := Fields.zoom_bind sub name a (fun x => b.map fun y => (x, y)) fields
  simp only [Fields.zoom_map] at h
  exact h

theorem Fields.zoomAlt_map (name : String) (f : α → β) (a : Act α) : (alternatives : Fields) →
    alternatives.zoomAlt sub name (a.map f) = (alternatives.zoomAlt sub name a).map f
  | .nil => funext fun v => Empty.elim v
  | .cons field info ty rest => by
    funext v
    rcases v with x | y
    · by_cases h : field = name
      · simp [Fields.zoomAlt, h, Act.map, Action.map, Function.comp_def]
      · simp [Fields.zoomAlt, h, Action.map]
    · simp [Fields.zoomAlt, Fields.zoomAlt_map name f a rest, Action.map, Function.comp_def]

theorem Fields.zoomAlt_bind (name : String) (a : Act α) (k : α → Act β) :
    (alternatives : Fields) →
    alternatives.zoomAlt sub name (a.bind k) = (alternatives.zoomAlt sub name a).bind fun x =>
      alternatives.zoomAlt sub name (k x)
  | .nil => funext fun v => Empty.elim v
  | .cons field info ty rest => by
    funext v
    rcases v with x | y
    · by_cases h : field = name
      · cases ha : a ty (sub info ty) x with
        | none => simp [Fields.zoomAlt, h, Act.bind, Action.bind, ha]
        | some r => simp [Fields.zoomAlt, h, Act.bind, Action.bind, ha]
      · simp [Fields.zoomAlt, h, Action.bind]
    · have hrest := congrFun (Fields.zoomAlt_bind name a k rest) y
      cases ha : rest.zoomAlt sub name a y with
      | none => simp [Fields.zoomAlt, Action.bind, hrest, ha]
      | some r => simp [Fields.zoomAlt, Action.bind, hrest, ha]

theorem zoomIndex_map {e : Type} (i : Nat) (f : α → β) (a : Action e α) :
    zoomIndex i (a.map f) = (zoomIndex i a).map f := by
  funext v
  cases hv : v[i]? with
  | none => simp [zoomIndex, hv, Action.map]
  | some x => simp [zoomIndex, hv, Action.map, Function.comp_def]

theorem zoomIndex_bind {e : Type} (i : Nat) (a : Action e α) (k : α → Action e β) :
    zoomIndex i (a.bind k) = (zoomIndex i a).bind fun x => zoomIndex i (k x) := by
  funext v
  cases hv : v[i]? with
  | none => simp [zoomIndex, hv, Action.bind]
  | some x =>
    obtain ⟨hi, _⟩ := List.getElem?_eq_some_iff.mp hv
    cases ha : a x with
    | none => simp [zoomIndex, hv, Action.bind, ha]
    | some r => simp [zoomIndex, hv, Action.bind, ha, List.getElem?_set_self hi]

theorem zoomChild_map (segment : Segment) (f : α → β) (a : Act α) :
    zoomChild segment (a.map f) = (zoomChild segment a).map f := by
  funext t pd v
  cases t with
  | empty type subParams =>
    cases hf : subParams.find segment.key with
    | none => simp [zoomChild, hf, Act.map, Action.map]
    | some found => simp [zoomChild, hf, Act.map, Action.map, Function.comp_def]
  | vector e =>
    cases segment with
    | index i => exact congrFun (zoomIndex_map i f (a (.elem e) pd)) v
    | name oid => rfl
  | elem e =>
    cases e with
    | int32 | float | string => rfl
    | struct fields =>
      cases segment with
      | index i => rfl
      | name oid => exact congrFun (Fields.zoom_map pd.getSubParam oid f a fields) v
    | variant name info ty alternatives =>
      cases segment with
      | index i => rfl
      | name oid => exact congrFun (Fields.zoomAlt_map pd.getSubParam oid f a (.cons ..)) v

theorem zoomChild_bind (segment : Segment) (a : Act α) (k : α → Act β) :
    zoomChild segment (a.bind k) = (zoomChild segment a).bind fun x => zoomChild segment (k x) := by
  funext t pd v
  cases t with
  | empty type subParams =>
    cases hf : subParams.find segment.key with
    | none => simp [zoomChild, hf, Act.bind, Action.bind]
    | some found =>
      simp only [zoomChild, hf, Act.bind, Action.bind, Option.bind_some]
      cases ha : a (.empty found.2.paramType found.2.subParams)
        (pd.getSubParam found.1 found.2) v with
      | none => rfl
      | some r => rfl
  | vector e =>
    cases segment with
    | index i => exact congrFun (zoomIndex_bind i (a (.elem e) pd) fun x => k x (.elem e) pd) v
    | name oid => rfl
  | elem e =>
    cases e with
    | int32 | float | string => rfl
    | struct fields =>
      cases segment with
      | index i => rfl
      | name oid => exact congrFun (Fields.zoom_bind pd.getSubParam oid a k fields) v
    | variant name info ty alternatives =>
      cases segment with
      | index i => rfl
      | name oid => exact congrFun (Fields.zoomAlt_bind pd.getSubParam oid a k (.cons ..)) v

theorem zoomChild_both (segment : Segment) (a : Act α) (b : Act β) :
    zoomChild segment (a.both b) = (zoomChild segment a).both (zoomChild segment b) := by
  have h := zoomChild_bind segment a fun x => b.map fun y => (x, y)
  simp only [zoomChild_map] at h
  exact h

theorem zoom_map (f : α → β) (a : Act α) (path : List Segment) :
    zoom (a.map f) path = (zoom a path).map f := by
  induction path with
  | nil => rfl
  | cons segment path ih => simp only [zoom, ih, zoomChild_map]

theorem zoom_bind (a : Act α) (k : α → Act β) (path : List Segment) :
    zoom (a.bind k) path = (zoom a path).bind fun x => zoom (k x) path := by
  induction path with
  | nil => rfl
  | cons segment path ih => simp only [zoom, ih, zoomChild_bind]

theorem zoom_both (a : Act α) (b : Act β) (path : List Segment) :
    zoom (a.both b) path = (zoom a path).both (zoom b path) := by
  have h := zoom_bind a (fun x => b.map fun y => (x, y)) path
  simp only [zoom_map] at h
  exact h

theorem zoom_append (a : Act α) (path path' : List Segment) :
    zoom a (path ++ path') = zoom (zoom a path') path := by
  induction path with
  | nil => rfl
  | cons segment path ih => simp only [List.cons_append, zoom, ih]

end Laws

section Commutation

variable {α β : Type} (sub : Descriptor → Ty → ParamDescriptor)

theorem Fields.zoom_commute (name other : String) (h : name ≠ other) (a : Act α) (b : Act β) :
    (fields : Fields) → (fields.zoom sub name a).Commute (fields.zoom sub other b)
  | .nil => rfl
  | .cons field info ty rest => by
    funext ⟨x, xs⟩
    by_cases hn : field = name
    · have ho : field ≠ other := fun ho => h (hn.symm.trans ho)
      cases ha : a ty (sub info ty) x <;> cases hb : rest.zoom sub other b xs <;>
        simp [Fields.zoom, hn, h, Action.both, Action.bind, Action.map, ha, hb]
    · by_cases ho : field = other
      · cases ha : rest.zoom sub name a xs <;> cases hb : b ty (sub info ty) x <;>
          simp [Fields.zoom, ho, h.symm, Action.both, Action.bind, Action.map, ha, hb]
      · have hrest := congrArg
          (Option.map fun r => (r.1, ((x, r.2) : (Fields.cons field info ty rest).Vals)))
          (congrFun (Fields.zoom_commute name other h a b rest) xs)
        simp only [Action.both, Action.bind, Action.map, Fields.zoom, hn, ho, if_false,
          Option.bind_map, Option.map_map, Option.map_bind, Function.comp_def,
          Prod.swap_prod_mk] at hrest ⊢
        exact hrest

theorem Fields.zoomAlt_commute (name other : String) (h : name ≠ other) (a : Act α)
    (b : Act β) : (alternatives : Fields) →
    (alternatives.zoomAlt sub name a).Commute (alternatives.zoomAlt sub other b)
  | .nil => funext fun v => Empty.elim v
  | .cons field info ty rest => by
    funext v
    rcases v with x | y
    · have hno : ¬(field = name ∧ field = other) := fun hb => h (hb.1.symm.trans hb.2)
      by_cases hn : field = name
      · have ho : field ≠ other := fun ho => hno ⟨hn, ho⟩
        cases ha : a ty (sub info ty) x <;>
          simp [Fields.zoomAlt, hn, h, Action.both, Action.bind, Action.map, ha]
      · by_cases ho : field = other
        · cases hb : b ty (sub info ty) x <;>
            simp [Fields.zoomAlt, ho, h.symm, Action.both, Action.bind, Action.map, hb]
        · simp [Fields.zoomAlt, hn, ho, Action.both, Action.bind, Action.map]
    · have hrest := congrArg
        (Option.map fun r => (r.1, (Sum.inr r.2 : (Fields.cons field info ty rest).Alt)))
        (congrFun (Fields.zoomAlt_commute name other h a b rest) y)
      simp only [Action.both, Action.bind, Action.map, Fields.zoomAlt, Option.bind_map,
        Option.map_map, Option.map_bind, Function.comp_def, Prod.swap_prod_mk] at hrest ⊢
      exact hrest

theorem zoomIndex_commute {e : Type} (i j : Nat) (h : i ≠ j) (a : Action e α) (b : Action e β) :
    (zoomIndex i a).Commute (zoomIndex j b) := by
  funext v
  cases hi : v[i]? with
  | none =>
    cases hj : v[j]? with
    | none => simp [zoomIndex, Action.both, Action.bind, Action.map, hi, hj]
    | some y =>
      cases hb : b y <;>
        simp [zoomIndex, Action.both, Action.bind, Action.map, hi, hj, hb,
          List.getElem?_set_ne h.symm]
  | some x =>
    cases hj : v[j]? with
    | none =>
      cases ha : a x <;>
        simp [zoomIndex, Action.both, Action.bind, Action.map, hi, hj, ha, List.getElem?_set_ne h]
    | some y =>
      cases ha : a x <;> cases hb : b y <;>
        simp [zoomIndex, Action.both, Action.bind, Action.map, hi, hj, ha, hb,
          List.getElem?_set_ne h, List.getElem?_set_ne h.symm, List.set_comm _ _ h]

theorem zoomChild_commute (segment other : Segment) (h : segment ≠ other) (a : Act α)
    (b : Act β) (t : Ty) (pd : ParamDescriptor) :
    (zoomChild segment a t pd).Commute (zoomChild other b t pd) := by
  cases t with
  | empty type subParams => exact Action.commute_of_reads (fun _ _ _ => rfl) fun _ _ _ => rfl
  | vector e =>
    cases segment with
    | name oid => exact Action.commute_of_fails _ fun _ => rfl
    | index i =>
      cases other with
      | name oid => exact (Action.commute_of_fails _ fun _ => rfl).symm
      | index j => exact zoomIndex_commute i j (fun hij => h (congrArg _ hij)) _ _
  | elem e =>
    cases e with
    | int32 | float | string => rfl
    | struct fields =>
      cases segment with
      | index i => exact Action.commute_of_fails _ fun _ => rfl
      | name oid =>
        cases other with
        | index j => exact (Action.commute_of_fails _ fun _ => rfl).symm
        | name oid' =>
          exact Fields.zoom_commute pd.getSubParam oid oid' (fun ho => h (congrArg _ ho)) a b fields
    | variant name info ty alternatives =>
      cases segment with
      | index i => exact Action.commute_of_fails _ fun _ => rfl
      | name oid =>
        cases other with
        | index j => exact (Action.commute_of_fails _ fun _ => rfl).symm
        | name oid' =>
          exact Fields.zoomAlt_commute pd.getSubParam oid oid' (fun ho => h (congrArg _ ho)) a b
            (.cons ..)

def Diverge (p q : List Segment) : Prop := ¬p <+: q ∧ ¬q <+: p

theorem Diverge.of_cons {segment : Segment} {p q : List Segment}
    (h : Diverge (segment :: p) (segment :: q)) : Diverge p q :=
  ⟨fun hp => h.1 (List.cons_prefix_cons.mpr ⟨rfl, hp⟩),
    fun hq => h.2 (List.cons_prefix_cons.mpr ⟨rfl, hq⟩)⟩

theorem zoom_commute (a : Act α) (b : Act β) {p q : List Segment} (h : Diverge p q) (t : Ty)
    (pd : ParamDescriptor) : (zoom a p t pd).Commute (zoom b q t pd) := by
  induction p generalizing q t pd with
  | nil => exact absurd (List.nil_prefix) h.1
  | cons segment p ih =>
    cases q with
    | nil => exact absurd (List.nil_prefix) h.2
    | cons other q =>
      by_cases hs : segment = other
      · subst hs
        have hboth : (zoom a p).both (zoom b q) = ((zoom b q).both (zoom a p)).map Prod.swap :=
          funext fun t => funext fun pd => ih h.of_cons t pd
        have hchild := congrArg (zoomChild segment) hboth
        rw [zoomChild_both, zoomChild_map, zoomChild_both] at hchild
        exact congrFun (congrFun hchild t) pd
      · exact zoomChild_commute segment other hs _ _ t pd

end Commutation

end Catena.Store
