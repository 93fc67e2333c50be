import Catena.Store.Every
import Catena.Store.Run

/-!
# Invariants of the nodes

A property of single nodes that holds all over the device is kept by an entry when what the
entry writes has the property at every node, and when a node that has it keeps it while
something below it changes.
-/

namespace Catena.Store

open Catena.Framework

def Node.below (n : Node) (path : List Segment) : Option Node :=
  (focus path n.ty n.descriptor n.value).map Param.node

theorem Node.below_cons (n : Node) (segment : Segment) (path : List Segment) :
    n.below (segment :: path) =
      (focusChild segment n.ty n.descriptor n.value).bind fun c => c.node.below path := by
  simp only [Node.below, focus, Option.map_bind, Option.map_map, Function.comp_def]
  rfl

theorem Node.below_vector_index (e : ElemTy) (pd : ParamDescriptor) (v : List e.Val) (i : Nat)
    (path : List Segment) :
    (Node.mk (.vector e) pd v).below (.index i :: path) =
      v[i]?.bind fun x => (Node.mk (.elem e) pd x).below path := by
  rw [Node.below_cons]
  simp only [focusChild]
  cases v[i]? with
  | none => rfl
  | some x => rfl

/-- A property that a node keeps while something below it changes. -/
def NodeProp.Stable (P : NodeProp) : Prop :=
  ∀ (segment : Segment) (a : Act Unit) (t : Ty) (pd : ParamDescriptor) (v v' : t.Val),
    zoomChild segment a t pd v = some ((), v') → P t pd v → P t pd v'

section Every

variable {P : NodeProp}

theorem Ty.Every.self {t : Ty} {pd : ParamDescriptor} {v : t.Val} (h : t.Every P pd v) :
    P t pd v := by
  cases t with
  | empty type subParams => exact h
  | vector e => exact h.1
  | elem e =>
    cases e with
    | int32 | float | string => exact h
    | struct fields => exact h.1
    | variant name info ty alternatives => exact h.1

theorem Fields.Every.findParamByName (name : String) (pd : ParamDescriptor) :
    (fields : Fields) → (xs : fields.Vals) → (member : MemberRef fields.Vals) →
    fields.Every P pd xs → fields.findParamByName xs name = some member →
    member.ty.Every P (pd.getSubParam member.info member.ty) member.value
  | .nil, _, _, _, h => by cases h
  | .cons field info ty rest, (x, xs), member, hall, h => by
    by_cases hn : field = name
    · simp only [Fields.findParamByName, hn, if_true] at h
      obtain rfl := Option.some.inj h
      exact hall.1
    · simp only [Fields.findParamByName, hn, if_false] at h
      obtain ⟨inner, hinner, rfl⟩ := Option.map_eq_some_iff.mp h
      exact Fields.Every.findParamByName name pd rest xs inner hall.2 hinner

theorem Fields.EveryAlt.visit (pd : ParamDescriptor) : (alternatives : Fields) →
    (v : alternatives.Alt) → alternatives.EveryAlt P pd v →
    (alternatives.visit v).2.ty.Every P
      (pd.getSubParam (alternatives.visit v).2.info (alternatives.visit v).2.ty)
      (alternatives.visit v).2.value
  | .nil, v, _ => Empty.elim v
  | .cons _ _ _ _, .inl _, h => h
  | .cons _ _ _ rest, .inr y, h => Fields.EveryAlt.visit pd rest y h

/-- Every node below a value has what every node of the value has. -/
theorem Ty.Every.below (hempty : ∀ type subParams pd v, P (.empty type subParams) pd v)
    {path : List Segment} {t : Ty} {pd : ParamDescriptor} {v : t.Val} {n : Node}
    (h : t.Every P pd v) (hn : (Node.mk t pd v).below path = some n) :
    P n.ty n.descriptor n.value := by
  induction path generalizing t pd v with
  | nil =>
    obtain rfl := Option.some.inj hn
    exact h.self
  | cons segment path ih =>
    rw [Node.below_cons] at hn
    obtain ⟨c, hc, hrest⟩ := Option.bind_eq_some_iff.mp hn
    refine ih ?_ hrest
    cases t with
    | empty type subParams =>
      obtain ⟨found, _, rfl⟩ := Option.map_eq_some_iff.mp hc
      exact hempty _ _ _ _
    | vector e =>
      change List e.Val at v
      cases segment with
      | name oid => cases hc
      | index i =>
        obtain ⟨x, hx, rfl⟩ := Option.map_eq_some_iff.mp hc
        exact h.2 x (List.mem_of_getElem? hx)
    | elem e =>
      cases e with
      | int32 | float | string => cases hc
      | struct fields =>
        cases segment with
        | index i => cases hc
        | name oid =>
          obtain ⟨member, hmember, rfl⟩ := Option.map_eq_some_iff.mp hc
          exact Fields.Every.findParamByName oid pd fields v member h.2 hmember
      | variant name info ty alternatives =>
        cases segment with
        | index i => cases hc
        | name oid =>
          simp only [focusChild] at hc
          split at hc
          · obtain rfl := Option.some.inj hc
            refine Fields.EveryAlt.visit pd (.cons name info ty alternatives) v ?_
            rcases v with x | y
            · exact h.2
            · exact h.2
          · cases hc

theorem exists_of_mem_mapM {α β : Type} {f : α → Option β} {xs : List α} {ys : List β}
    (h : xs.mapM f = some ys) : ∀ y ∈ ys, ∃ x ∈ xs, f x = some y := by
  induction xs generalizing ys with
  | nil =>
    obtain rfl : [] = ys := Option.some.inj h
    simp
  | cons x xs ih =>
    rw [List.mapM_cons] at h
    obtain ⟨y, hy, hrest⟩ := Option.bind_eq_some_iff.mp h
    obtain ⟨zs, hzs, hcons⟩ := Option.bind_eq_some_iff.mp hrest
    obtain rfl : y :: zs = ys := Option.some.inj hcons
    rintro z (_ | ⟨_, hz⟩)
    · exact ⟨x, by simp, hy⟩
    · obtain ⟨w, hw, hfw⟩ := ih hzs z hz
      exact ⟨w, by simp [hw], hfw⟩

section Valid

set_option linter.unusedSectionVars false

variable (authz : Authorizer) (hP : ∀ t pd src x, (validFromProto authz t pd src).isOk = true →
  denote t pd src = some x → P t pd x)
include hP

mutual

/-- What a valid source denotes has a property everywhere if what any valid source denotes has
it at its top. -/
theorem every_of_valid : (t : Ty) → (pd : ParamDescriptor) → (src : Value) → (x : t.Val) →
    (validFromProto authz t pd src).isOk = true → denote t pd src = some x → t.Every P pd x
  | .empty _ _, pd, src, x, hv, hx => hP _ pd src x hv hx
  | .elem e, pd, src, x, hv, hx => every_of_validElem e pd src x hv hx
  | .vector e, pd, src, (x : List e.Val), hv, hx => by
    refine ⟨hP (.vector e) pd src x hv hx, fun y hy => ?_⟩
    obtain ⟨_, items, hitems, _, _, hvalid⟩ := (validFromProto_vector authz pd src e).mp hv
    simp only [denote, hitems] at hx
    obtain ⟨item, hitem, hden⟩ := exists_of_mem_mapM hx y hy
    exact every_of_validElem e pd item y (hvalid item hitem) hden

theorem every_of_validElem : (e : ElemTy) → (pd : ParamDescriptor) → (src : Value) →
    (x : e.Val) → (validFromProtoElem authz e pd src).isOk = true →
    denoteElem e pd src = some x → e.Every P pd x
  | .int32, pd, src, x, hv, hx => hP (.elem .int32) pd src x hv hx
  | .float, pd, src, x, hv, hx => hP (.elem .float) pd src x hv hx
  | .string, pd, src, x, hv, hx => hP (.elem .string) pd src x hv hx
  | .struct fields, pd, src, x, hv, hx => by
    refine ⟨hP (.elem (.struct fields)) pd src x hv hx, ?_⟩
    obtain ⟨_, srcFields, rfl, hf⟩ := (validFromProtoElem_struct authz pd src fields).mp hv
    exact every_of_validFields fields pd srcFields x hf hx
  | .variant name info ty alternatives, pd, src, x, hv, hx => by
    refine ⟨hP (.elem (.variant name info ty alternatives)) pd src x hv hx, ?_⟩
    obtain ⟨_, variantType, value, rfl, ha⟩ :=
      (validFromProtoElem_variant authz pd src name info ty alternatives).mp hv
    simp only [denoteElem, Value.structVariant?, Option.bind_some] at hx
    obtain ⟨hname, hvalue⟩ | ⟨hname, hvalue⟩ := (validFromProtoAlt_cons ..).mp ha
    · simp only [hname, if_true] at hx
      obtain ⟨y, hy, rfl⟩ := Option.map_eq_some_iff.mp hx
      exact every_of_valid ty _ value y hvalue hy
    · simp only [hname, if_false] at hx
      obtain ⟨y, hy, rfl⟩ := Option.map_eq_some_iff.mp hx
      exact every_of_validAlt alternatives pd variantType value y hvalue hy

theorem every_of_validFields : (fields : Fields) → (pd : ParamDescriptor) →
    (srcFields : List (String × Value)) → (xs : fields.Vals) →
    (validFromProtoFields authz fields pd srcFields).isOk = true →
    denoteFields fields pd srcFields = some xs → fields.Every P pd xs
  | .nil, _, _, _, _, _ => trivial
  | .cons name info ty rest, pd, srcFields, xs, hv, hx => by
    obtain ⟨⟨value, hfind, hvalue⟩, hrest⟩ :=
      (validFromProtoFields_cons authz pd name info ty rest srcFields).mp hv
    simp only [denoteFields, hfind, Option.bind_some] at hx
    obtain ⟨y, hy, hx⟩ := Option.bind_eq_some_iff.mp hx
    obtain ⟨ys, hys, rfl⟩ := Option.map_eq_some_iff.mp hx
    exact ⟨every_of_valid ty _ value y hvalue hy,
      every_of_validFields rest pd srcFields ys hrest hys⟩

theorem every_of_validAlt : (alternatives : Fields) → (pd : ParamDescriptor) →
    (variantType : String) → (value : Value) → (x : alternatives.Alt) →
    (validFromProtoAlt authz alternatives pd variantType value).isOk = true →
    denoteAlt alternatives pd variantType value = some x → alternatives.EveryAlt P pd x
  | .nil, _, _, _, x, _, _ => Empty.elim x
  | .cons name info ty rest, pd, variantType, value, x, hv, hx => by
    obtain ⟨hname, hvalue⟩ | ⟨hname, hvalue⟩ := (validFromProtoAlt_cons ..).mp hv
    · simp only [denoteAlt, hname, if_true] at hx
      obtain ⟨y, hy, rfl⟩ := Option.map_eq_some_iff.mp hx
      exact every_of_valid ty _ value y hvalue hy
    · simp only [denoteAlt, hname, if_false] at hx
      obtain ⟨y, hy, rfl⟩ := Option.map_eq_some_iff.mp hx
      exact every_of_validAlt rest pd variantType value y hvalue hy

end

end Valid

end Every

theorem prefix_or_diverge (p q : List Segment) :
    (∃ r, q = p ++ r) ∨ (∃ segment r, p = q ++ segment :: r) ∨ Diverge p q := by
  by_cases hpq : p <+: q
  · obtain ⟨r, rfl⟩ := hpq
    exact .inl ⟨r, rfl⟩
  · by_cases hqp : q <+: p
    · obtain ⟨r, rfl⟩ := hqp
      cases r with
      | nil => exact absurd (by simp) hpq
      | cons segment r => exact .inr (.inl ⟨segment, r, rfl⟩)
    · exact .inr (.inr ⟨hpq, hqp⟩)

namespace Device

variable {α : Type} (d : Device)

theorem ne_nil_of_nodeAt {s : d.State} {path : List Segment} {n : Node}
    (h : d.nodeAt s path = some n) : path ≠ [] := by
  rintro rfl
  cases h

theorem readAuthz_of_readableAlong {s : d.State} {authz : Authorizer} {path : List Segment}
    {n : Node} (hne : path ≠ [])
    (hread : d.ReadableAlong authz path) (hnode : d.nodeAt s path = some n) :
    authz.readAuthz n.descriptor = true := by
  have happend := d.readableAlong_append authz path [] hne
  rw [List.append_nil] at happend
  exact (happend.mp hread).2 _ (d.descend_of_nodeAt hnode)

theorem nodeAt_append (s : d.State) (path path' : List Segment) (h : path ≠ []) :
    d.nodeAt s (path ++ path') = (d.nodeAt s path).bind fun n => n.below path' := by
  simp only [nodeAt, d.focus_append s path path' h, Option.map_bind, Option.map_map,
    Option.bind_map, Function.comp_def]
  rfl

theorem nodeAt_of_zoom_above {s s' : d.State} {q r : List Segment} {segment : Segment}
    {a : Act α} {x : α} (hq : q ≠ []) (h : d.zoom a (q ++ segment :: r) s = some (x, s')) :
    ∃ n v, d.nodeAt s q = some n ∧
      zoomChild segment (Store.zoom a r) n.ty n.descriptor n.value = some (x, v) ∧
      d.nodeAt s' q = some ⟨n.ty, n.descriptor, v⟩ := by
  rw [d.zoom_append a q (segment :: r) hq] at h
  exact d.nodeAt_of_zoom h

/-- A property holds at every node of the device. -/
def Holds (P : NodeProp) (s : d.State) : Prop :=
  ∀ path n, d.nodeAt s path = some n → P n.ty n.descriptor n.value

theorem holds_of_every {P : NodeProp}
    (hempty : ∀ type subParams pd v, P (.empty type subParams) pd v) {s : d.State}
    (h : ∀ oid member, d.params.findParamByName s oid = some member →
      member.ty.Every P (d.descriptor member.info member.ty) member.value) : d.Holds P s := by
  intro path n hn
  match path with
  | [] | .index _ :: _ => cases hn
  | .name oid :: rest =>
    obtain ⟨p, hp, rfl⟩ := Option.map_eq_some_iff.mp hn
    obtain ⟨member, hmember, hrest⟩ := Option.bind_eq_some_iff.mp hp
    obtain ⟨q, hq, rfl⟩ := Option.map_eq_some_iff.mp hrest
    exact (h oid member hmember).below hempty (congrArg (Option.map Param.node) hq)

theorem nodes_of_zoom (Q : List Segment → Node → Prop) {a : Act α} {path : List Segment}
    {s s' : d.State} {x : α} (h : d.zoom a path s = some (x, s'))
    (hbelow : ∀ n v r m, d.nodeAt s path = some n → a n.ty n.descriptor n.value = some (x, v) →
      (Node.mk n.ty n.descriptor v).below r = some m → Q (path ++ r) m)
    (habove : ∀ q segment r n v, path = q ++ segment :: r → d.nodeAt s q = some n →
      zoomChild segment (Store.zoom a r) n.ty n.descriptor n.value = some (x, v) → Q q n →
      Q q ⟨n.ty, n.descriptor, v⟩)
    (hs : ∀ q n, d.nodeAt s q = some n → Q q n) : ∀ q n, d.nodeAt s' q = some n → Q q n := by
  intro q m hm
  obtain ⟨n, v, hn, hact, hn'⟩ := d.nodeAt_of_zoom h
  obtain ⟨r, rfl⟩ | ⟨segment, r, rfl⟩ | hdiv := prefix_or_diverge path q
  · rw [d.nodeAt_append s' path r (d.ne_nil_of_nodeAt hn), hn', Option.bind_some] at hm
    exact hbelow n v r m hn hact hm
  · obtain ⟨k, w, hk, hchild, hk'⟩ := d.nodeAt_of_zoom_above (d.ne_nil_of_nodeAt hm) h
    obtain rfl := Option.some.inj (hk'.symm.trans hm)
    exact habove q segment r k w rfl hk hchild (hs q k hk)
  · exact hs q m ((d.nodeAt_of_zoom_diverge hdiv h).symm.trans hm)

/-- The nodes after the effect of an entry. -/
theorem nodes_of_apply (Q : List Segment → Node → Prop) {path : List Segment} {src : Value}
    {s s' : d.State} (h : d.apply path src s = some ((), s'))
    (hset : ¬Path.IsAppend path → ∀ t pd x r m, d.descend path = some (t, pd) →
      denote t pd src = some x → (Node.mk t pd x).below r = some m → Q (path ++ r) m)
    (hpush : Path.IsAppend path → ∀ e pd v x,
      d.nodeAt s (Path.popBack path) = some ⟨.vector e, pd, v⟩ → denoteElem e pd src = some x →
      Q (Path.popBack path) ⟨.vector e, pd, List.append v [x]⟩ ∧ ∀ r m,
        (Node.mk (.elem e) pd x).below r = some m →
          Q (Path.popBack path ++ .index (List.length v) :: r) m)
    (habove : ∀ q segment r n v, Path.target path = q ++ segment :: r → d.nodeAt s q = some n →
      zoomChild segment (Store.zoom (entryAct path src) r) n.ty n.descriptor n.value =
        some ((), v) → Q q n → Q q ⟨n.ty, n.descriptor, v⟩)
    (hs : ∀ q n, d.nodeAt s q = some n → Q q n) : ∀ q n, d.nodeAt s' q = some n → Q q n := by
  by_cases happ : Path.IsAppend path
  · simp only [apply, happ, if_true] at h
    simp only [Path.target, entryAct, happ, if_true] at habove
    refine d.nodes_of_zoom Q h ?_ habove hs
    rintro ⟨t, pd, v⟩ w r m hn hact hm
    cases t with
    | empty type subParams => cases hact
    | elem e => cases hact
    | vector e =>
      change List e.Val at v
      obtain ⟨x, hx, hw⟩ := Option.map_eq_some_iff.mp hact
      obtain ⟨_, rfl⟩ := Prod.mk.inj hw
      obtain ⟨hvector, helem⟩ := hpush happ e pd v x hn hx
      cases r with
      | nil =>
        obtain rfl := Option.some.inj hm
        rw [List.append_nil]
        exact hvector
      | cons segment r =>
        cases segment with
        | name oid => cases hm
        | index i =>
          have hbelow := Node.below_vector_index e pd (v ++ [x]) i r
          obtain ⟨y, hy, hm'⟩ := Option.bind_eq_some_iff.mp (hbelow.symm.trans hm)
          obtain hi | hi := Nat.lt_or_ge i v.length
          · rw [List.getElem?_append_left hi] at hy
            refine hs (Path.popBack path ++ .index i :: r) m ?_
            rw [d.nodeAt_append _ _ _ (d.ne_nil_of_nodeAt hn), hn, Option.bind_some,
              Node.below_vector_index, hy, Option.bind_some, hm']
          · rw [List.getElem?_append_right hi] at hy
            obtain rfl := List.mem_singleton.mp (List.mem_of_getElem? hy)
            obtain rfl : i = v.length := by
              have := (List.getElem?_eq_some_iff.mp hy).1
              simp only [List.length_singleton] at this
              omega
            exact helem r m hm'
  · simp only [apply, happ, if_false] at h
    simp only [Path.target, entryAct, happ, if_false] at habove
    refine d.nodes_of_zoom Q h ?_ habove hs
    rintro ⟨t, pd, v⟩ w r m hn hact hm
    obtain ⟨x, hx, hw⟩ := Option.map_eq_some_iff.mp hact
    obtain ⟨_, rfl⟩ := Prod.mk.inj hw
    exact hset happ t pd x r m (d.descend_of_nodeAt hn) hx hm

theorem holds_of_apply {P : NodeProp} (hstable : P.Stable)
    (hempty : ∀ type subParams pd v, P (.empty type subParams) pd v) {path : List Segment}
    {src : Value} {s s' : d.State} (h : d.apply path src s = some ((), s'))
    (hset : ¬Path.IsAppend path → ∀ t pd x, d.descend path = some (t, pd) →
      denote t pd src = some x → t.Every P pd x)
    (hpush : Path.IsAppend path → ∀ e pd v x,
      d.nodeAt s (Path.popBack path) = some ⟨.vector e, pd, v⟩ → denoteElem e pd src = some x →
      e.Every P pd x ∧ P (.vector e) pd (List.append v [x]))
    (hs : d.Holds P s) : d.Holds P s' := by
  refine d.nodes_of_apply (fun _ n => P n.ty n.descriptor n.value) h ?_ ?_ ?_ hs
  · intro happ t pd x r m hd hx hm
    exact (hset happ t pd x hd hx).below hempty hm
  · intro happ e pd v x hn hx
    obtain ⟨hevery, hvector⟩ := hpush happ e pd v x hn hx
    have helem : (Ty.elem e).Every P pd x := hevery
    exact ⟨hvector, fun r m hm => helem.below hempty hm⟩
  · intro q segment r n v _ _ hchild hn
    exact hstable segment _ n.ty n.descriptor n.value v hchild hn

end Device

end Catena.Store
