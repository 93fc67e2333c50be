import Mathlib.Data.List.Nodup
import Catena.Codegen.CppGen
import Catena.Framework.Declarations
import Catena.Framework.Throws

/-!
# Generated names

The name of a descriptor is made of the identifiers on the way to its param, the name of a
constraint of the oids on the way to the param that owns it. Both join them with underscores, which
identifiers may have too. Names of different kinds end, or begin, differently.
-/

namespace Catena.Codegen

open Catena.Framework

/-! ## Unambiguous names -/

inductive Kind where
  | constraint
  | value
  | descriptor
  | object
  deriving DecidableEq

namespace Decl

def kind : Decl → Kind
  | constraint _ _ => .constraint
  | value _ _ => .value
  | descriptor _ _ _ _ _ => .descriptor
  | paramWithValue _ _ _ _ => .object

def name : Decl → String
  | constraint _ name => name
  | value _ decl => decl.name
  | descriptor _ _ name _ _ => name
  | paramWithValue _ name _ _ => name

/-- The arguments of a descriptor are the names of what was declared before for its constraint and
for the param above it. -/
def Legal (before : List Decl) : Decl → Prop
  | descriptor place intended _ constraintArg parentArg =>
      (∀ arg, constraintArg = some arg →
        ∃ c, intended = some c ∧ Decl.constraint c arg ∈ before) ∧
      ∀ arg, parentArg = some arg →
        ∃ above oid c constraintArg' parentArg', place = above.sub oid ∧
          Decl.descriptor above c arg constraintArg' parentArg' ∈ before
  | _ => True

end Decl

/-! ## The params that get descriptors -/

/-- The start of the names for a param: the identifiers from the top on, each after an
underscore. -/
def joined (identifiers : List String) : String := prefixed "_" identifiers

/-- A param where it is presented, perhaps as a part of a templated param. -/
structure Presented where
  place : Place
  /-- The identifiers of the params above it. -/
  above : List String
  oid : String
  constraint : Option Constraint

namespace Presented

def identifiers (p : Presented) : List String := p.above ++ [getCppIdentifier p.oid]

def descriptorName (p : Presented) : String := joined p.identifiers ++ "Descriptor"

def write (body : Body) (p : Presented) : Body :=
  body.writeDescriptor p.place p.oid p.constraint (joined p.above)

end Presented

mutual

/-- A param and everything below it, in the order of the descriptors. -/
def Param.presented (place : Place) (above : List String) : Param → List Presented
  | { oid, type, constraint, template_param, subParams, .. } =>
      let above' := above ++ [getCppIdentifier oid]
      { place, above, oid, constraint } ::
        if Codegen.hasTypeInfo type then
          match template_param with
          | none => presentedAll place above' subParams
          | some template =>
              if template.hasTypeInfo then template.presentedSubParams place above'
              else presentedAll place above' subParams
        else []

def Param.presentedSubParams (place : Place) (above : List String) : Param → List Presented
  | { template_param, subParams, .. } =>
      match template_param with
      | none => presentedAll place above subParams
      | some template =>
          if template.hasTypeInfo then template.presentedSubParams place above
          else presentedAll place above subParams

def presentedAll (place : Place) (above : List String) : List Param → List Presented
  | [] => []
  | subParam :: rest =>
      subParam.presented (place.sub subParam.oid) above ++ presentedAll place above rest

end

/-- The params of the device and then its commands, each with its place. -/
def Device.topLevel (device : Device) : List (Place × Param) :=
  device.params.map (fun param => (⟨.params, [param.oid]⟩, param)) ++
    device.commands.map fun param => (⟨.commands, [param.oid]⟩, param)

def Device.presented (device : Device) : List Presented :=
  device.topLevel.flatMap fun (place, param) => param.presented place []

/-- Every param has its descriptor. No two variables have the same name, except perhaps two values,
and all arguments are names of the right variables. -/
structure Unambiguous (gen : CppGen) : Prop where
  declared : ∀ p ∈ gen.device.presented, ∃ constraintArg parentArg,
    Decl.descriptor p.place p.constraint p.descriptorName constraintArg parentArg ∈ gen.body.decls
  unique : gen.body.decls.Pairwise (NamedApart Decl.kind Decl.name .value)
  legal : InOrder Decl.Legal gen.body.decls

/-! ## Distinct names -/

/-- The names of each kind are distinct, and no value has the name of something else. -/
structure DistinctNames (device : Device) : Prop where
  /-- No two params, sub-params or commands have the same identifiers joined. -/
  identifiers : (device.presented.map fun p => joined p.identifiers).Nodup
  /-- No two params with constraints of their own have the same oids joined. -/
  owners : ∀ p ∈ device.presented, ∀ p' ∈ device.presented, ∀ owner owner' : Place,
    p.constraint = some (.own owner) → p'.constraint = some (.own owner') →
    replaceSlashes owner.getFQOid = replaceSlashes owner'.getFQOid → owner = owner'
  values : ∀ top ∈ device.topLevel, top.2.value.isSome →
    (∀ p ∈ device.presented, top.2.cppIdentifier ≠ p.descriptorName) ∧
    (∀ p ∈ device.presented, ∀ c, p.constraint = some c →
      top.2.cppIdentifier ≠ c.variableName) ∧
    (∀ oid ∈ device.constraints, top.2.cppIdentifier ≠ "shared_" ++ oid) ∧
    ∀ other ∈ device.topLevel, top.2.cppIdentifier ≠ "_" ++ other.2.cppIdentifier ++ "Param"

/-! ## Writing is writing one after the other -/

theorem joined_append (above : List String) (identifier : String) :
    joined (above ++ [identifier]) = joined above ++ "_" ++ identifier := by
  unfold joined prefixed
  rw [List.foldl_append]
  rfl

mutual

theorem writeConstraintsAndDescriptors_eq (param : Param) (place : Place) (above : List String)
    (body : Body) : param.writeConstraintsAndDescriptors place (joined above) body =
      (param.presented place above).foldl Presented.write body := by
  obtain ⟨oid, namespaceName, type, value, isCommand, constraint, template_param, subParams⟩ := param
  rw [Param.writeConstraintsAndDescriptors.eq_def, Param.presented.eq_def]
  simp only [List.foldl_cons, ← joined_append]
  cases Codegen.hasTypeInfo type with
  | false => rfl
  | true =>
    cases template_param with
    | none => exact writeSubParams_eq subParams place _ _
    | some template =>
      cases hinfo : template.hasTypeInfo with
      | false =>
        simp only [hinfo]
        exact writeSubParams_eq subParams place _ _
      | true =>
        simp only [hinfo]
        exact writeGetSubParams_eq template place _ _

theorem writeGetSubParams_eq (param : Param) (place : Place) (above : List String) (body : Body) :
    param.writeGetSubParams place (joined above) body =
      (param.presentedSubParams place above).foldl Presented.write body := by
  obtain ⟨oid, namespaceName, type, value, isCommand, constraint, template_param, subParams⟩ := param
  rw [Param.writeGetSubParams.eq_def, Param.presentedSubParams.eq_def]
  cases template_param with
  | none => exact writeSubParams_eq subParams place _ _
  | some template =>
    cases hinfo : template.hasTypeInfo with
    | false =>
      simp only [hinfo]
      exact writeSubParams_eq subParams place _ _
    | true =>
      simp only [hinfo]
      exact writeGetSubParams_eq template place _ _

theorem writeSubParams_eq (subParams : List Param) (place : Place) (above : List String)
    (body : Body) : writeSubParams place (joined above) body subParams =
      (presentedAll place above subParams).foldl Presented.write body := by
  match subParams with
  | [] => rfl
  | subParam :: rest =>
    rw [writeSubParams, presentedAll, List.foldl_append,
      ← writeConstraintsAndDescriptors_eq subParam]
    exact writeSubParams_eq rest place above _

end

/-! ## Parents come first -/

/-- Each param is at the top, or below one that comes before it. -/
inductive Rooted : List Presented → List Presented → Prop
  | nil {before : List Presented} : Rooted before []
  | cons {before rest : List Presented} {p : Presented}
      (h : p.above = [] ∨ ∃ q ∈ before, p.place = q.place.sub p.oid ∧ p.above = q.identifiers)
      (hrest : Rooted (before ++ [p]) rest) : Rooted before (p :: rest)

theorem Rooted.append {before l l' : List Presented} (h : Rooted before l)
    (h' : Rooted (before ++ l) l') : Rooted before (l ++ l') := by
  induction h with
  | nil => rwa [List.append_nil] at h'
  | cons h _ ih =>
    apply Rooted.cons h
    apply ih
    rwa [List.append_assoc]

mutual

theorem Param.rooted (param : Param) {place : Place} {above : List String}
    {before : List Presented}
    (h : above = [] ∨ ∃ q ∈ before, place = q.place.sub param.oid ∧ above = q.identifiers) :
    Rooted before (param.presented place above) := by
  obtain ⟨oid, namespaceName, type, value, isCommand, constraint, template_param, subParams⟩ := param
  rw [Param.presented.eq_def]
  apply Rooted.cons h
  have hself : ∃ q ∈ before ++ [(⟨place, above, oid, constraint⟩ : Presented)],
      q.place = place ∧ q.identifiers = above ++ [getCppIdentifier oid] :=
    ⟨_, List.mem_append_right _ List.mem_cons_self, rfl, rfl⟩
  cases Codegen.hasTypeInfo type with
  | false => exact Rooted.nil
  | true =>
    cases template_param with
    | none => exact presentedAll_rooted subParams hself
    | some template =>
      cases hinfo : template.hasTypeInfo with
      | false =>
        simp only [hinfo]
        exact presentedAll_rooted subParams hself
      | true =>
        simp only [hinfo]
        exact presentedSubParams_rooted template hself

theorem presentedSubParams_rooted (param : Param) {place : Place} {above : List String}
    {before : List Presented} (h : ∃ q ∈ before, q.place = place ∧ q.identifiers = above) :
    Rooted before (param.presentedSubParams place above) := by
  obtain ⟨oid, namespaceName, type, value, isCommand, constraint, template_param, subParams⟩ := param
  rw [Param.presentedSubParams.eq_def]
  cases template_param with
  | none => exact presentedAll_rooted subParams h
  | some template =>
    cases hinfo : template.hasTypeInfo with
    | false =>
      simp only [hinfo]
      exact presentedAll_rooted subParams h
    | true =>
      simp only [hinfo]
      exact presentedSubParams_rooted template h

theorem presentedAll_rooted (subParams : List Param) {place : Place} {above : List String}
    {before : List Presented} (h : ∃ q ∈ before, q.place = place ∧ q.identifiers = above) :
    Rooted before (presentedAll place above subParams) := by
  match subParams with
  | [] => exact Rooted.nil
  | subParam :: rest =>
    obtain ⟨q, hq, hplace, hid⟩ := h
    rw [presentedAll]
    apply Rooted.append
    · apply subParam.rooted
      exact Or.inr ⟨q, hq, by rw [hplace], hid.symm⟩
    · apply presentedAll_rooted rest
      exact ⟨q, List.mem_append_left _ hq, hplace, hid⟩

end

/-! ## What holds of the body -/

/-- What the body contains after these constraints, params, values and objects. -/
structure Body.Holds (body : Body) (known : Constraint → Prop) (presented : List Presented)
    (values objects : List String) : Prop where
  legal : InOrder Decl.Legal body.decls
  descriptors : namesOf Decl.kind Decl.name .descriptor body.decls =
    presented.map Presented.descriptorName
  values : namesOf Decl.kind Decl.name .value body.decls = values
  objects : namesOf Decl.kind Decl.name .object body.decls = objects
  constraints : namesOf Decl.kind Decl.name .constraint body.decls =
    body.initialized.map Constraint.variableName
  nodup : body.initialized.Nodup
  initialized : ∀ c, c ∈ body.initialized ↔ known c
  declared : ∀ c ∈ body.initialized, Decl.constraint c c.variableName ∈ body.decls
  described : ∀ p ∈ presented, ∃ constraintArg parentArg,
    Decl.descriptor p.place p.constraint p.descriptorName constraintArg parentArg ∈ body.decls

namespace Body.Holds

variable {body : Body} {known : Constraint → Prop} {presented : List Presented}
  {values objects : List String}

/-- A value or an object is added. -/
theorem write (h : body.Holds known presented values objects) {d : Decl}
    (hd : d.kind = .value ∨ d.kind = .object) :
    (body.write d).Holds known presented (values ++ namesOf Decl.kind Decl.name .value [d])
      (objects ++ namesOf Decl.kind Decl.name .object [d]) where
  legal := by
    apply h.legal.snoc
    cases d with
    | descriptor => rcases hd with hd | hd <;> exact nomatch hd
    | _ => trivial
  descriptors := by
    rw [Body.write, namesOf_append, h.descriptors, namesOf_cons_of_ne]
    · exact List.append_nil _
    · rcases hd with hd | hd <;> rw [hd] <;> decide
  values := by rw [Body.write, namesOf_append, h.values]
  objects := by rw [Body.write, namesOf_append, h.objects]
  constraints := by
    rw [Body.write, namesOf_append, h.constraints, namesOf_cons_of_ne]
    · exact List.append_nil _
    · rcases hd with hd | hd <;> rw [hd] <;> decide
  nodup := h.nodup
  initialized := h.initialized
  declared c hc := List.mem_append_left _ (h.declared c hc)
  described p hp := by
    obtain ⟨constraintArg, parentArg, hmem⟩ := h.described p hp
    exact ⟨constraintArg, parentArg, List.mem_append_left _ hmem⟩

theorem writeConstraint (h : body.Holds known presented values objects) {c : Constraint}
    (hc : ¬ known c) :
    (body.writeConstraint c).Holds (fun c' => known c' ∨ c' = c) presented values objects where
  legal := h.legal.snoc trivial
  descriptors := by
    rw [Body.writeConstraint, namesOf_append, h.descriptors]
    exact List.append_nil _
  values := by
    rw [Body.writeConstraint, namesOf_append, h.values]
    exact List.append_nil _
  objects := by
    rw [Body.writeConstraint, namesOf_append, h.objects]
    exact List.append_nil _
  constraints := by
    rw [Body.writeConstraint, namesOf_append, h.constraints, List.map_append]
    rfl
  nodup := by
    apply List.nodup_append.mpr
    refine ⟨h.nodup, List.pairwise_singleton _ c, ?_⟩
    intro c' hc' c₁ hc₁ heq
    apply hc
    rw [← List.mem_singleton.mp hc₁, ← heq]
    exact (h.initialized c').mp hc'
  initialized c' := by
    rw [Body.writeConstraint, List.mem_append, h.initialized c', List.mem_singleton]
  declared c' hc' := by
    rcases List.mem_append.mp hc' with hc' | hc'
    · exact List.mem_append_left _ (h.declared c' hc')
    · obtain rfl := List.mem_singleton.mp hc'
      exact List.mem_append_right _ List.mem_cons_self
  described p hp := by
    obtain ⟨constraintArg, parentArg, hmem⟩ := h.described p hp
    exact ⟨constraintArg, parentArg, List.mem_append_left _ hmem⟩

theorem congr {known' : Constraint → Prop} (h : body.Holds known presented values objects)
    (hknown : ∀ c, known c ↔ known' c) : body.Holds known' presented values objects :=
  { h with initialized := fun c => (h.initialized c).trans (hknown c) }

theorem declareConstraint (h : body.Holds known presented values objects)
    (constraint : Option Constraint) :
    (body.declareConstraint constraint).Holds (fun c => known c ∨ constraint = some c) presented
      values objects := by
  cases constraint with
  | none => exact h.congr fun c => ⟨Or.inl, fun hc => hc.resolve_right (fun hn => nomatch hn)⟩
  | some c =>
    rw [Body.declareConstraint]
    split
    · rename_i hmem
      apply h.congr
      intro c'
      refine ⟨Or.inl, ?_⟩
      rintro (hc' | heq)
      · exact hc'
      · exact (h.initialized c').mp (Option.some.inj heq ▸ hmem)
    · rename_i hmem
      apply (h.writeConstraint fun hc => hmem ((h.initialized c).mpr hc)).congr
      intro c'
      rw [Option.some.injEq, eq_comm]

theorem joined_ne_empty (above : List String) (identifier : String) :
    joined (above ++ [identifier]) ≠ "" := by
  intro h
  rw [joined_append] at h
  have hchars := congrArg String.toList h
  rw [String.toList_append, String.toList_append] at hchars
  exact nomatch (List.append_eq_nil_iff.mp (List.append_eq_nil_iff.mp hchars).1).2

/-- The descriptor of a param with a known constraint, below a param that has one. -/
theorem writeDescriptor (h : body.Holds known presented values objects) {p : Presented}
    (hconstraint : ∀ c, p.constraint = some c → known c)
    (hparent : p.above = [] ∨
      ∃ q ∈ presented, p.place = q.place.sub p.oid ∧ p.above = q.identifiers) :
    (body.write (.descriptor p.place p.constraint p.descriptorName
      (p.constraint.map Constraint.variableName) (parentArg (joined p.above)))).Holds known
        (presented ++ [p]) values objects where
  legal := by
    apply h.legal.snoc
    constructor
    · intro arg harg
      obtain ⟨c, hc, rfl⟩ := Option.map_eq_some_iff.mp harg
      exact ⟨c, hc, h.declared c ((h.initialized c).mpr (hconstraint c hc))⟩
    · intro arg harg
      rcases hparent with htop | ⟨q, hq, hplace, habove⟩
      · rw [htop] at harg
        exact nomatch harg
      · obtain ⟨constraintArg, parentArg', hmem⟩ := h.described q hq
        refine ⟨q.place, p.oid, q.constraint, constraintArg, parentArg', hplace, ?_⟩
        have hne : joined q.identifiers ≠ "" := joined_ne_empty _ _
        rw [habove, parentArg, if_neg hne] at harg
        obtain rfl := Option.some.inj harg
        exact hmem
  descriptors := by
    rw [Body.write, namesOf_append, h.descriptors, List.map_append]
    rfl
  values := by
    rw [Body.write, namesOf_append, h.values]
    exact List.append_nil _
  objects := by
    rw [Body.write, namesOf_append, h.objects]
    exact List.append_nil _
  constraints := by
    rw [Body.write, namesOf_append, h.constraints]
    exact List.append_nil _
  nodup := h.nodup
  initialized := h.initialized
  declared c hc := List.mem_append_left _ (h.declared c hc)
  described q hq := by
    rcases List.mem_append.mp hq with hq | hq
    · obtain ⟨constraintArg, parentArg', hmem⟩ := h.described q hq
      exact ⟨constraintArg, parentArg', List.mem_append_left _ hmem⟩
    · obtain rfl := List.mem_singleton.mp hq
      exact ⟨_, _, List.mem_append_right _ List.mem_cons_self⟩

theorem write_presented (h : body.Holds known presented values objects) {p : Presented}
    (hparent : p.above = [] ∨
      ∃ q ∈ presented, p.place = q.place.sub p.oid ∧ p.above = q.identifiers) :
    (p.write body).Holds (fun c => known c ∨ p.constraint = some c) (presented ++ [p]) values
      objects := by
  have hdeclared := h.declareConstraint p.constraint
  have hwritten := hdeclared.writeDescriptor (p := p) (fun c hc => Or.inr hc) hparent
  rw [Presented.write, Body.writeDescriptor, ← joined_append]
  exact hwritten

theorem write_all {l : List Presented} (hrooted : Rooted presented l)
    (h : body.Holds known presented values objects) :
    (l.foldl Presented.write body).Holds (fun c => known c ∨ ∃ p ∈ l, p.constraint = some c)
      (presented ++ l) values objects := by
  induction hrooted generalizing body known with
  | nil =>
    rw [List.append_nil]
    exact h.congr fun c => ⟨Or.inl, fun hc => hc.resolve_right fun ⟨_, hp, _⟩ => nomatch hp⟩
  | @cons before rest p hparent _ ih =>
    have hrest := ih (h.write_presented hparent)
    rw [List.append_assoc] at hrest
    apply hrest.congr
    intro c
    rw [or_assoc, List.exists_mem_cons_iff]

end Body.Holds

/-! ## The run of the generator -/

theorem newParam_oid {device : Device} {oid namespaceName : String} {isCommand : Bool}
    {place : Place} {desc : ParamDesc} {param : Param}
    (h : newParam device oid namespaceName isCommand place desc = .ok param) : param.oid = oid := by
  obtain ⟨type, value, constraint, template_oid, params⟩ := desc
  rw [newParam.eq_def] at h
  obtain ⟨constraint, _, h⟩ := bind_eq_ok_iff.mp h
  obtain ⟨template_param, _, h⟩ := bind_eq_ok_iff.mp h
  obtain ⟨subParams, _, h⟩ := bind_eq_ok_iff.mp h
  obtain rfl := Except.ok.inj h
  rfl

theorem initializeValue_name {param : Param} {decl : ValueDecl}
    (h : param.initializeValue = .ok decl) : decl.name = param.cppIdentifier := by
  unfold Param.initializeValue at h
  obtain ⟨type, _, h⟩ := bind_eq_ok_iff.mp h
  split at h
  · obtain rfl := Except.ok.inj h
    rfl
  · obtain ⟨init, _, h⟩ := bind_eq_ok_iff.mp h
    obtain rfl := Except.ok.inj h
    rfl

def Param.objectName (param : Param) : String := "_" ++ param.cppIdentifier ++ "Param"

theorem initializeParamWithValue_ok {param : Param} {place : Place} {decl : Decl}
    (h : param.initializeParamWithValue place = .ok decl) :
    decl.kind = .object ∧ decl.name = param.objectName := by
  unfold Param.initializeParamWithValue at h
  split at h
  · obtain ⟨_, _, h⟩ := bind_eq_ok_iff.mp h
    obtain rfl := Except.ok.inj h
    exact ⟨rfl, rfl⟩
  · obtain rfl := Except.ok.inj h
    exact ⟨rfl, rfl⟩

def valueNames (tops : List (Place × Param)) : List String :=
  tops.flatMap fun top => if top.2.value.isSome then [top.2.cppIdentifier] else []

def presentedOf (tops : List (Place × Param)) : List Presented :=
  tops.flatMap fun top => top.2.presented top.1 []

theorem presentedOf_append (tops tops' : List (Place × Param)) :
    presentedOf (tops ++ tops') = presentedOf tops ++ presentedOf tops' := List.flatMap_append

/-- The constraints that are declared for these. -/
def Known (oids : List String) (presented : List Presented) (c : Constraint) : Prop :=
  (∃ oid ∈ oids, c = .shared oid) ∨ ∃ p ∈ presented, p.constraint = some c

def Body.HoldsFor (body : Body) (oids : List String) (tops : List (Place × Param)) : Prop :=
  body.Holds (Known oids (presentedOf tops)) (presentedOf tops) (valueNames tops)
    (tops.map (·.2.objectName))

theorem Body.HoldsFor.writeValue {body body' : Body} {oids : List String}
    {tops : List (Place × Param)} {place : Place} {param : Param} (h : body.HoldsFor oids tops)
    (hrun : body.writeValue place param = .ok body') :
    body'.Holds (Known oids (presentedOf tops)) (presentedOf tops)
      (valueNames (tops ++ [(place, param)])) (tops.map (·.2.objectName)) := by
  unfold valueNames
  rw [List.flatMap_append, List.flatMap_singleton]
  unfold Body.writeValue at hrun
  split at hrun
  · rename_i hsome
    obtain ⟨decl, hdecl, hrun⟩ := bind_eq_ok_iff.mp hrun
    obtain rfl := Except.ok.inj hrun
    have hwritten := h.write (d := .value place decl) (Or.inl rfl)
    rw [if_pos hsome, ← initializeValue_name hdecl, ← List.append_nil (tops.map _)]
    exact hwritten
  · rename_i hnone
    obtain rfl := Except.ok.inj hrun
    rw [if_neg hnone, List.append_nil]
    exact h

theorem Body.HoldsFor.writeParam {body body' : Body} {oids : List String}
    {tops : List (Place × Param)} {place : Place} {param : Param} (h : body.HoldsFor oids tops)
    (hrun : body.writeParam place param = .ok body') :
    body'.HoldsFor oids (tops ++ [(place, param)]) := by
  obtain ⟨body₁, hvalue, hrun⟩ := bind_eq_ok_iff.mp hrun
  obtain ⟨decl, hobject, hrun⟩ := bind_eq_ok_iff.mp hrun
  obtain rfl := Except.ok.inj hrun
  obtain ⟨hkind, hname⟩ := initializeParamWithValue_ok hobject
  have hrooted : Rooted (presentedOf tops) (param.presented place []) := param.rooted (Or.inl rfl)
  have hall := (h.writeValue hvalue).write_all hrooted
  have hobjects := hall.write (d := decl) (Or.inr hkind)
  rw [namesOf_singleton hkind, namesOf_singleton_of_ne (by rw [hkind]; decide), List.append_nil,
    hname, ← writeConstraintsAndDescriptors_eq] at hobjects
  unfold Body.HoldsFor
  have hpresented : presentedOf (tops ++ [(place, param)]) =
      presentedOf tops ++ param.presented place [] := by
    rw [presentedOf_append]
    exact congrArg _ (List.flatMap_singleton _ _)
  rw [hpresented, List.map_append]
  apply hobjects.congr
  intro c
  unfold Known
  simp only [List.mem_append, or_and_right, exists_or, or_assoc]

theorem add_topLevel {gen : CppGen} {param : Param} {root : Root}
    (h : root = .params → gen.device.commands = []) :
    (gen.add param root).topLevel = gen.device.topLevel ++ [(⟨root, [param.oid]⟩, param)] := by
  unfold Device.topLevel
  cases root with
  | params =>
    simp only [CppGen.add, h rfl]
    rw [List.map_append, List.map_nil, List.append_nil, List.append_nil]
    rfl
  | commands =>
    simp only [CppGen.add]
    rw [List.map_append, List.append_assoc]
    rfl

theorem add_constraints {gen : CppGen} {param : Param} {root : Root} :
    (gen.add param root).constraints = gen.device.constraints := by
  cases root <;> rfl

/-- What holds of the generator between two params. -/
def CppGen.Good (gen : CppGen) : Prop :=
  gen.body.HoldsFor gen.device.constraints gen.device.topLevel

theorem CppGen.Good.run_topLevel {namespaceName : String} {root : Root} :
    ∀ {descs : List (String × ParamDesc)} {gen gen' : CppGen}, gen.Good →
      (root = .params → gen.device.commands = []) →
      CppGen.topLevel namespaceName root gen descs = .ok gen' →
      gen'.Good ∧ (root = .params → gen'.device.commands = []) := by
  intro descs
  induction descs with
  | nil =>
    intro gen gen' hgood hroot h
    obtain rfl := Except.ok.inj h
    exact ⟨hgood, hroot⟩
  | cons desc descs ih =>
    intro gen gen' hgood hroot h
    obtain ⟨param, hparam, h⟩ := bind_eq_ok_iff.mp h
    obtain ⟨body, hbody, h⟩ := bind_eq_ok_iff.mp h
    apply ih _ _ h
    · unfold CppGen.Good
      rw [add_constraints, add_topLevel hroot, newParam_oid hparam]
      exact Body.HoldsFor.writeParam hgood hbody
    · intro hparams
      subst hparams
      exact hroot rfl

theorem CppGen.Good.addConstraint {gen : CppGen} {oid : String} (h : gen.Good)
    (htop : gen.device.topLevel = []) (hoid : oid ∉ gen.device.constraints) :
    (gen.addConstraint oid).Good := by
  have hnew : ¬ Known gen.device.constraints (presentedOf gen.device.topLevel)
      (.shared oid) := by
    rw [htop]
    rintro (⟨oid', hoid', heq⟩ | ⟨p, hp, _⟩)
    · exact hoid (Constraint.shared.inj heq ▸ hoid')
    · exact absurd hp List.not_mem_nil
  apply (Body.Holds.writeConstraint h hnew).congr
  intro c
  change Known gen.device.constraints (presentedOf gen.device.topLevel) c ∨ c = .shared oid ↔
    Known (gen.device.constraints ++ [oid]) (presentedOf gen.device.topLevel) c
  unfold Known
  rw [htop]
  constructor
  · rintro ((⟨oid', hoid', heq⟩ | ⟨p, hp, _⟩) | heq)
    · exact Or.inl ⟨oid', List.mem_append_left _ hoid', heq⟩
    · exact absurd hp List.not_mem_nil
    · exact Or.inl ⟨oid, List.mem_append_right _ List.mem_cons_self, heq⟩
  · rintro (⟨oid', hoid', heq⟩ | ⟨p, hp, _⟩)
    · rcases List.mem_append.mp hoid' with hoid' | hoid'
      · exact Or.inl (Or.inl ⟨oid', hoid', heq⟩)
      · exact Or.inr (List.mem_singleton.mp hoid' ▸ heq)
    · exact absurd hp List.not_mem_nil

theorem CppGen.Good.run_constraints :
    ∀ {descs : List (String × String)} {gen gen' : CppGen}, gen.Good →
      gen.device.topLevel = [] → (gen.device.constraints ++ descs.map Prod.fst).Nodup →
      gen.constraints descs = .ok gen' → gen'.Good ∧ gen'.device.topLevel = [] := by
  intro descs
  induction descs with
  | nil =>
    intro gen gen' hgood htop _ h
    obtain rfl := Except.ok.inj h
    exact ⟨hgood, htop⟩
  | cons desc descs ih =>
    obtain ⟨oid, type⟩ := desc
    intro gen gen' hgood htop hnodup h
    rw [CppGen.constraints] at h
    obtain ⟨_, _, h⟩ := bind_eq_ok_iff.mp h
    have hoid : oid ∉ gen.device.constraints := by
      intro hmem
      exact (List.nodup_append.mp hnodup).2.2 oid hmem oid List.mem_cons_self rfl
    apply ih (hgood.addConstraint htop hoid) htop _ h
    change (gen.device.constraints ++ [oid] ++ descs.map Prod.fst).Nodup
    rw [List.append_assoc]
    exact hnodup

theorem generate_good {desc : DeviceDesc} {gen : CppGen} (h : generate desc = .ok gen) :
    gen.Good := by
  obtain ⟨gen₁, h₁, h⟩ := bind_eq_ok_iff.mp h
  obtain ⟨gen₂, h₂, h⟩ := bind_eq_ok_iff.mp h
  have hempty : CppGen.Good ⟨⟨[], [], []⟩, ⟨[], []⟩⟩ := by
    constructor
    · exact inOrder_nil
    · rfl
    · rfl
    · rfl
    · rfl
    · exact List.nodup_nil
    · intro c
      constructor
      · intro hc
        exact nomatch hc
      · rintro (⟨oid, hoid, _⟩ | ⟨p, hp, _⟩)
        · exact nomatch hoid
        · exact absurd hp List.not_mem_nil
    · exact fun c hc => nomatch hc
    · exact fun p hp => nomatch hp
  obtain ⟨hgood₁, htop⟩ := hempty.run_constraints rfl desc.constraints_nodup h₁
  have hcommands : gen₁.device.commands = [] :=
    List.map_eq_nil_iff.mp (List.append_eq_nil_iff.mp htop).2
  obtain ⟨hgood₂, _⟩ := hgood₁.run_topLevel (fun _ => hcommands) h₂
  have hrun : CppGen.topLevel desc.namespaceName .commands gen₂ desc.commands = .ok gen := h
  refine (hgood₂.run_topLevel ?_ hrun).1
  exact fun hroot => nomatch hroot

/-! ## Names of different kinds -/

theorem toList_prefixed (separator : String) (names : List String) :
    (prefixed separator names).toList =
      names.flatMap fun name => separator.toList ++ name.toList := by
  have hfold : ∀ text : String,
      (names.foldl (fun text name => text ++ separator ++ name) text).toList =
        text.toList ++ names.flatMap fun name => separator.toList ++ name.toList := by
    induction names with
    | nil =>
      intro text
      exact (List.append_nil _).symm
    | cons name names ih =>
      intro text
      rw [List.foldl_cons, ih, String.toList_append, String.toList_append, List.flatMap_cons,
        List.append_assoc, List.append_assoc, List.append_assoc]
  exact hfold ""

theorem append_ne_of_last {s s' t t' : String} (c c' : Char) (ht : t.toList.getLast? = some c)
    (ht' : t'.toList.getLast? = some c') (hne : c ≠ c') : s ++ t ≠ s' ++ t' := by
  intro h
  have hlast := congrArg (fun text => text.toList.getLast?) h
  simp only [String.toList_append, List.getLast?_append, ht, ht', Option.some_or] at hlast
  exact hne (Option.some.inj hlast)

theorem head_descriptorName (p : Presented) : p.descriptorName.toList.head? = some '_' := by
  unfold Presented.descriptorName Presented.identifiers joined
  rw [String.toList_append, toList_prefixed]
  cases p.above <;> rfl

theorem head_objectName (param : Param) : param.objectName.toList.head? = some '_' := by
  unfold Param.objectName
  rw [String.toList_append, String.toList_append]
  rfl

theorem head_own (owner : Place) :
    (Constraint.own owner).variableName.toList.head? ≠ some 's' := by
  unfold Constraint.variableName replaceSlashes Place.getFQOid
  rw [String.toList_append, String.toList_ofList, toList_prefixed]
  cases owner.path with
  | nil => decide
  | cons oid path => exact fun h => absurd (Option.some.inj h) (by decide)

theorem head_shared (oid : String) :
    (Constraint.shared oid).variableName.toList.head? = some 's' := by
  unfold Constraint.variableName
  rw [String.toList_append]
  rfl

theorem descriptorName_ne_objectName (p : Presented) (param : Param) :
    p.descriptorName ≠ param.objectName :=
  append_ne_of_last 'r' 'm' rfl rfl (by decide)

theorem descriptorName_ne_variableName (p : Presented) (c : Constraint) :
    p.descriptorName ≠ c.variableName := by
  cases c with
  | shared oid =>
    intro h
    have hhead := head_descriptorName p
    rw [h, head_shared] at hhead
    exact absurd (Option.some.inj hhead) (by decide)
  | own owner => exact append_ne_of_last 'r' 't' rfl rfl (by decide)

theorem objectName_ne_variableName (param : Param) (c : Constraint) :
    param.objectName ≠ c.variableName := by
  cases c with
  | shared oid =>
    intro h
    have hhead := head_objectName param
    rw [h, head_shared] at hhead
    exact absurd (Option.some.inj hhead) (by decide)
  | own owner => exact append_ne_of_last 'm' 't' rfl rfl (by decide)

/-- Only constraints of params may have a name in common. -/
theorem variableName_eq_iff {c c' : Constraint} :
    c.variableName = c'.variableName ↔ c = c' ∨ ∃ owner owner', c = .own owner ∧ c' = .own owner' ∧
      replaceSlashes owner.getFQOid = replaceSlashes owner'.getFQOid := by
  constructor
  · intro h
    cases c with
    | shared oid =>
      cases c' with
      | shared oid' => exact Or.inl (congrArg _ ((String.append_right_inj _).mp h))
      | own owner' =>
        have hhead := head_shared oid
        rw [h] at hhead
        exact absurd hhead (head_own owner')
    | own owner =>
      cases c' with
      | shared oid' =>
        have hhead := head_shared oid'
        rw [← h] at hhead
        exact absurd hhead (head_own owner)
      | own owner' =>
        exact Or.inr ⟨owner, owner', rfl, rfl, (String.append_left_inj _).mp h⟩
  · rintro (rfl | ⟨owner, owner', rfl, rfl, heq⟩)
    · rfl
    · exact congrArg (· ++ "Constraint") heq

/-! ## Exactly when names are unambiguous -/

theorem sublist_flatMap {α β : Type} {f : α → β} {g : α → List β} (h : ∀ a, List.Sublist [f a] (g a))
    (l : List α) : List.Sublist (l.map f) (l.flatMap g) := by
  induction l with
  | nil => exact List.Sublist.slnil
  | cons a l ih => exact (h a).append ih

theorem head_presented (top : Place × Param) :
    List.Sublist [joined [top.2.cppIdentifier]]
      ((top.2.presented top.1 []).map fun p => joined p.identifiers) := by
  obtain ⟨place, ⟨oid, namespaceName, type, value, isCommand, constraint, template_param,
    subParams⟩⟩ := top
  rw [Param.presented.eq_def]
  exact List.singleton_sublist.mpr List.mem_cons_self

theorem objectNames_nodup {device : Device}
    (h : (device.presented.map fun p => joined p.identifiers).Nodup) :
    (device.topLevel.map (·.2.objectName)).Nodup := by
  have htops : (device.topLevel.map fun top => joined [top.2.cppIdentifier]).Nodup := by
    refine List.Nodup.sublist ?_ h
    unfold Device.presented
    rw [List.map_flatMap]
    exact sublist_flatMap head_presented device.topLevel
  have hmap : device.topLevel.map (·.2.objectName) =
      (device.topLevel.map fun top => joined [top.2.cppIdentifier]).map (· ++ "Param") := by
    rw [List.map_map]
    rfl
  rw [hmap]
  exact List.Nodup.map (fun a b hab => (String.append_left_inj _).mp hab) htops

theorem descriptorNames_nodup_iff {presented : List Presented} :
    (presented.map Presented.descriptorName).Nodup ↔
      (presented.map fun p => joined p.identifiers).Nodup := by
  have hmap : presented.map Presented.descriptorName =
      (presented.map fun p => joined p.identifiers).map (· ++ "Descriptor") := by
    rw [List.map_map]
    rfl
  rw [hmap]
  constructor
  · exact List.Nodup.of_map _
  · intro h
    exact List.Nodup.map (fun a b hab => (String.append_left_inj _).mp hab) h

theorem constraintNames_nodup_iff {gen : CppGen} (hgood : gen.Good) :
    (gen.body.initialized.map Constraint.variableName).Nodup ↔
      ∀ p ∈ gen.device.presented, ∀ p' ∈ gen.device.presented, ∀ owner owner' : Place,
        p.constraint = some (.own owner) → p'.constraint = some (.own owner') →
        replaceSlashes owner.getFQOid = replaceSlashes owner'.getFQOid → owner = owner' := by
  rw [List.nodup_map_iff_inj_on hgood.nodup]
  constructor
  · intro h p hp p' hp' owner owner' hc hc' heq
    apply Constraint.own.inj
    apply h _ ((hgood.initialized _).mpr (Or.inr ⟨p, hp, hc⟩)) _
      ((hgood.initialized _).mpr (Or.inr ⟨p', hp', hc'⟩))
    exact congrArg (· ++ "Constraint") heq
  · intro h c hc c' hc' heq
    rcases variableName_eq_iff.mp heq with hsame | ⟨owner, owner', rfl, rfl, hslashes⟩
    · exact hsame
    · have howned : ∀ {owner}, Constraint.own owner ∈ gen.body.initialized →
          ∃ p ∈ gen.device.presented, p.constraint = some (.own owner) := by
        intro owner hmem
        rcases (hgood.initialized _).mp hmem with ⟨oid, _, hshared⟩ | howner
        · exact nomatch hshared
        · exact howner
      obtain ⟨p, hp, hc⟩ := howned hc
      obtain ⟨p', hp', hc'⟩ := howned hc'
      rw [h p hp p' hp' owner owner' hc hc' hslashes]

/-- The names of the other kinds, which the values must not have. -/
structure Fresh (gen : CppGen) (name : String) : Prop where
  descriptor : name ∉ namesOf Decl.kind Decl.name .descriptor gen.body.decls
  constraint : name ∉ namesOf Decl.kind Decl.name .constraint gen.body.decls
  object : name ∉ namesOf Decl.kind Decl.name .object gen.body.decls

theorem fresh_iff {gen : CppGen} (hgood : gen.Good) {name : String} :
    Fresh gen name ↔ (∀ p ∈ gen.device.presented, name ≠ p.descriptorName) ∧
      (∀ p ∈ gen.device.presented, ∀ c, p.constraint = some c → name ≠ c.variableName) ∧
      (∀ oid ∈ gen.device.constraints, name ≠ "shared_" ++ oid) ∧
      ∀ other ∈ gen.device.topLevel, name ≠ other.2.objectName := by
  constructor
  · rintro ⟨hdescriptor, hconstraint, hobject⟩
    rw [hgood.descriptors] at hdescriptor
    rw [hgood.constraints] at hconstraint
    rw [hgood.objects] at hobject
    refine ⟨?_, ?_, ?_, ?_⟩
    · rintro p hp rfl
      exact hdescriptor (List.mem_map_of_mem hp)
    · rintro p hp c hc rfl
      exact hconstraint (List.mem_map_of_mem ((hgood.initialized c).mpr (Or.inr ⟨p, hp, hc⟩)))
    · rintro oid hoid rfl
      apply hconstraint
      exact List.mem_map.mpr ⟨_, (hgood.initialized (.shared oid)).mpr (Or.inl ⟨oid, hoid, rfl⟩), rfl⟩
    · rintro other hother rfl
      exact hobject (List.mem_map_of_mem hother)
  · rintro ⟨hdescriptor, hconstraint, hshared, hobject⟩
    constructor
    · rw [hgood.descriptors]
      intro hmem
      obtain ⟨p, hp, rfl⟩ := List.mem_map.mp hmem
      exact hdescriptor p hp rfl
    · rw [hgood.constraints]
      intro hmem
      obtain ⟨c, hc, rfl⟩ := List.mem_map.mp hmem
      rcases (hgood.initialized c).mp hc with ⟨oid, hoid, rfl⟩ | ⟨p, hp, hc⟩
      · exact hshared oid hoid rfl
      · exact hconstraint p hp c hc rfl
    · rw [hgood.objects]
      intro hmem
      obtain ⟨other, hother, rfl⟩ := List.mem_map.mp hmem
      exact hobject other hother rfl

theorem mem_valueNames {tops : List (Place × Param)} {name : String} :
    name ∈ valueNames tops ↔ ∃ top ∈ tops, top.2.value.isSome ∧ name = top.2.cppIdentifier := by
  unfold valueNames
  rw [List.mem_flatMap]
  constructor
  · rintro ⟨top, htop, hname⟩
    split at hname
    · rename_i hsome
      exact ⟨top, htop, hsome, List.mem_singleton.mp hname⟩
    · exact nomatch hname
  · rintro ⟨top, htop, hsome, rfl⟩
    refine ⟨top, htop, ?_⟩
    rw [if_pos hsome]
    exact List.mem_cons_self

/-- Names of descriptors, constraints and objects never meet. -/
theorem kinds_apart {gen : CppGen} (hgood : gen.Good) {k k' : Kind} (hk : k ≠ .value)
    (hk' : k' ≠ .value) (hne : k ≠ k') {name : String}
    (hname : name ∈ namesOf Decl.kind Decl.name k gen.body.decls) :
    name ∉ namesOf Decl.kind Decl.name k' gen.body.decls := by
  intro hname'
  have hform : ∀ {k}, k ≠ .value → name ∈ namesOf Decl.kind Decl.name k gen.body.decls →
      (k = .descriptor ∧ ∃ p : Presented, p.descriptorName = name) ∨
        (k = .constraint ∧ ∃ c : Constraint, c.variableName = name) ∨
        (k = .object ∧ ∃ param : Param, param.objectName = name) := by
    intro k hk hmem
    cases k with
    | value => exact absurd rfl hk
    | descriptor =>
      rw [hgood.descriptors] at hmem
      obtain ⟨p, _, hp⟩ := List.mem_map.mp hmem
      exact Or.inl ⟨rfl, p, hp⟩
    | constraint =>
      rw [hgood.constraints] at hmem
      obtain ⟨c, _, hc⟩ := List.mem_map.mp hmem
      exact Or.inr (Or.inl ⟨rfl, c, hc⟩)
    | object =>
      rw [hgood.objects] at hmem
      obtain ⟨top, _, htop⟩ := List.mem_map.mp hmem
      exact Or.inr (Or.inr ⟨rfl, top.2, htop⟩)
  rcases hform hk hname with ⟨rfl, p, hp⟩ | ⟨rfl, c, hc⟩ | ⟨rfl, param, hparam⟩
  · rcases hform hk' hname' with ⟨rfl, _⟩ | ⟨rfl, c, hc⟩ | ⟨rfl, param, hparam⟩
    · exact hne rfl
    · exact descriptorName_ne_variableName p c (hp.trans hc.symm)
    · exact descriptorName_ne_objectName p param (hp.trans hparam.symm)
  · rcases hform hk' hname' with ⟨rfl, p, hp⟩ | ⟨rfl, _⟩ | ⟨rfl, param, hparam⟩
    · exact descriptorName_ne_variableName p c (hp.trans hc.symm)
    · exact hne rfl
    · exact objectName_ne_variableName param c (hparam.trans hc.symm)
  · rcases hform hk' hname' with ⟨rfl, p, hp⟩ | ⟨rfl, c, hc⟩ | ⟨rfl, _⟩
    · exact descriptorName_ne_objectName p param (hp.trans hparam.symm)
    · exact objectName_ne_variableName param c (hparam.trans hc.symm)
    · exact hne rfl

/-- The generated names are unambiguous if and only if they are distinct within each kind, and no
value has the name of anything else. -/
theorem generate_unambiguous_iff {desc : DeviceDesc} {gen : CppGen} (h : generate desc = .ok gen) :
    Unambiguous gen ↔ DistinctNames gen.device := by
  have hgood := generate_good h
  have hvalues : (∀ top ∈ gen.device.topLevel, top.2.value.isSome →
      Fresh gen top.2.cppIdentifier) ↔
      ∀ name ∈ namesOf Decl.kind Decl.name .value gen.body.decls, Fresh gen name := by
    rw [hgood.values]
    constructor
    · intro hfresh name hname
      obtain ⟨top, htop, hsome, rfl⟩ := mem_valueNames.mp hname
      exact hfresh top htop hsome
    · intro hfresh top htop hsome
      exact hfresh _ (mem_valueNames.mpr ⟨top, htop, hsome, rfl⟩)
  constructor
  · rintro ⟨_, hunique, _⟩
    obtain ⟨hnodup, hcross⟩ := pairwise_namedApart_iff.mp hunique
    refine ⟨?_, ?_, ?_⟩
    · have hdescriptors := hnodup .descriptor (by decide)
      rw [hgood.descriptors] at hdescriptors
      exact descriptorNames_nodup_iff.mp hdescriptors
    · have hconstraints := hnodup .constraint (by decide)
      rw [hgood.constraints] at hconstraints
      exact (constraintNames_nodup_iff hgood).mp hconstraints
    · intro top htop hsome
      apply (fresh_iff hgood).mp
      apply hvalues.mpr _ top htop hsome
      intro name hname
      exact ⟨hcross .value .descriptor (by decide) name hname,
        hcross .value .constraint (by decide) name hname,
        hcross .value .object (by decide) name hname⟩
  · rintro ⟨hidentifiers, howners, hfresh⟩
    refine ⟨hgood.described, pairwise_namedApart_iff.mpr ⟨?_, ?_⟩, hgood.legal⟩
    · intro k hk
      cases k with
      | value => exact absurd rfl hk
      | descriptor =>
        rw [hgood.descriptors]
        exact descriptorNames_nodup_iff.mpr hidentifiers
      | constraint =>
        rw [hgood.constraints]
        exact (constraintNames_nodup_iff hgood).mpr howners
      | object =>
        rw [hgood.objects]
        exact objectNames_nodup hidentifiers
    · have hapart := hvalues.mp fun top htop hsome =>
        (fresh_iff hgood).mpr (hfresh top htop hsome)
      have hvalue : ∀ {k name}, k ≠ .value →
          name ∈ namesOf Decl.kind Decl.name .value gen.body.decls →
          name ∉ namesOf Decl.kind Decl.name k gen.body.decls := by
        intro k name hk hname
        obtain ⟨hdescriptor, hconstraint, hobject⟩ := hapart name hname
        cases k with
        | value => exact absurd rfl hk
        | descriptor => exact hdescriptor
        | constraint => exact hconstraint
        | object => exact hobject
      intro k k' hne name hname hname'
      by_cases hk : k = .value
      · subst hk
        exact hvalue hne.symm hname hname'
      · by_cases hk' : k' = .value
        · subst hk'
          exact hvalue hne hname' hname
        · exact kinds_apart hgood hk hk' hne hname hname'

def int32Desc (value : Option JsValue) (constraint : Option ConstraintDesc) : ParamDesc where
  type := "INT32"
  value := value
  constraint := constraint
  template_oid := none
  params := none

def levelDesc : ParamDesc := int32Desc (some (.int32_value 5)) (some (.inline "INT_RANGE"))

/-- A device with a param that has a value and a constraint, and with a command. -/
def levelDevice : DeviceDesc where
  namespaceName := "test"
  constraints := []
  params := [("level", levelDesc)]
  commands := [("reset", int32Desc none none)]
  constraints_nodup := List.nodup_nil

def levelParams : Device where
  constraints := []
  params := [⟨"level", "test", "INT32", some (.int32_value 5), false,
    some (.own ⟨.params, ["level"]⟩), none, []⟩]
  commands := [⟨"reset", "test", "INT32", none, true, none, none, []⟩]

theorem mem_pair {α : Type} {a b c : α} (h : a ∈ [b, c]) : a = b ∨ a = c := by
  rcases List.mem_cons.mp h with h | h
  · exact Or.inl h
  · exact Or.inr (List.mem_singleton.mp h)

theorem levelParams_distinct : DistinctNames levelParams := by
  constructor
  · decide
  · intro p hp p' hp' owner owner' hc hc' _
    rcases mem_pair hp with rfl | rfl
    · rcases mem_pair hp' with rfl | rfl
      · exact Constraint.own.inj (Option.some.inj (hc.symm.trans hc'))
      · exact nomatch hc'
    · exact nomatch hc
  · intro top htop hsome
    rcases mem_pair htop with rfl | rfl
    · refine ⟨by decide, ?_, by decide, ?_⟩
      · intro p hp c hc
        rcases mem_pair hp with rfl | rfl
        · obtain rfl := Option.some.inj hc
          decide
        · exact nomatch hc
      · intro other hother
        rcases mem_pair hother with rfl | rfl
        · decide
        · decide
    · exact nomatch hsome

theorem generate_unambiguous_iff_level : ∃ gen, generate levelDevice = .ok gen ∧ Unambiguous gen := by
  have hrun : ∃ body, generate levelDevice = .ok ⟨levelParams, body⟩ := ⟨_, rfl⟩
  obtain ⟨body, hgen⟩ := hrun
  exact ⟨_, hgen, (generate_unambiguous_iff hgen).mpr levelParams_distinct⟩

/-- The params `a_b` and `a`, which has the sub-param `b`. -/
def underscoreDevice : DeviceDesc where
  namespaceName := "test"
  constraints := []
  params := [("a_b", int32Desc none none),
    ("a", ⟨"STRUCT", none, none, none, some [("b", int32Desc none none)]⟩)]
  commands := []
  constraints_nodup := List.nodup_nil

/-- A param with an underscore and a sub-param get the same descriptor. -/
theorem underscore_ambiguous :
    ¬ ∀ (desc : DeviceDesc) (gen : CppGen), generate desc = .ok gen → Unambiguous gen := by
  intro hclaim
  have hnames : (generate underscoreDevice).map
      (fun gen => namesOf Decl.kind Decl.name .descriptor gen.body.decls) =
      .ok ["_a_bDescriptor", "_aDescriptor", "_a_bDescriptor"] := rfl
  cases hgen : generate underscoreDevice with
  | error e =>
    rw [hgen] at hnames
    exact nomatch hnames
  | ok gen =>
    rw [hgen] at hnames
    have hlist : namesOf Decl.kind Decl.name .descriptor gen.body.decls = _ := Except.ok.inj hnames
    have hne : Kind.descriptor ≠ .value := by decide
    have hnodup := nodup_namesOf_of_pairwise hne (hclaim underscoreDevice gen hgen).unique
    rw [hlist] at hnodup
    exact absurd hnodup (by decide)

end Catena.Codegen
