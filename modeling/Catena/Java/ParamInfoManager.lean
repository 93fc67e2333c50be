import Catena.Framework.FilePath
import Catena.Framework.Map
import Catena.Framework.Throws
import Mathlib.Data.List.DropRight

/-!
# The param store of a Java device

Values that are set are kept by their oid until they are committed to the builder of the device.
One walker finds a value in immutable messages, another one the builder that a value is committed
to. Both take an oid apart in the same way, but a top-level param is committed to under the whole
oid, and the builder that is found for a field of a struct is asked to set no field.
-/

namespace Catena.Java

open Catena.Framework

variable {κ : Type}

/-- A `Value`: nothing, a struct, or any other kind. -/
inductive Value (κ : Type) where
  | unset
  | structValue (fields : List (Text × Value κ))
  | other (kind : κ)

namespace Value

/-- `getStructValue`, and what `getStructValueBuilder` starts from. -/
def fields : Value κ → List (Text × Value κ)
  | structValue fields => fields
  | _ => []

/-- `getStructValue().getFieldsOrDefault(name, null)`. -/
def getField (value : Value κ) (name : Text) : Option (Value κ) :=
  (value.fields.find? fun e => e.1 = name).map Prod.snd

end Value

/-- The value and the sub-params of a `Param`. -/
inductive Param (κ : Type) where
  | mk (value : Option (Value κ)) (params : List (Text × Param κ))

namespace Param

def empty : Param κ := mk none []

def getValue : Param κ → Value κ
  | mk value _ => value.getD .unset

def setValue (value : Value κ) : Param κ → Param κ
  | mk _ params => mk (some value) params

/-- `getBuilderForParam`: the builder of a sub-param. -/
def getBuilderForParam (fieldName : Text) : Param κ → Param κ
  | mk _ params => ((params.find? fun e => e.1 = fieldName).map Prod.snd).getD empty

def putParams (fieldName : Text) (param : Param κ) : Param κ → Param κ
  | mk value params => mk value (setEntry params fieldName param)

end Param

abbrev Params (κ : Type) : Type := AList fun _ : Text => Param κ

/-- A `ParamInfoManager`: the params of its device builder, the params that are created and the
values that are set. -/
structure ParamInfoManager (κ : Type) where
  params : Params κ
  uncommittedParams : AList fun _ : Text => Param κ := ∅
  uncommittedValues : AList fun _ : Text => Value κ := ∅

/-- `text.split("/")`. A text with slashes loses the empty parts at its end. -/
def split (text : Text) : List Text :=
  if '/' ∈ text then (FilePath.components text).rdropWhile (· = []) else [text]

def splitOid (fqoid : Text) : List Text :=
  split (if fqoid.head? = some '/' then fqoid.tail else fqoid)

/-- The last slash is not after the first character. -/
def isTopLevel (oid : Text) : Bool := '/' ∉ oid.tail

/-! ## The walkers -/

/-- What the walker over messages has come to. -/
inductive Component (κ : Type) where
  | param (param : Param κ)
  | value (value : Value κ)

/-- The value of a param that is passed is a component of its own. -/
def Component.getValue : Component κ → Value κ
  | .param p => p.getValue
  | .value v => v

/-- `pathToValue` for messages below the top. -/
def pathFrom (parent : Component κ) : List Text → Option (Component κ)
  | [] => some parent
  | name :: rest => (parent.getValue.getField name).bind fun field => pathFrom (.value field) rest

/-- `pathToValue` for messages. -/
def pathToValue (params : Params κ) : List Text → Option (Component κ)
  | [] => none
  | name :: rest => (params.lookup name).bind fun param => pathFrom (.param param) rest

/-- `getBuilderForTopLevelParam`: the param is taken out, and put in again as a builder. -/
def getBuilderForTopLevelParam (params : Params κ) (fieldName : Text) : Param κ × Params κ :=
  let param := (params.lookup fieldName).getD .empty
  (param, (params.erase fieldName).insert fieldName param)

/-- What the walker over builders has come to. -/
inductive Leaf (κ : Type) where
  | paramBuilder (param : Param κ)
  | structValueBuilder (param : Param κ) (fields : List (Text × Value κ))

/-- `pathToValue` for builders, with the name of the root. The builders of the value and of its
struct are made on the way, and nothing is found below a field. -/
def pathToBuilder (params : Params κ) : List Text → Params κ × Option (Text × Leaf κ)
  | [] => (params, none)
  | name :: rest =>
      let builder := getBuilderForTopLevelParam params name
      let fields := builder.1.getValue.fields
      let withStruct := builder.1.setValue (.structValue fields)
      match rest with
      | [] => (builder.2, some (name, .paramBuilder builder.1))
      | [_] =>
          (builder.2.insert name withStruct, some (name, .structValueBuilder withStruct fields))
      | _ :: _ :: _ => (builder.2.insert name withStruct, none)

/-- `pathToParam` for builders below a param, and `updateParam` of what it comes to. -/
def updateBelow (update : Param κ) (parent : Param κ) : List Text → Param κ
  | [] => parent
  | [name] => parent.putParams name update
  | name :: rest => parent.putParams name (updateBelow update (parent.getBuilderForParam name) rest)

/-- `pathToParam` for builders, `updateParam` and `putTopLevelParam`. A param without a parent is
not updated. -/
def updateParam (params : Params κ) (update : Param κ) : List Text → Params κ
  | [] => params
  | name :: rest =>
      let builder := getBuilderForTopLevelParam params name
      builder.2.insert name (updateBelow update builder.1 rest)

namespace ParamInfoManager

/-- A manager for a device, with nothing pending. -/
def ofDevice (params : Params κ) : ParamInfoManager κ := { params }

def setValue (m : ParamInfoManager κ) (oid : Text) (value : Value κ) : ParamInfoManager κ :=
  { m with uncommittedValues := m.uncommittedValues.insert oid value }

def getValue (m : ParamInfoManager κ) (oid : Text) : Option (Value κ) :=
  match m.uncommittedValues.lookup oid with
  | some value => some value
  | none => (pathToValue m.params (splitOid oid)).map Component.getValue

section Commit

-- `StructValue.Builder.setField`, with the name of the field descriptor or null
variable (setField : Option Text → Value κ → List (Text × Value κ) →
  Except String (List (Text × Value κ)))

/-- `PathToComponent.setValue`: the param of the root with the value. -/
def setLeaf (value : Value κ) : Leaf κ → Except String (Param κ)
  | .paramBuilder param => .ok (param.setValue value)
  | .structValueBuilder param fields => do
      let fields ← setField none value fields
      .ok (param.setValue (.structValue fields))

/-- `commitChanges` of a value that is not at the top level. -/
def commitValue (params : Params κ) (oid : Text) (value : Value κ) : Except String (Params κ) :=
  match pathToBuilder params (splitOid oid) with
  | (params, none) => .ok params
  | (params, some (root, leaf)) => do
      let param ← setLeaf setField value leaf
      .ok (params.insert root param)

/-- `commitChanges` of one oid. -/
def commitOid (m : ParamInfoManager κ) (oid : Text) : Except String (ParamInfoManager κ) :=
  let uncommittedParam := m.uncommittedParams.lookup oid
  let uncommittedValue := m.uncommittedValues.lookup oid
  let uncommittedParams := m.uncommittedParams.erase oid
  let uncommittedValues := m.uncommittedValues.erase oid
  if uncommittedParam.isNone ∧ uncommittedValue.isNone then
    .ok { m with uncommittedParams, uncommittedValues }
  else if isTopLevel oid then
    let builder := match uncommittedParam with
      | some param => (param, m.params)
      | none => getBuilderForTopLevelParam m.params oid
    let param := match uncommittedValue with
      | some value => builder.1.setValue value
      | none => builder.1
    .ok { params := builder.2.insert oid param, uncommittedParams, uncommittedValues }
  else do
    let params ← match uncommittedValue with
      | some value => commitValue setField m.params oid value
      | none => .ok m.params
    let params := match uncommittedParam with
      | some update => updateParam params update (splitOid oid)
      | none => params
    .ok { params, uncommittedParams, uncommittedValues }

/-- `commitChanges`: first the params, then the values that are left. The oids come in the order
of the hash maps. -/
def commitChanges (m : ParamInfoManager κ) : Except String (ParamInfoManager κ) := do
  let m ← m.uncommittedParams.keys.foldlM (commitOid setField) m
  m.uncommittedValues.keys.foldlM (commitOid setField) m

end Commit

end ParamInfoManager

/-! ## Oids -/

theorem split_of_not_mem {text : Text} (h : '/' ∉ text) : split text = [text] := if_neg h

theorem splitOid_of_isTopLevel {oid : Text} (h : isTopLevel oid = true) :
    splitOid oid = [if oid.head? = some '/' then oid.tail else oid] := by
  have htail : '/' ∉ oid.tail := of_decide_eq_true h
  rw [splitOid, split_of_not_mem]
  split
  · exact htail
  · rename_i hhead
    cases oid with
    | nil => simp
    | cons c oid =>
      refine fun hmem => (List.mem_cons.mp hmem).elim (fun hc => hhead ?_) htail
      rw [← hc, List.head?_cons]

/-- Neither of the oids is above or below the other. -/
def Unrelated (oid oid' : Text) : Prop :=
  ¬splitOid oid <+: splitOid oid' ∧ ¬splitOid oid' <+: splitOid oid

/-! ## The builders -/

theorem Param.getValue_setValue (param : Param κ) (value : Value κ) :
    (param.setValue value).getValue = value := by
  cases param
  rfl

/-- The params after a value is set in the builder of a top-level param. -/
def withValue (params : Params κ) (name : Text) (value : Value κ) : Params κ :=
  (getBuilderForTopLevelParam params name).2.insert name
    ((getBuilderForTopLevelParam params name).1.setValue value)

theorem lookup_withValue_ne (params : Params κ) {name key : Text} (value : Value κ)
    (h : key ≠ name) : (withValue params name value).lookup key = params.lookup key := by
  rw [withValue, AList.lookup_insert_ne h, getBuilderForTopLevelParam, AList.lookup_insert_ne h,
    AList.lookup_erase_ne h]

theorem lookup_withValue (params : Params κ) (name : Text) (value : Value κ) :
    ∃ param, (withValue params name value).lookup name = some param ∧ param.getValue = value :=
  ⟨_, AList.lookup_insert _, Param.getValue_setValue _ value⟩

theorem pathFrom_congr {c c' : Component κ} (h : c.getValue.fields = c'.getValue.fields)
    (name : Text) (rest : List Text) : pathFrom c (name :: rest) = pathFrom c' (name :: rest) := by
  simp only [pathFrom, Value.getField, h]

theorem pathToValue_congr {params params' : Params κ} {name : Text}
    (h : params.lookup name = params'.lookup name) (rest : List Text) :
    pathToValue params (name :: rest) = pathToValue params' (name :: rest) := by
  simp only [pathToValue, h]

theorem isSome_of_pathToValue {params : Params κ} {name : Text} {rest : List Text}
    (h : (pathToValue params (name :: rest)).isSome = true) :
    (params.lookup name).isSome = true := by
  rw [pathToValue] at h
  cases hparam : params.lookup name with
  | none =>
    rw [hparam] at h
    exact h
  | some param => rfl

theorem pathToValue_builder {params : Params κ} {name : Text}
    (hname : (params.lookup name).isSome = true) (field : Text) (rest : List Text) :
    pathToValue (withValue params name
      (.structValue (getBuilderForTopLevelParam params name).1.getValue.fields))
        (name :: field :: rest) = pathToValue params (name :: field :: rest) := by
  obtain ⟨param, hparam⟩ := Option.isSome_iff_exists.mp hname
  have hbuilder : (getBuilderForTopLevelParam params name).1 = param := by
    rw [getBuilderForTopLevelParam, hparam]
    rfl
  obtain ⟨param', hparam', hvalue⟩ := lookup_withValue params name
    (.structValue (getBuilderForTopLevelParam params name).1.getValue.fields)
  have hfields : (Component.param param').getValue.fields =
      (Component.param param).getValue.fields := by
    simp only [Component.getValue]
    rw [hvalue, hbuilder]
    rfl
  rw [pathToValue, pathToValue, hparam', hparam]
  exact pathFrom_congr hfields field rest

namespace ParamInfoManager

variable {setField : Option Text → Value κ → List (Text × Value κ) →
  Except String (List (Text × Value κ))} {params : Params κ} {oid : Text} {v : Value κ}

theorem erase_insert_empty (oid : Text) (v : Value κ) :
    ((∅ : AList fun _ : Text => Value κ).insert oid v).erase oid = ∅ := by
  apply AList.ext
  have hentries : (((∅ : AList fun _ : Text => Value κ).insert oid v).erase oid).entries =
      ((∅ : AList fun _ : Text => Value κ).insert oid v).entries.kerase oid := rfl
  rw [hentries, AList.entries_insert]
  exact List.kerase_cons_eq rfl

/-- What is committed when one value is set. -/
theorem commitChanges_setValue :
    ((ofDevice params).setValue oid v).commitChanges setField =
      if isTopLevel oid then
        .ok (ofDevice (withValue params oid v))
      else
        (commitValue setField params oid v).map ofDevice := by
  have hkeys : ((ofDevice params).setValue oid v).uncommittedValues.keys = [oid] :=
    AList.keys_insert ..
  have hlookup : ((ofDevice params).setValue oid v).uncommittedValues.lookup oid = some v :=
    AList.lookup_insert ∅
  have herase : ((ofDevice params).setValue oid v).uncommittedValues.erase oid = ∅ :=
    erase_insert_empty oid v
  have hnone : ((ofDevice params).setValue oid v).uncommittedParams = ∅ := rfl
  have hcommit : ((ofDevice params).setValue oid v).commitChanges setField =
      [oid].foldlM (commitOid setField) ((ofDevice params).setValue oid v) := by
    rw [commitChanges, hnone, ← hkeys]
    rfl
  rw [hcommit, List.foldlM_cons]
  simp only [List.foldlM_nil, bind_pure, commitOid, hlookup, herase, hnone, AList.lookup_empty]
  rw [if_neg (by simp)]
  split
  · rfl
  · cases hvalue : commitValue setField params oid v with
    | error e => exact congrArg (Except.map ofDevice) hvalue
    | ok params' => exact congrArg (Except.map ofDevice) hvalue

theorem getValue_pending : ((ofDevice params).setValue oid v).getValue oid = some v := by
  simp only [getValue, setValue, AList.lookup_insert]

theorem getValue_committed (params : Params κ) (oid : Text) :
    (ofDevice params).getValue oid = (pathToValue params (splitOid oid)).map Component.getValue :=
  rfl

theorem getValue_withValue {name : Text} (hname : splitOid oid = [name]) :
    (ofDevice (withValue params name v)).getValue oid = some v ∧
      ∀ oid', Unrelated oid oid' →
        (ofDevice (withValue params name v)).getValue oid' = (ofDevice params).getValue oid' := by
  refine ⟨?_, fun oid' hunrelated => ?_⟩
  · obtain ⟨param, hparam, hvalue⟩ := lookup_withValue params name v
    rw [getValue_committed, hname, pathToValue, hparam]
    exact congrArg some hvalue
  · rw [getValue_committed, getValue_committed]
    cases hparts : splitOid oid' with
    | nil => rfl
    | cons name' rest =>
      have hne : name' ≠ name := by
        rintro rfl
        refine hunrelated.1 ?_
        rw [hname, hparts]
        exact ⟨rest, rfl⟩
      rw [pathToValue_congr (lookup_withValue_ne params v hne)]

end ParamInfoManager

open ParamInfoManager

/-- The law of the store for an oid of a device: a value that is set is the one that is got, from
then on and after it is committed, which succeeds and changes no other value. -/
def StoreLaw (setField : Option Text → Value κ → List (Text × Value κ) →
    Except String (List (Text × Value κ))) (params : Params κ) (oid : Text) : Prop :=
  ∀ v, ((ofDevice params).setValue oid v).getValue oid = some v ∧
    ∃ m, ((ofDevice params).setValue oid v).commitChanges setField = .ok m ∧
      m.getValue oid = some v ∧
      ∀ oid', Unrelated oid oid' → m.getValue oid' = (ofDevice params).getValue oid'

theorem exists_other (o : Option (Value κ)) : ∃ v, o ≠ some v := by
  cases o with
  | none => exact ⟨.unset, by simp⟩
  | some value =>
    cases value with
    | unset => exact ⟨.structValue [], by simp⟩
    | structValue fields => exact ⟨.unset, by simp⟩
    | other kind => exact ⟨.unset, by simp⟩

/-- Where a commit changes nothing that one can see at the oid, the law does not hold. -/
theorem not_storeLaw_of_lost {setField : Option Text → Value κ → List (Text × Value κ) →
    Except String (List (Text × Value κ))} {params : Params κ} {oid : Text}
    (hlost : ∀ v m, ((ofDevice params).setValue oid v).commitChanges setField = .ok m →
      m.getValue oid = (ofDevice params).getValue oid) : ¬StoreLaw setField params oid := by
  intro hlaw
  obtain ⟨v, hv⟩ := exists_other ((ofDevice params).getValue oid)
  obtain ⟨_, m, hcommit, hget, _⟩ := hlaw v
  exact hv ((hlost v m hcommit).symm.trans hget)

/-- The law holds of an existing param or field exactly when the oid has one part, and no slash
at its front unless there is one after it. -/
theorem storeLaw_iff {setField : Option Text → Value κ → List (Text × Value κ) →
    Except String (List (Text × Value κ))}
    (hnull : ∀ value fields, ∃ e, setField none value fields = .error e) {params : Params κ}
    {oid : Text} (hexists : (pathToValue params (splitOid oid)).isSome = true) :
    StoreLaw setField params oid ↔
      (splitOid oid).length = 1 ∧ (oid.head? = some '/' → isTopLevel oid = false) := by
  by_cases htop : isTopLevel oid = true
  · have hparts := splitOid_of_isTopLevel htop
    by_cases hslash : oid.head? = some '/'
    · -- committed under the whole oid
      refine iff_of_false (not_storeLaw_of_lost fun v m hcommit => ?_) fun h => ?_
      · rw [commitChanges_setValue, if_pos htop] at hcommit
        obtain rfl := Except.ok.inj hcommit
        rw [if_pos hslash] at hparts
        have hne : oid.tail ≠ oid := by
          intro hsame
          cases oid with
          | nil => cases hslash
          | cons c oid => exact List.cons_ne_self c oid hsame.symm
        rw [getValue_committed, getValue_committed, hparts,
          pathToValue_congr (lookup_withValue_ne params v hne)]
      · cases htop.symm.trans (h.2 hslash)
    · rw [if_neg hslash] at hparts
      refine iff_of_true (fun v => ⟨getValue_pending, _, ?_, getValue_withValue hparts⟩) ⟨?_, ?_⟩
      · rw [commitChanges_setValue, if_pos htop]
      · rw [hparts]
        rfl
      · exact fun h => absurd h hslash
  · have htop' : isTopLevel oid = false := by simpa using htop
    cases hparts : splitOid oid with
    | nil =>
      rw [hparts] at hexists
      cases hexists
    | cons name rest =>
      cases rest with
      | nil =>
        refine iff_of_true (fun v => ⟨getValue_pending, _, ?_, getValue_withValue hparts⟩) ⟨rfl, ?_⟩
        · rw [commitChanges_setValue, if_neg htop, commitValue, hparts]
          rfl
        · exact fun _ => htop'
      | cons field rest =>
        refine iff_of_false ?_ fun h => by simp at h
        cases rest with
        | nil =>
          -- a field of the struct: `setField` throws
          intro hlaw
          obtain ⟨_, m, hcommit, _⟩ := hlaw .unset
          obtain ⟨e, he⟩ := hnull .unset
            (getBuilderForTopLevelParam params name).1.getValue.fields
          rw [commitChanges_setValue, if_neg htop] at hcommit
          simp only [commitValue, hparts, pathToBuilder, setLeaf, he, bind, Except.bind,
            Except.map] at hcommit
          cases hcommit
        | cons field' rest =>
          -- below a field: no builder is found, and the value is dropped
          refine not_storeLaw_of_lost fun v m hcommit => ?_
          rw [commitChanges_setValue, if_neg htop, commitValue, hparts] at hcommit
          obtain rfl := Except.ok.inj hcommit
          rw [getValue_committed, getValue_committed, hparts]
          refine congrArg _ (pathToValue_builder ?_ field (field' :: rest))
          rw [hparts] at hexists
          exact isSome_of_pathToValue hexists

section Sample

/-- A builder whose `setField` throws when it is given no descriptor. -/
def sampleSetField (descriptor : Option Text) (value : Value Int)
    (fields : List (Text × Value Int)) : Except String (List (Text × Value Int)) :=
  match descriptor with
  | none => .error "NullPointerException"
  | some name => .ok (fields ++ [(name, value)])

/-- A param `a` with a number and a param `s` with a struct that has a field `x`. -/
def sampleParams : Params Int :=
  AList.insert ['s'] (.mk (some (.structValue [(['x'], .other 1)])) [])
    (AList.insert ['a'] (.mk (some (.other 1)) []) ∅)

end Sample

theorem storeLaw_iff_topLevel : StoreLaw sampleSetField sampleParams ['a'] :=
  (storeLaw_iff (fun _ _ => ⟨_, rfl⟩) rfl).mpr ⟨rfl, fun h => by cases h⟩

/-- A value that is set for `/a` is not got after the commit, and the commit of one for `s/x`
throws. -/
theorem leading_slash_not_committed :
    (∃ m, ((ofDevice sampleParams).setValue ['/', 'a'] (.other 2)).commitChanges sampleSetField =
        .ok m ∧ m.getValue ['/', 'a'] = some (.other 1)) ∧
    ((ofDevice sampleParams).setValue ['s', '/', 'x'] (.other 2)).commitChanges sampleSetField =
      .error "NullPointerException" :=
  ⟨⟨_, rfl, rfl⟩, rfl⟩

end Catena.Java
