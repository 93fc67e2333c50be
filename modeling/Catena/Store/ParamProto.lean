import Catena.Store.Device

/-!
# Parameters as protobuf messages

`st2138::Param` carries the attributes of a descriptor, those of its sub-parameters that the
client may read, and the value of the parameter. A value that may not be read in full stops
the serialization before the descriptor is written.
-/

namespace Catena.Store

/-- The oneof of `st2138::Constraint`, which also determines its type. -/
inductive ConstraintMessage where
  | refOid (oid : String)
  | int32Range (minValue maxValue step displayMin displayMax : Int32)
  | floatRange (minValue maxValue step displayMin displayMax : Float32)
  | int32Choice (choices : List (Int32 × PolyglotText))
  | stringChoice (choices : List String)
  | stringStringChoice (choices : List (String × PolyglotText))

def withNames {α : Type} : List α → List PolyglotText → List (α × PolyglotText)
  | [], _ => []
  | choice :: choices, names => (choice, names.headD []) :: withNames choices names.tail

/-- `toProto` of a constraint. -/
def Constraint.toProto (texts : ConstraintTexts) : Constraint → ConstraintMessage
  | .intRange min max step =>
      let display := texts.displayInt.getD (min, max)
      .int32Range min max step display.1 display.2
  | .floatRange min max step =>
      let display := texts.displayFloat.getD (min, max)
      .floatRange min max step display.1 display.2
  | .intChoice choices => .int32Choice (withNames choices texts.names)
  | .stringChoice choices _ => .stringChoice choices
  | .stringStringChoice choices _ => .stringStringChoice (withNames choices texts.names)

/-- `st2138::Param`. -/
inductive ParamMessage where
  | mk (value : Option Value) (type : ParamType) (readOnly stateless : Bool) (widget : String)
      (minimalSet : Bool) (precision : UInt32) (response : Bool) (oidAliases : List String)
      (name : PolyglotText) (constraint : Option ConstraintMessage)
      (params : List (String × ParamMessage)) (templateOid : String)

namespace ParamMessage

/-- A message in which only the value has been touched. -/
def ofValue (value : Value) : ParamMessage :=
  .mk (some value) .undefined false false "" false 0 false [] [] none [] ""

end ParamMessage

namespace ParamDescriptor

/-- The constraint in the message of a parameter: a shared one is referred to. -/
def constraintMessage (pd : ParamDescriptor) : Option ConstraintMessage :=
  pd.getConstraint.map fun constraint =>
    if pd.info.constraintTexts.shared then .refOid pd.info.constraintTexts.oid
    else constraint.toProto pd.info.constraintTexts

/-- The attributes `ParamDescriptor::toProto` sets, beside the value and the sub-parameters. -/
def message (pd : ParamDescriptor) (value : Option Value) (params : List (String × ParamMessage)) :
    ParamMessage :=
  .mk value pd.type pd.info.readOnly pd.info.stateless pd.info.widget pd.info.minimalSet
    pd.info.precision pd.info.response pd.info.oidAliases pd.info.name pd.constraintMessage params
    pd.info.templateOid

end ParamDescriptor

mutual

/-- The sub-parameters in the message of a parameter of this type. -/
def Ty.subParamMessages (authz : Authorizer) :
    Ty → ParamDescriptor → List (String × ParamMessage)
  | .empty _ subParams, pd => subParams.messages authz pd
  | .elem e, pd => e.subParamMessages authz pd
  | .vector e, pd => e.subParamMessages authz pd

def ElemTy.subParamMessages (authz : Authorizer) :
    ElemTy → ParamDescriptor → List (String × ParamMessage)
  | .struct fields, pd => fields.messages authz pd
  | .variant name info ty alternatives, pd =>
      let sub := pd.getSubParam info ty
      if authz.readAuthz sub then
        (name, sub.message none (ty.subParamMessages authz sub)) :: alternatives.messages authz pd
      else alternatives.messages authz pd
  | _, _ => []

/-- The loop over `subParams_`. -/
def Fields.messages (authz : Authorizer) :
    Fields → ParamDescriptor → List (String × ParamMessage)
  | .nil, _ => []
  | .cons name info ty rest, pd =>
      let sub := pd.getSubParam info ty
      if authz.readAuthz sub then
        (name, sub.message none (ty.subParamMessages authz sub)) :: rest.messages authz pd
      else rest.messages authz pd

end

/-- `ParamWithValue::toProto` into a fresh message. -/
def toProtoParam (authz : Authorizer) (t : Ty) (pd : ParamDescriptor) (value : t.Val) :
    ExceptionWithStatus × ParamMessage :=
  let written := toProto authz t pd value .kindNotSet
  if written.1.isOk then (written.1, pd.message (some written.2) (t.subParamMessages authz pd))
  else (written.1, .ofValue written.2)

def Param.toProtoParam {R : Type} (authz : Authorizer) (p : Param R) :
    ExceptionWithStatus × ParamMessage :=
  Store.toProtoParam authz p.ty p.descriptor p.value

/-- `st2138::DeviceComponent_ComponentParam`. -/
structure ComponentParam where
  oid : String
  param : ParamMessage

/-- `Device::getParam` with an oid, which reports what parsing the oid throws as a status. -/
def Device.getParamByOid (d : Device) (s : d.State) (fqoid : String) (authz : Authorizer) :
    Except ExceptionWithStatus (Param d.State) :=
  match Path.parse fqoid with
  | .error (.withStatus why) => .error why
  | .error .outOfRange => .error ⟨"stoul", .internal⟩
  | .ok path => d.getParam s path authz

end Catena.Store
