import Catena.Codegen.ParamDesc
import Catena.Codegen.DeviceModel
import Catena.Framework.FilePath

/-!
# Params of the generator

`Param` holds what the generator of C++ code knows about one param: its place, its constraint, the
param that it is templated on and its sub-params. A template is looked up among the params that are
complete, so a param holds it whole.
-/

namespace Catena.Codegen

/-- `cpp-keywords.js`. -/
def CPP_KEYWORDS : List String :=
  ["alignas", "alignof", "and", "and_eq", "asm", "auto", "bitand", "bitor", "bool", "break",
    "case", "catch", "char", "char8_t", "char16_t", "char32_t", "class", "compl", "concept",
    "const", "consteval", "constexpr", "constinit", "const_cast", "continue", "co_await",
    "co_return", "co_yield", "decltype", "default", "delete", "do", "double", "dynamic_cast",
    "else", "enum", "explicit", "export", "extern", "false", "float", "for", "friend", "goto",
    "if", "inline", "int", "long", "mutable", "namespace", "new", "noexcept", "not", "not_eq",
    "nullptr", "operator", "or", "or_eq", "private", "protected", "public", "register",
    "reinterpret_cast", "requires", "return", "short", "signed", "sizeof", "static",
    "static_assert", "static_cast", "struct", "switch", "template", "this", "thread_local",
    "throw", "true", "try", "typedef", "typeid", "typename", "union", "unsigned", "using",
    "virtual", "void", "volatile", "wchar_t", "while", "xor", "xor_eq", "final", "override",
    "import", "module", "pre", "post"]

def getCppIdentifier (oid : String) : String :=
  if oid ∈ CPP_KEYWORDS then oid ++ "_" else oid

/-- `toUpperCase` of one character, for those up to U+00FF. -/
def toUpperCase (c : Char) : String :=
  if c = 'ß' then "SS"
  else if c = 'µ' then "Μ"
  else if c = 'ÿ' then "Ÿ"
  else if 'à' ≤ c ∧ c ≤ 'þ' ∧ c ≠ '÷' then String.singleton (Char.ofNat (c.toNat - 32))
  else String.singleton c.toUpper

def initialCap (s : String) : String :=
  match s.toList with
  | [] => s
  | c :: cs => toUpperCase c ++ String.ofList cs

/-! ## Types -/

def typeArg (type : String) : Except JsError String :=
  match type with
  | "STRING" => .ok "std::string"
  | "INT32" => .ok "int32_t"
  | "FLOAT32" => .ok "float"
  | "STRING_ARRAY" => .ok "std::vector<std::string>"
  | "INT32_ARRAY" => .ok "std::vector<int32_t>"
  | "FLOAT32_ARRAY" => .ok "std::vector<float>"
  | "EMPTY" => .ok "EmptyValue"
  | _ => .error ("Unknown type " ++ type)

def valueTypeArg (type : String) : Except JsError String :=
  match type with
  | "EMPTY" => .ok "empty_value"
  | "STRING" => .ok "string_value"
  | "INT32" => .ok "int32_value"
  | "FLOAT32" => .ok "float32_value"
  | "STRING_ARRAY" => .ok "string_array_values"
  | "INT32_ARRAY" => .ok "int32_array_values"
  | "FLOAT32_ARRAY" => .ok "float32_array_values"
  | "STRUCT" => .ok "struct_value"
  | "STRUCT_ARRAY" => .ok "struct_array_values"
  | "STRUCT_VARIANT" => .ok "struct_variant_value"
  | "STRUCT_VARIANTS" => .ok "struct_variants"
  | "STRUCT_VARIANT_ARRAY" => .ok "struct_variant_array_values"
  | _ => .error ("Unknown type " ++ type)

/-- `includes`. -/
def includesText (text : List Char) : List Char → Bool
  | [] => text.isEmpty
  | c :: cs => text.isPrefixOf (c :: cs) || includesText text cs

def includesArray (type : String) : Bool := includesText "ARRAY".toList type.toList

/-- The text without the first `_ARRAY`. -/
def dropArraySuffix : List Char → List Char
  | [] => []
  | c :: cs =>
      if "_ARRAY".toList.isPrefixOf (c :: cs) then (c :: cs).drop 6 else c :: dropArraySuffix cs

def removeArraySuffix (type : String) : String := String.ofList (dropArraySuffix type.toList)

def isStructType (type : String) : Bool := type = "STRUCT" || type = "STRUCT_ARRAY"

def isVariantType (type : String) : Bool :=
  type = "STRUCT_VARIANT" || type = "STRUCT_VARIANT_ARRAY"

def hasTypeInfo (type : String) : Bool := isStructType type || isVariantType type

/-! ## Places and constraints -/

inductive Root where
  | params
  | commands
  deriving DecidableEq

/-- Where a param is in the device model: the oids from the top. -/
structure Place where
  root : Root
  path : List String
  deriving DecidableEq

def Place.sub (place : Place) (oid : String) : Place := { place with path := place.path ++ [oid] }

def prefixed (separator : String) (names : List String) : String :=
  names.foldl (fun text name => text ++ separator ++ name) ""

def Place.getFQOid (place : Place) : String := prefixed "/" place.path

/-- A constraint of the device, or of the param at that place. -/
inductive Constraint where
  | shared (oid : String)
  | own (parentParam : Place)
  deriving DecidableEq

def replaceSlashes (str : String) : String :=
  String.ofList (str.toList.map fun c => if c = '/' then '_' else c)

def Constraint.variableName : Constraint → String
  | shared oid => "shared_" ++ oid
  | own parentParam => replaceSlashes parentParam.getFQOid ++ "Constraint"

/-- `findType`, the part that may throw. -/
def findType (type : String) : Except JsError Unit :=
  -- the check for `ALARM_TABLE` comes after the one that finds it in the table
  if type ∈ ["INT_RANGE", "FLOAT_RANGE", "INT_CHOICE", "STRING_STRING_CHOICE", "STRING_CHOICE",
      "ALARM_TABLE"] then .ok ()
  else .error ("Unknown type " ++ type)

/-! ## Params -/

structure Param where
  oid : String
  namespaceName : String
  type : String
  value : Option JsValue
  isCommand : Bool
  constraint : Option Constraint
  template_param : Option Param
  subParams : List Param

/-- The constraints and the complete params and commands of the device. -/
structure Device where
  constraints : List String
  params : List Param
  commands : List Param

namespace Param

def cppIdentifier (param : Param) : String := getCppIdentifier param.oid

def hasTypeInfo (param : Param) : Bool := Codegen.hasTypeInfo param.type

def isArrayType (param : Param) : Bool := includesArray param.type

/-- `Object.keys(param.subParams)`. -/
def keys (param : Param) : List String := param.subParams.map oid

end Param

/-- The param at the end of a path below these. -/
def getParamIn (params : List Param) : List String → Option Param
  | [] => none
  | front :: path =>
      match params.find? (·.oid = front) with
      | none => none
      | some param => if path = [] then some param else getParamIn param.subParams path

def Param.getParam (param : Param) (path : List String) : Option Param :=
  getParamIn param.subParams path

/-- The param with that oid, and an error that depends on where the path ends. -/
def Device.getParam (device : Device) (fqoid : String) : Except JsError Param :=
  let path := ((Framework.FilePath.components fqoid.toList).drop 1).map String.ofList
  if device.params.any (fun param => path.head? = some param.oid) then
    match getParamIn device.params path with
    | none => .error ("Template param " ++ fqoid ++ " not found")
    | some param => .ok param
  else .error ("Invalid template parameter " ++ fqoid)

def Device.getConstraint (device : Device) (oid : String) : Except JsError Constraint :=
  if oid ∈ device.constraints then .ok (.shared oid) else .error ("Invalid constraint " ++ oid)

/-! ## Construction -/

section

variable (device : Device)

def newConstraint (place : Place) : ConstraintDesc → Except JsError Constraint
  | .ref ref_oid => device.getConstraint ref_oid
  | .inline type => do
      findType type
      return .own place

def findTemplate (type template_oid : String) : Except JsError Param := do
  let template ← device.getParam template_oid
  if template.type ≠ type ∧ template.type ≠ removeArraySuffix type then
    .error ("Param with type " ++ type ++ " can not be templated on param with type " ++
      template.type)
  else return template

def subParamNamespace (namespaceName cppIdentifier type : String) : String :=
  if isVariantType type then namespaceName ++ "::_" ++ cppIdentifier
  else namespaceName ++ "::" ++ initialCap cppIdentifier

mutual

/-- The constructor of `Param`. -/
def newParam (oid namespaceName : String) (isCommand : Bool) (place : Place) :
    ParamDesc → Except JsError Param
  | { type, value, constraint, template_oid, params } => do
      let constraint ← constraint.mapM (newConstraint device place)
      let template_param ← template_oid.mapM (findTemplate device type)
      let constraint := constraint.or (template_param.bind (·.constraint))
      let subParams ← (match params with
        | none => .ok []
        | some entries =>
            if hasTypeInfo type then
              newSubParams (subParamNamespace namespaceName (getCppIdentifier oid) type) place
                entries
            else .error (type ++ " type can not have subparams"))
      return { oid, namespaceName, type, value, isCommand, constraint, template_param, subParams }

def newSubParams (namespaceName : String) (place : Place) :
    List (String × ParamDesc) → Except JsError (List Param)
  | [] => .ok []
  | (oid, desc) :: rest => do
      let param ← newParam oid namespaceName false (place.sub oid) desc
      let rest ← newSubParams namespaceName place rest
      return param :: rest

end

end

/-! ## What templates give -/

namespace Param

def objectType : Param → Except JsError String
  | { oid, type, template_param, .. } =>
      if Codegen.hasTypeInfo type then
        match template_param with
        | none => .ok (initialCap (getCppIdentifier oid))
        | some template =>
            if includesArray type && !template.isArrayType then
              .ok (initialCap (getCppIdentifier oid))
            else template.objectType
      else typeArg type

def objectNamespaceType : Param → Except JsError String
  | { oid, namespaceName, type, template_param, .. } =>
      if Codegen.hasTypeInfo type then
        match template_param with
        | none => .ok (namespaceName ++ "::" ++ initialCap (getCppIdentifier oid))
        | some template =>
            if includesArray type && !template.isArrayType then
              .ok (namespaceName ++ "::" ++ initialCap (getCppIdentifier oid))
            else template.objectNamespaceType
      else typeArg type

end Param

end Catena.Codegen
