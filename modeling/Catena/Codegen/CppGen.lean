import Catena.Codegen.Param

/-!
# The generated body

The initializers of the values, and the variables that the generator declares in the body: the
constraints, and for each param or command its value, the descriptors of it and its sub-params, and
the object that ties them together.
-/

namespace Catena.Codegen

/-! ## Initializers -/

/-- An initializer in C++, as the generator writes it. -/
inductive Init where
  /-- The text between quotation marks. -/
  | literal (text : String)
  | number (text : String)
  /-- A list in braces. -/
  | braces (items : List Init)
  /-- The field of that name, with a dot before it. -/
  | field (name : String) (init : Init)
  | typed (type : String) (init : Init)

/-- `valueInitializer` for one value: what it gives for a type and a param. -/
abbrev Initializer : Type := String → Param → Except JsError Init

/-- The names that `in` finds in every object. -/
def objectPrototype : List String :=
  ["constructor", "__defineGetter__", "__defineSetter__", "hasOwnProperty", "__lookupGetter__",
    "__lookupSetter__", "isPrototypeOf", "propertyIsEnumerable", "toString", "valueOf",
    "__proto__", "toLocaleString"]

/-- `field in fields`. -/
def inObject {α : Type} (field : String) (fields : List (String × α)) : Bool :=
  (fields.lookup field).isSome || objectPrototype.contains field

/-- The definition that is consulted for the value of a param. -/
def Param.definition (param : Param) : Param := param.template_param.getD param

/-- The initializer of one field. What every object inherits has no key of its own. -/
def fieldInit (fields : List (String × Initializer)) (param : Param) (field : String) :
    Except JsError Init :=
  match param.getParam [field] with
  | none => .error ("Subparam " ++ field ++ " not found")
  | some subParam => do
      let initializer := (fields.lookup field).getD fun _ _ => .ok (.braces [])
      let init ← initializer subParam.type subParam.definition
      return .field subParam.cppIdentifier init

def struct_value (fields : Option (List (String × Initializer))) (param : Param) :
    Except JsError (List Init) :=
  match fields with
  | none => .error "Struct value must have fields map"
  | some fields => (param.keys.filter (inObject · fields)).mapM (fieldInit fields param)

def struct_variant_value (value : Option String × Option Initializer) (param : Param) :
    Except JsError Init :=
  match value with
  | (none, _) => .error "struct_variant_value must have struct_variant_type"
  | (some struct_variant_type, value) =>
      match param.getParam [struct_variant_type] with
      | none => .error (struct_variant_type ++ " is not an alternative of " ++ param.oid)
      | some subParam =>
          match value with
          | none => .error "struct_variant_value must have value field"
          | some initializer => do
              let type ← subParam.definition.objectNamespaceType
              let init ← initializer subParam.type subParam.definition
              return .typed type init

def struct_variants (value : Option (Option String × Option Initializer)) (param : Param) :
    Except JsError Init :=
  match value with
  | none => .error "struct_variants must have struct_variant_type"
  | some value => do
      let init ← struct_variant_value value param
      return .braces [init]

/-- The value under a key, in braces, if the type of the param allows the key. -/
def keyed (key : String) (value : Param → Except JsError (List Init)) : Initializer :=
  fun type param => do
    let expected ← valueTypeArg type
    if key ≠ expected then
      .error ("Value type " ++ key ++ " does not match param type " ++ expected)
    else
      let items ← value param
      return .braces items

namespace JsValue

mutual

/-- `valueInitializer`. -/
def initializer : JsValue → Initializer
  | undefined => fun _ _ => .ok (.braces [])
  | empty_value => keyed "empty_value" fun _ => .ok []
  | string_value typeValue => keyed "string_value" fun _ => .ok [.literal typeValue]
  | int32_value typeValue => keyed "int32_value" fun _ => .ok [.number (toString typeValue)]
  | float32_value typeValue => keyed "float32_value" fun _ => .ok [.number typeValue]
  | string_array_values strings => keyed "string_array_values" fun _ => .ok (strings.map .literal)
  | int32_array_values ints =>
      keyed "int32_array_values" fun _ => .ok (ints.map fun n => .number (toString n))
  | float32_array_values floats => keyed "float32_array_values" fun _ => .ok (floats.map .number)
  | struct_value fields => keyed "struct_value" (Codegen.struct_value (optionalFields fields))
  | struct_array_values struct_values =>
      let items := structs struct_values
      keyed "struct_array_values" fun param => items.mapM fun item => do
        let fields ← Codegen.struct_value item param
        return .braces fields
  | struct_variant_value struct_variant_type value =>
      let value := (struct_variant_type, optional value)
      keyed "struct_variant_value" fun param => do
        let init ← Codegen.struct_variant_value value param
        return [init]
  | struct_variants value =>
      let value := optionalVariant value
      keyed "struct_variants" fun param => do
        let init ← Codegen.struct_variants value param
        return [init]
  | struct_variant_array_values values =>
      let items := variants values
      keyed "struct_variant_array_values" fun param =>
        items.mapM fun item => Codegen.struct_variants item param

def optional : Option JsValue → Option Initializer
  | none => none
  | some value => some value.initializer

def optionalFields :
    Option (List (String × JsValue)) → Option (List (String × Initializer))
  | none => none
  | some fields => some (namedFields fields)

def namedFields : List (String × JsValue) → List (String × Initializer)
  | [] => []
  | (name, value) :: rest => (name, value.initializer) :: namedFields rest

def structs :
    List (Option (List (String × JsValue))) → List (Option (List (String × Initializer)))
  | [] => []
  | fields :: rest => optionalFields fields :: structs rest

def optionalVariant :
    Option (Option String × Option JsValue) → Option (Option String × Option Initializer)
  | none => none
  | some (struct_variant_type, value) => some (struct_variant_type, optional value)

def variants : List (Option (Option String × Option JsValue)) →
    List (Option (Option String × Option Initializer))
  | [] => []
  | value :: rest => optionalVariant value :: variants rest

end

end JsValue

/-- The definition of a variable for a value. -/
structure ValueDecl where
  type : String
  name : String
  init : Option Init

def Param.initializeValue (param : Param) : Except JsError ValueDecl := do
  let type ← param.objectType
  match param.value with
  | none => return { type, name := param.cppIdentifier, init := none }
  | some value =>
      let init ← value.initializer param.type param.definition
      return { type, name := param.cppIdentifier, init := some init }

/-! ## Declarations -/

/-- A variable of the body, with what it is declared for. -/
inductive Decl where
  | constraint (constraint : Constraint) (name : String)
  | value (param : Place) (decl : ValueDecl)
  /-- A descriptor has the address of a constraint and of another descriptor as arguments. -/
  | descriptor (param : Place) (constraint : Option Constraint) (name : String)
      (constraintArg parentArg : Option String)
  /-- An object has the names of a value and of a descriptor as arguments. -/
  | paramWithValue (param : Place) (name valueArg descriptorArg : String)

/-- The declarations so far, and the constraints for which `isInitialized` holds. -/
structure Body where
  decls : List Decl
  initialized : List Constraint

namespace Body

def write (body : Body) (decl : Decl) : Body := { body with decls := body.decls ++ [decl] }

/-- `getInitializer`, in a line of its own. -/
def writeConstraint (body : Body) (constraint : Constraint) : Body where
  decls := body.decls ++ [.constraint constraint constraint.variableName]
  initialized := body.initialized ++ [constraint]

def declareConstraint (body : Body) : Option Constraint → Body
  | none => body
  | some constraint =>
      if constraint ∈ body.initialized then body else body.writeConstraint constraint

/-- `getArgs`: no parent if the name is empty. -/
def parentArg (parentVarName : String) : Option String :=
  if parentVarName = "" then none else some (parentVarName ++ "Descriptor")

/-- The constraint and the descriptor of a param, without its sub-params. -/
def writeDescriptor (body : Body) (place : Place) (oid : String) (constraint : Option Constraint)
    (parentVarName : String) : Body :=
  (body.declareConstraint constraint).write
    (.descriptor place constraint (parentVarName ++ "_" ++ getCppIdentifier oid ++ "Descriptor")
      (constraint.map Constraint.variableName) (parentArg parentVarName))

end Body

mutual

/-- `writeConstraintsAndDescriptors`, for a param that stands at a place. -/
def Param.writeConstraintsAndDescriptors (place : Place) (parentVarName : String) (body : Body) :
    Param → Body
  | { oid, type, constraint, template_param, subParams, .. } =>
      let varName := parentVarName ++ "_" ++ getCppIdentifier oid
      let body := body.writeDescriptor place oid constraint parentVarName
      if Codegen.hasTypeInfo type then
        match template_param with
        | none => writeSubParams place varName body subParams
        | some template =>
            if template.hasTypeInfo then template.writeGetSubParams place varName body
            else writeSubParams place varName body subParams
      else body

/-- The loop over `getSubParams`: those of the template, if it has type information. -/
def Param.writeGetSubParams (place : Place) (varName : String) (body : Body) : Param → Body
  | { template_param, subParams, .. } =>
      match template_param with
      | none => writeSubParams place varName body subParams
      | some template =>
          if template.hasTypeInfo then template.writeGetSubParams place varName body
          else writeSubParams place varName body subParams

def writeSubParams (place : Place) (varName : String) (body : Body) : List Param → Body
  | [] => body
  | subParam :: rest =>
      let body := subParam.writeConstraintsAndDescriptors (place.sub subParam.oid) varName body
      writeSubParams place varName body rest

end

def Param.initializeParamWithValue (param : Param) (place : Place) : Except JsError Decl := do
  let name := "_" ++ param.cppIdentifier ++ "Param"
  let descriptorArg := "_" ++ param.cppIdentifier ++ "Descriptor"
  if !param.isCommand && param.value.isSome then
    let _ ← param.objectNamespaceType
    return .paramWithValue place name param.cppIdentifier descriptorArg
  else return .paramWithValue place name "catena::common::emptyValue" descriptorArg

def Body.writeValue (body : Body) (place : Place) (param : Param) : Except JsError Body :=
  if param.value.isSome then do
    let decl ← param.initializeValue
    return body.write (.value place decl)
  else .ok body

/-- What the generator writes for a complete param of the device. -/
def Body.writeParam (body : Body) (place : Place) (param : Param) : Except JsError Body := do
  let body ← body.writeValue place param
  let body := param.writeConstraintsAndDescriptors place "" body
  let decl ← param.initializeParamWithValue place
  return body.write decl

/-! ## The generator -/

structure CppGen where
  device : Device
  body : Body

namespace CppGen

def addConstraint (gen : CppGen) (oid : String) : CppGen where
  device := { gen.device with constraints := gen.device.constraints ++ [oid] }
  body := gen.body.writeConstraint (.shared oid)

def constraints (gen : CppGen) : List (String × String) → Except JsError CppGen
  | [] => .ok gen
  | (oid, type) :: rest => do
      findType type
      constraints (gen.addConstraint oid) rest

/-- A complete param or command is added to the device. -/
def add (gen : CppGen) (param : Param) : Root → Device
  | .params => { gen.device with params := gen.device.params ++ [param] }
  | .commands => { gen.device with commands := gen.device.commands ++ [param] }

/-- The loop over the params, or over the commands. -/
def topLevel (namespaceName : String) (root : Root) (gen : CppGen) :
    List (String × ParamDesc) → Except JsError CppGen
  | [] => .ok gen
  | (oid, desc) :: rest => do
      let place := ⟨root, [oid]⟩
      let param ← newParam gen.device oid namespaceName (root = .commands) place desc
      let body ← gen.body.writeParam place param
      topLevel namespaceName root { device := gen.add param root, body } rest

def params (namespaceName : String) (gen : CppGen) :
    List (String × ParamDesc) → Except JsError CppGen :=
  topLevel namespaceName .params gen

def commands (namespaceName : String) (gen : CppGen) :
    List (String × ParamDesc) → Except JsError CppGen :=
  topLevel namespaceName .commands gen

end CppGen

/-- `generate`, the part of it that declares these variables. -/
def generate (desc : DeviceDesc) : Except JsError CppGen := do
  let gen ← CppGen.constraints ⟨⟨[], [], []⟩, ⟨[], []⟩⟩ desc.constraints
  let gen ← CppGen.params desc.namespaceName gen desc.params
  CppGen.commands desc.namespaceName gen desc.commands

end Catena.Codegen
