import Mathlib.Logic.Basic

/-!
# Descriptions of params

The parts of a device model that the generator of C++ code reads. An object is the list of its
properties, in the order in which they are enumerated.
-/

namespace Catena.Codegen

/-- The value of a param. What is `undefined` in it is `none`. A number with a fraction is kept as
the text that it is printed as. -/
inductive JsValue where
  /-- An object without a property. -/
  | undefined
  | empty_value
  | string_value (typeValue : String)
  | int32_value (typeValue : Int)
  | float32_value (typeValue : String)
  | string_array_values (strings : List String)
  | int32_array_values (ints : List Int)
  | float32_array_values (floats : List String)
  | struct_value (fields : Option (List (String × JsValue)))
  | struct_array_values (struct_values : List (Option (List (String × JsValue))))
  | struct_variant_value (struct_variant_type : Option String) (value : Option JsValue)
  | struct_variants (struct_variant_value : Option (Option String × Option JsValue))
  | struct_variant_array_values
      (struct_variants : List (Option (Option String × Option JsValue)))

/-- A shared constraint, by its oid, or one that the param owns, by its type. -/
inductive ConstraintDesc where
  | ref (ref_oid : String)
  | inline (type : String)

/-- The description of a param or command. -/
structure ParamDesc where
  type : String
  value : Option JsValue
  constraint : Option ConstraintDesc
  template_oid : Option String
  params : Option (List (String × ParamDesc))

/-- The description of a device. The oids of the shared constraints are distinct, as all names of
the properties of an object are. -/
structure DeviceDesc where
  namespaceName : String
  /-- The types of the constraints. -/
  constraints : List (String × String)
  params : List (String × ParamDesc)
  commands : List (String × ParamDesc)
  constraints_nodup : (constraints.map Prod.fst).Nodup

end Catena.Codegen
