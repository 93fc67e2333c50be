import Catena.Store.Status

/-!
# Protobuf values and constraints

`Value` is the oneof of `st2138::Value`. A constraint reads and rewrites such values:
ranges clamp on write, choices are tested during validation.
-/

namespace Catena.Store

/-- `st2138::Value`. A struct is a map from field names to values, kept as an association
list; the contents of a data payload are not looked at by the parameter code. -/
inductive Value where
  | kindNotSet
  | undefinedValue
  | emptyValue
  | int32Value (i : Int32)
  | float32Value (f : Float32)
  | stringValue (s : String)
  | structValue (fields : List (String × Value))
  | int32ArrayValues (ints : List Int32)
  | float32ArrayValues (floats : List Float32)
  | stringArrayValues (strings : List String)
  | structArrayValues (structValues : List (List (String × Value)))
  | structVariantValue (structVariantType : String) (value : Value)
  | structVariantArrayValues (structVariants : List (String × Value))
  | dataPayload

namespace Value

/-- The getter of a oneof member returns the proto3 default when another member is set. -/
def getInt32 : Value → Int32
  | .int32Value i => i
  | _ => 0

def getFloat32 : Value → Float32
  | .float32Value f => f
  | _ => 0

def getString : Value → String
  | .stringValue s => s
  | _ => ""

def find (fields : List (String × Value)) (name : String) : Option Value :=
  (fields.find? fun field => field.1 = name).map Prod.snd

/-- `fields()[name] = value` on the map of a struct. -/
def insert : List (String × Value) → String → Value → List (String × Value)
  | [], name, value => [(name, value)]
  | field :: fields, name, value =>
      if field.1 = name then (name, value) :: fields else field :: insert fields name value

end Value

/-- The constraints a descriptor can carry. The step of a range is the one stored by the
constructor, after `std::abs`. -/
inductive Constraint where
  | intRange (min max step : Int32)
  | floatRange (min max step : Float32)
  | intChoice (choices : List Int32)
  | stringChoice (choices : List String) (strict : Bool)
  | stringStringChoice (choices : List String) (strict : Bool)

namespace Constraint

/-- `isRange`. -/
def isRange : Constraint → Bool
  | .intRange .. | .floatRange .. => true
  | _ => false

/-- `RangeConstraint<int32_t>::apply` on the held integer. -/
def applyInt (min max step s : Int32) : Int32 :=
  if s < min then min
  else if s > max then max
  else if step ≠ 0 ∧ (s - min) % step ≠ 0 then s - (s - min) % step
  else s

/-- `RangeConstraint<float>::apply` on the held float. -/
def applyFloat (min max step val : Float32) : Float32 :=
  if val < min then min
  else if val > max then max
  else if step != 0 then
    let steps := ((val - min) / step).round
    let newVal := steps * step + min
    if newVal < min then min else if newVal > max then max else newVal
  else val

/-- `apply`: a range answers the unset value for a source of another kind, a choice always. -/
def apply : Constraint → Value → Value
  | .intRange min max step, .int32Value s => .int32Value (applyInt min max step s)
  | .floatRange min max step, .float32Value f => .float32Value (applyFloat min max step f)
  | _, _ => .kindNotSet

/-- `satisfied`. -/
def satisfied : Constraint → Value → Bool
  | .intRange min max step, src =>
      match src with
      | .int32Value s => min ≤ s && s ≤ max && (step = 0 || (s - min) % step = 0)
      | _ => false
  | .floatRange min max step, src =>
      match src with
      | .float32Value val =>
          if min ≤ val ∧ val ≤ max then
            step == 0 || (applyFloat min max step val - val).abs < step * 0.0001
          else false
      | _ => false
  | .intChoice choices, src => choices.contains src.getInt32
  | .stringChoice choices strict, src => !strict || choices.contains src.getString
  | .stringStringChoice choices strict, src => !strict || choices.contains src.getString

end Constraint

end Catena.Store
