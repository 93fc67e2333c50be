import Catena.Framework.ProtoJson

/-!
# The messages of a device

The message types that a `Device` of the `st2138` package is made of, with the names, types and
order of their fields. All their oneofs are called `kind`.
-/

namespace Catena.Go.Protos

open Catena.Framework

def detailLevel : List (Int × String) :=
  [(0, "FULL"), (1, "SUBSCRIPTIONS"), (2, "MINIMAL"), (3, "COMMANDS"), (4, "NONE"), (5, "UNSET")]

def constraintType : List (Int × String) :=
  [(0, "UNDEFINED"), (2, "INT_RANGE"), (4, "FLOAT_RANGE"), (5, "INT_CHOICE"), (6, "STRING_CHOICE"),
    (7, "STRING_STRING_CHOICE"), (8, "ALARM_TABLE")]

def paramType : List (Int × String) :=
  [(0, "UNDEFINED"), (1, "EMPTY"), (4, "INT32"), (6, "FLOAT32"), (7, "STRING"), (10, "STRUCT"),
    (11, "STRUCT_VARIANT"), (14, "INT32_ARRAY"), (16, "FLOAT32_ARRAY"), (17, "STRING_ARRAY"),
    (18, "BINARY"), (32, "STRUCT_ARRAY"), (33, "STRUCT_VARIANT_ARRAY"), (50, "DATA")]

def undefinedValue : List (Int × String) :=
  [(0, "UNDEFINED_VALUE")]

def severity : List (Int × String) :=
  [(0, "INFO"), (1, "WARNING"), (2, "SEVERE"), (3, "UNKNOWN"), (4, "REFUSED")]

def payloadEncoding : List (Int × String) :=
  [(0, "UNCOMPRESSED"), (1, "GZIP"), (2, "DEFLATE")]

/-- The message types, under their Go names without those of enclosing messages. -/
inductive MessageType where
  | device
  | constraint
  | alarmTableConstraint
  | alarm
  | polyglotText
  | int32RangeConstraint
  | int32ChoiceConstraint
  | intChoice
  | floatRangeConstraint
  | stringChoiceConstraint
  | stringStringChoiceConstraint
  | stringStringChoice
  | param
  | value
  | empty
  | structValue
  | int32List
  | float32List
  | stringList
  | structList
  | dataPayload
  | structVariantValue
  | structVariantList
  | importMessage
  | menuGroup
  | menu
  | languagePacks
  | languagePack

def plain (name : String) (type : ProtoType MessageType) : ProtoField MessageType :=
  { name, type }

def kind (name : String) (type : ProtoType MessageType) : ProtoField MessageType :=
  { name, type, oneof := some "kind" }

def schema : MessageType → List (ProtoField MessageType)
  | .device =>
      [plain "slot" (.scalar .uint32),
       plain "detail_level" (.scalar (.enum detailLevel)),
       plain "multi_set_enabled" (.scalar .bool),
       plain "subscriptions" (.scalar .bool),
       plain "constraints" (.map (.message .constraint)),
       plain "params" (.map (.message .param)),
       plain "menu_groups" (.map (.message .menuGroup)),
       plain "commands" (.map (.message .param)),
       plain "language_packs" (.message .languagePacks),
       plain "access_scopes" (.list (.scalar .string)),
       plain "default_scope" (.scalar .string)]
  | .constraint =>
      [plain "type" (.scalar (.enum constraintType)),
       kind "ref_oid" (.scalar .string),
       kind "alarm_table" (.message .alarmTableConstraint),
       kind "int32_range" (.message .int32RangeConstraint),
       kind "int32_choice" (.message .int32ChoiceConstraint),
       kind "float_range" (.message .floatRangeConstraint),
       kind "string_choice" (.message .stringChoiceConstraint),
       kind "string_string_choice" (.message .stringStringChoiceConstraint)]
  | .alarmTableConstraint =>
      [plain "alarms" (.list (.message .alarm))]
  | .alarm =>
      [plain "bit_value" (.scalar .int32),
       plain "severity" (.scalar (.enum severity)),
       plain "description" (.message .polyglotText)]
  | .polyglotText =>
      [plain "display_strings" (.map (.scalar .string))]
  | .int32RangeConstraint =>
      [plain "min_value" (.scalar .int32),
       plain "max_value" (.scalar .int32),
       plain "step" (.scalar .int32),
       plain "display_min" (.scalar .int32),
       plain "display_max" (.scalar .int32)]
  | .int32ChoiceConstraint =>
      [plain "choices" (.list (.message .intChoice))]
  | .intChoice =>
      [plain "value" (.scalar .int32),
       plain "name" (.message .polyglotText)]
  | .floatRangeConstraint =>
      [plain "min_value" (.scalar .float),
       plain "max_value" (.scalar .float),
       plain "step" (.scalar .float),
       plain "display_min" (.scalar .float),
       plain "display_max" (.scalar .float)]
  | .stringChoiceConstraint =>
      [plain "choices" (.list (.scalar .string)),
       plain "strict" (.scalar .bool)]
  | .stringStringChoiceConstraint =>
      [plain "choices" (.list (.message .stringStringChoice)),
       plain "strict" (.scalar .bool)]
  | .stringStringChoice =>
      [plain "value" (.scalar .string),
       plain "name" (.message .polyglotText)]
  | .param =>
      [plain "name" (.message .polyglotText),
       plain "type" (.scalar (.enum paramType)),
       plain "read_only" (.scalar .bool),
       plain "widget" (.scalar .string),
       plain "precision" (.scalar .uint32),
       plain "value" (.message .value),
       plain "constraint" (.message .constraint),
       plain "max_length" (.scalar .uint32),
       plain "total_length" (.scalar .uint32),
       plain "access_scope" (.scalar .string),
       plain "client_hints" (.map (.scalar .string)),
       plain "params" (.map (.message .param)),
       plain "response" (.scalar .bool),
       plain "help" (.message .polyglotText),
       plain "import" (.message .importMessage),
       plain "oid_aliases" (.list (.scalar .string)),
       plain "minimal_set" (.scalar .bool),
       plain "stateless" (.scalar .bool),
       plain "template_oid" (.scalar .string)]
  | .value =>
      [kind "undefined_value" (.scalar (.enum undefinedValue)),
       kind "empty_value" (.message .empty),
       kind "int32_value" (.scalar .int32),
       kind "float32_value" (.scalar .float),
       kind "string_value" (.scalar .string),
       kind "struct_value" (.message .structValue),
       kind "int32_array_values" (.message .int32List),
       kind "float32_array_values" (.message .float32List),
       kind "string_array_values" (.message .stringList),
       kind "struct_array_values" (.message .structList),
       kind "data_payload" (.message .dataPayload),
       kind "struct_variant_value" (.message .structVariantValue),
       kind "struct_variant_array_values" (.message .structVariantList)]
  | .empty => []
  | .structValue =>
      [plain "fields" (.map (.message .value))]
  | .int32List =>
      [plain "ints" (.list (.scalar .int32))]
  | .float32List =>
      [plain "floats" (.list (.scalar .float))]
  | .stringList =>
      [plain "strings" (.list (.scalar .string))]
  | .structList =>
      [plain "struct_values" (.list (.message .structValue))]
  | .dataPayload =>
      [plain "metadata" (.map (.scalar .string)),
       plain "digest" (.scalar .bytes),
       plain "payload_encoding" (.scalar (.enum payloadEncoding)),
       kind "url" (.scalar .string),
       kind "payload" (.scalar .bytes)]
  | .structVariantValue =>
      [plain "struct_variant_type" (.scalar .string),
       plain "value" (.message .value)]
  | .structVariantList =>
      [plain "struct_variants" (.list (.message .structVariantValue))]
  | .importMessage =>
      [plain "url" (.scalar .string),
       plain "digest" (.scalar .string)]
  | .menuGroup =>
      [plain "name" (.message .polyglotText),
       plain "menus" (.map (.message .menu)),
       plain "order" (.scalar .uint32)]
  | .menu =>
      [plain "name" (.message .polyglotText),
       plain "hidden" (.scalar .bool),
       plain "disabled" (.scalar .bool),
       plain "param_oids" (.list (.scalar .string)),
       plain "command_oids" (.list (.scalar .string)),
       plain "client_hints" (.map (.scalar .string)),
       plain "order" (.scalar .uint32)]
  | .languagePacks =>
      [plain "packs" (.map (.message .languagePack))]
  | .languagePack =>
      [plain "name" (.scalar .string),
       plain "words" (.map (.scalar .string))]

end Catena.Go.Protos
