import Catena.Go.Status

/-!
# Native values and protobuf values

`ToProto` and `FromProto` convert between `any` and `protos.Value`. A map is the list of its
entries, which a loop visits in the order of the list; the order only decides which of several
errors is reported. A slice or a map that is nil is the empty list where the code does not tell
the two apart, and a message that is nil reads as an empty one, as its getters do.
-/

namespace Catena.Go

/-- The oneof of `protos.DataPayload`. -/
inductive PayloadKind where
  | notSet
  | url (url : String)
  | payload (payload : List UInt8)
  deriving DecidableEq, Repr

namespace Protos

structure DataPayload where
  metadata : List (String × String)
  digest : List UInt8
  payloadEncoding : Int32
  kind : PayloadKind
  deriving DecidableEq, Repr

/-- A pointer to a `protos.Value`. -/
inductive Value where
  | nil
  | kindNotSet
  | undefinedValue (v : Int32)
  | emptyValue
  | int32Value (v : Int32)
  | float32Value (v : Float32)
  | stringValue (v : String)
  | int32ArrayValues (ints : List Int32)
  | float32ArrayValues (floats : List Float32)
  | stringArrayValues (strings : List String)
  | structValue (fields : List (String × Value))
  | structArrayValues (structValues : List (List (String × Value)))
  | structVariantValue (structVariantType : String) (value : Value)
  | structVariantArrayValues (structVariants : List (String × Value))
  | dataPayload (payload : Option DataPayload)

end Protos

structure DataPayload where
  metadata : List (String × String) := []
  digest : List UInt8 := []
  payloadEncoding : Int32 := 0
  payload : List UInt8 := []
  url : String := ""
  deriving DecidableEq, Repr

/-- A value of type `any`. A slice that `ToProto` tests for nil is an `Option`. -/
inductive Native where
  | nil
  | undefinedValue (v : Int32)
  | emptyValue
  | int32 (v : Int32)
  | float32 (v : Float32)
  | string (v : String)
  | int32s (v : List Int32)
  | float32s (v : List Float32)
  | strings (v : List String)
  | dataPayload (dp : DataPayload)
  | map (m : List (String × Native))
  | maps (ms : Option (List (List (String × Native))))
  | structVariant (structVariantType : String) (value : Native)
  | structVariants (variants : Option (List (String × Native)))
  | unsupported (type : String)

def dataPayloadToProto (dp : DataPayload) : Except StatusResult Protos.DataPayload :=
  if dp.url ≠ "" ∧ dp.payload.length = 0 then
    .ok ⟨dp.metadata, dp.digest, dp.payloadEncoding, .url dp.url⟩
  else if 0 < dp.payload.length ∧ dp.url = "" then
    .ok ⟨dp.metadata, dp.digest, dp.payloadEncoding, .payload dp.payload⟩
  else .error (invalidArgument "either payload or url must be provided in DataPayload, but not both")

def dataPayloadFromProto : Option Protos.DataPayload → Except StatusResult DataPayload
  | none => .error (invalidArgument "nil DataPayload")
  | some pdp =>
      let dp : DataPayload :=
        { metadata := pdp.metadata, digest := pdp.digest, payloadEncoding := pdp.payloadEncoding }
      match pdp.kind with
      | .url url => .ok { dp with url }
      | .payload payload => .ok { dp with payload }
      | .notSet => .ok dp

def StatusResult.wrap (sr : StatusResult) (message : String) : StatusResult :=
  ⟨sr.code, message ++ sr.error⟩

mutual

def toProto : Native → Except StatusResult Protos.Value
  | .nil => .error (invalidArgument "nil value")
  | .dataPayload dp =>
      match dataPayloadToProto dp with
      | .error res => .error res
      | .ok pdp => .ok (.dataPayload (some pdp))
  | .undefinedValue v => .ok (.undefinedValue v)
  | .emptyValue => .ok .emptyValue
  | .int32 v => .ok (.int32Value v)
  | .float32 v => .ok (.float32Value v)
  | .string v => .ok (.stringValue v)
  | .int32s v => .ok (.int32ArrayValues v)
  | .float32s v => .ok (.float32ArrayValues v)
  | .strings v => .ok (.stringArrayValues v)
  | .map m =>
      if m.length = 0 then .error (invalidArgument "nil or empty map[string]any")
      else
        match toProtoFields m with
        | .error sr => .error sr
        | .ok fields => .ok (.structValue fields)
  | .maps none => .error (invalidArgument "nil []map[string]any")
  | .maps (some ms) =>
      match toProtoMaps ms with
      | .error sr => .error sr
      | .ok structArr => .ok (.structArrayValues structArr)
  | .structVariant _ .nil => .error (invalidArgument "nil StructVariantValue.Value")
  | .structVariant type value =>
      match toProto value with
      | .error sr => .error (sr.wrap "failed to convert StructVariantValue.Value: ")
      | .ok protoVal => .ok (.structVariantValue type protoVal)
  | .structVariants none => .error (invalidArgument "nil []StructVariantValue")
  | .structVariants (some variants) =>
      match toProtoVariants variants with
      | .error sr => .error sr
      | .ok structVariants => .ok (.structVariantArrayValues structVariants)
  | .unsupported type => .error (invalidArgument ("unsupported type: " ++ type))

/-- The loop over the entries of a `map[string]any`. -/
def toProtoFields : List (String × Native) → Except StatusResult (List (String × Protos.Value))
  | [] => .ok []
  | (k, v) :: m =>
      match toProto v with
      | .error sr => .error (sr.wrap ("failed to convert map field " ++ k ++ ": "))
      | .ok res =>
          match toProtoFields m with
          | .error sr => .error sr
          | .ok fields => .ok ((k, res) :: fields)

def toProtoMaps :
    List (List (String × Native)) → Except StatusResult (List (List (String × Protos.Value)))
  | [] => .ok []
  | m :: ms =>
      match toProtoFields m with
      | .error sr => .error sr
      | .ok fields =>
          match toProtoMaps ms with
          | .error sr => .error sr
          | .ok structArr => .ok (fields :: structArr)

def toProtoVariants : List (String × Native) → Except StatusResult (List (String × Protos.Value))
  | [] => .ok []
  | (type, value) :: variants =>
      match toProto value with
      | .error sr => .error (sr.wrap "failed to convert StructVariantValue.Value in array: ")
      | .ok protoVal =>
          match toProtoVariants variants with
          | .error sr => .error sr
          | .ok structVariants => .ok ((type, protoVal) :: structVariants)

end

mutual

def fromProto : Protos.Value → Except StatusResult Native
  | .nil => .error (invalidArgument "nil Value")
  | .dataPayload pdp =>
      match dataPayloadFromProto pdp with
      | .error res => .error res
      | .ok dp => .ok (.dataPayload dp)
  | .undefinedValue v => .ok (.undefinedValue v)
  | .emptyValue => .ok .emptyValue
  | .int32Value v => .ok (.int32 v)
  | .float32Value v => .ok (.float32 v)
  | .stringValue v => .ok (.string v)
  | .int32ArrayValues ints => .ok (.int32s ints)
  | .float32ArrayValues floats => .ok (.float32s floats)
  | .stringArrayValues strings => .ok (.strings strings)
  | .structValue fields =>
      match fromProtoFields fields with
      | .error sr => .error sr
      | .ok m => .ok (.map m)
  | .structArrayValues list =>
      match fromProtoMaps list with
      | .error sr => .error sr
      | .ok arr => .ok (.maps (some arr))
  | .structVariantValue type value =>
      match fromProto value with
      | .error sr => .error (sr.wrap "failed to convert struct variant value: ")
      | .ok val => .ok (.structVariant type val)
  | .structVariantArrayValues list =>
      match fromProtoVariants list with
      | .error sr => .error sr
      | .ok arr => .ok (.structVariants (some arr))
  | .kindNotSet => .error (invalidArgument "unsupported Value type: <nil>")

/-- The loop over the fields of a `protos.StructValue`. -/
def fromProtoFields : List (String × Protos.Value) → Except StatusResult (List (String × Native))
  | [] => .ok []
  | (k, v) :: fields =>
      match fromProto v with
      | .error sr => .error (sr.wrap ("failed to convert struct field " ++ k ++ ": "))
      | .ok val =>
          match fromProtoFields fields with
          | .error sr => .error sr
          | .ok m => .ok ((k, val) :: m)

def fromProtoMaps :
    List (List (String × Protos.Value)) → Except StatusResult (List (List (String × Native)))
  | [] => .ok []
  | fields :: list =>
      match fromProtoFields fields with
      | .error sr => .error sr
      | .ok m =>
          match fromProtoMaps list with
          | .error sr => .error sr
          | .ok arr => .ok (m :: arr)

def fromProtoVariants : List (String × Protos.Value) → Except StatusResult (List (String × Native))
  | [] => .ok []
  | (type, value) :: list =>
      match fromProto value with
      | .error sr => .error (sr.wrap "failed to convert struct variant value: ")
      | .ok val =>
          match fromProtoVariants list with
          | .error sr => .error sr
          | .ok arr => .ok ((type, val) :: arr)

end

end Catena.Go
