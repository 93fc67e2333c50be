import Catena.Go.Value

/-!
# Round trips of values

What `ToProto` encodes, `FromProto` decodes to the value it was made from. The other way round
`ToProto` refuses some values that `FromProto` accepts: a struct without fields, and a payload
without data. `Reencodable` says that there is no such part.
-/

namespace Catena.Go

theorem dataPayloadFromProto_toProto {dp : DataPayload} {pdp : Protos.DataPayload}
    (h : dataPayloadToProto dp = .ok pdp) : dataPayloadFromProto (some pdp) = .ok dp := by
  obtain ⟨metadata, digest, payloadEncoding, payload, url⟩ := dp
  simp only [dataPayloadToProto] at h
  split at h
  · rename_i hurl
    cases h
    obtain rfl : payload = [] := List.length_eq_zero_iff.mp hurl.2
    rfl
  · split at h
    · rename_i hpayload
      cases h
      obtain rfl : url = "" := hpayload.2
      rfl
    · cases h

theorem toProto_structVariant {type : String} {value : Native} {p : Protos.Value} :
    toProto (.structVariant type value) = .ok p ↔
      ∃ protoVal, toProto value = .ok protoVal ∧ p = .structVariantValue type protoVal := by
  by_cases hnil : value = .nil
  · subst hnil
    simp [toProto]
  · rw [toProto]
    · cases toProto value with
      | error sr => simp
      | ok protoVal => simp [eq_comm]
    · exact hnil

mutual

theorem fromProto_toProto : ∀ (v : Native) {p : Protos.Value},
    toProto v = .ok p → fromProto p = .ok v
  | .nil, p, h => by cases h
  | .unsupported type, p, h => by cases h
  | .undefinedValue v, p, h => by
    cases h
    rfl
  | .emptyValue, p, h => by
    cases h
    rfl
  | .int32 v, p, h => by
    cases h
    rfl
  | .float32 v, p, h => by
    cases h
    rfl
  | .string v, p, h => by
    cases h
    rfl
  | .int32s v, p, h => by
    cases h
    rfl
  | .float32s v, p, h => by
    cases h
    rfl
  | .strings v, p, h => by
    cases h
    rfl
  | .dataPayload dp, p, h => by
    simp only [toProto] at h
    cases hdp : dataPayloadToProto dp with
    | error res => simp [hdp] at h
    | ok pdp =>
      rw [hdp] at h
      cases h
      simp only [fromProto, dataPayloadFromProto_toProto hdp]
  | .map m, p, h => by
    simp only [toProto] at h
    split at h
    · cases h
    · cases hm : toProtoFields m with
      | error sr => simp [hm] at h
      | ok fields =>
        rw [hm] at h
        cases h
        simp only [fromProto, fromProtoFields_toProto m hm]
  | .maps none, p, h => by cases h
  | .maps (some ms), p, h => by
    simp only [toProto] at h
    cases hms : toProtoMaps ms with
    | error sr => simp [hms] at h
    | ok structArr =>
      rw [hms] at h
      cases h
      simp only [fromProto, fromProtoMaps_toProto ms hms]
  | .structVariant type value, p, h => by
    obtain ⟨protoVal, hval, rfl⟩ := toProto_structVariant.mp h
    simp only [fromProto, fromProto_toProto value hval]
  | .structVariants none, p, h => by cases h
  | .structVariants (some variants), p, h => by
    simp only [toProto] at h
    cases hvs : toProtoVariants variants with
    | error sr => simp [hvs] at h
    | ok structVariants =>
      rw [hvs] at h
      cases h
      simp only [fromProto, fromProtoVariants_toProto variants hvs]

theorem fromProtoFields_toProto : ∀ (m : List (String × Native))
    {fields : List (String × Protos.Value)},
    toProtoFields m = .ok fields → fromProtoFields fields = .ok m
  | [], fields, h => by
    cases h
    rfl
  | (k, v) :: m, fields, h => by
    simp only [toProtoFields] at h
    cases hv : toProto v with
    | error sr => simp [hv] at h
    | ok res =>
      cases hm : toProtoFields m with
      | error sr => simp [hv, hm] at h
      | ok rest =>
        rw [hv, hm] at h
        cases h
        simp only [fromProtoFields, fromProto_toProto v hv, fromProtoFields_toProto m hm]

theorem fromProtoMaps_toProto : ∀ (ms : List (List (String × Native)))
    {structArr : List (List (String × Protos.Value))},
    toProtoMaps ms = .ok structArr → fromProtoMaps structArr = .ok ms
  | [], structArr, h => by
    cases h
    rfl
  | m :: ms, structArr, h => by
    simp only [toProtoMaps] at h
    cases hm : toProtoFields m with
    | error sr => simp [hm] at h
    | ok fields =>
      cases hms : toProtoMaps ms with
      | error sr => simp [hm, hms] at h
      | ok rest =>
        rw [hm, hms] at h
        cases h
        simp only [fromProtoMaps, fromProtoFields_toProto m hm, fromProtoMaps_toProto ms hms]

theorem fromProtoVariants_toProto : ∀ (variants : List (String × Native))
    {structVariants : List (String × Protos.Value)},
    toProtoVariants variants = .ok structVariants → fromProtoVariants structVariants = .ok variants
  | [], structVariants, h => by
    cases h
    rfl
  | (type, value) :: variants, structVariants, h => by
    simp only [toProtoVariants] at h
    cases hv : toProto value with
    | error sr => simp [hv] at h
    | ok protoVal =>
      cases hvs : toProtoVariants variants with
      | error sr => simp [hv, hvs] at h
      | ok rest =>
        rw [hv, hvs] at h
        cases h
        simp only [fromProtoVariants, fromProto_toProto value hv,
          fromProtoVariants_toProto variants hvs]

end

mutual

/-- Every struct in the value has a field, except those that are elements of an array, and every
payload in it has data. -/
def Reencodable : Protos.Value → Prop
  | .structValue fields => fields ≠ [] ∧ ReencodableFields fields
  | .structArrayValues list => ReencodableMaps list
  | .structVariantValue _ value => Reencodable value
  | .structVariantArrayValues list => ReencodableFields list
  | .dataPayload (some ⟨_, _, _, .url url⟩) => url ≠ ""
  | .dataPayload (some ⟨_, _, _, .payload payload⟩) => payload ≠ []
  | .dataPayload (some ⟨_, _, _, .notSet⟩) => False
  | _ => True

/-- Also the variants of an array, whose names are no keys. -/
def ReencodableFields : List (String × Protos.Value) → Prop
  | [] => True
  | (_, v) :: fields => Reencodable v ∧ ReencodableFields fields

def ReencodableMaps : List (List (String × Protos.Value)) → Prop
  | [] => True
  | fields :: list => ReencodableFields fields ∧ ReencodableMaps list

end

theorem dataPayloadToProto_fromProto {pdp : Option Protos.DataPayload} {dp : DataPayload}
    (h : dataPayloadFromProto pdp = .ok dp) :
    toProto (.dataPayload dp) = .ok (.dataPayload pdp) ↔ Reencodable (.dataPayload pdp) := by
  cases pdp with
  | none => cases h
  | some pdp =>
    obtain ⟨metadata, digest, payloadEncoding, kind⟩ := pdp
    cases kind with
    | notSet =>
      cases h
      simp [toProto, dataPayloadToProto, Reencodable]
    | url url =>
      cases h
      by_cases hurl : url = "" <;> simp [toProto, dataPayloadToProto, Reencodable, hurl]
    | payload payload =>
      cases h
      by_cases hpayload : payload = [] <;>
        simp [toProto, dataPayloadToProto, Reencodable, hpayload, List.length_pos_iff]

theorem eq_nil_of_fromProtoFields {fields : List (String × Protos.Value)}
    {m : List (String × Native)} (h : fromProtoFields fields = .ok m) :
    m.length = 0 ↔ fields = [] := by
  cases fields with
  | nil =>
    cases h
    simp
  | cons field fields =>
    simp only [fromProtoFields] at h
    split at h
    · cases h
    · split at h
      · cases h
      · cases h
        simp

mutual

theorem toProto_fromProto : ∀ (p : Protos.Value) {v : Native}, fromProto p = .ok v →
    (toProto v = .ok p ↔ Reencodable p)
  | .nil, v, h => by cases h
  | .kindNotSet, v, h => by cases h
  | .undefinedValue _, v, h => by
    cases h
    simp [toProto, Reencodable]
  | .emptyValue, v, h => by
    cases h
    simp [toProto, Reencodable]
  | .int32Value _, v, h => by
    cases h
    simp [toProto, Reencodable]
  | .float32Value _, v, h => by
    cases h
    simp [toProto, Reencodable]
  | .stringValue _, v, h => by
    cases h
    simp [toProto, Reencodable]
  | .int32ArrayValues _, v, h => by
    cases h
    simp [toProto, Reencodable]
  | .float32ArrayValues _, v, h => by
    cases h
    simp [toProto, Reencodable]
  | .stringArrayValues _, v, h => by
    cases h
    simp [toProto, Reencodable]
  | .dataPayload pdp, v, h => by
    simp only [fromProto] at h
    cases hdp : dataPayloadFromProto pdp with
    | error res => simp [hdp] at h
    | ok dp =>
      rw [hdp] at h
      cases h
      exact dataPayloadToProto_fromProto hdp
  | .structValue fields, v, h => by
    simp only [fromProto] at h
    cases hm : fromProtoFields fields with
    | error sr => simp [hm] at h
    | ok m =>
      rw [hm] at h
      cases h
      have hfields := toProtoFields_fromProto fields hm
      simp only [toProto, Reencodable, ← hfields, eq_nil_of_fromProtoFields hm]
      by_cases hempty : fields = []
      · simp [hempty]
      · simp only [hempty, if_false, ne_eq, not_false_iff, true_and]
        cases toProtoFields m <;> simp
  | .structArrayValues list, v, h => by
    simp only [fromProto] at h
    cases harr : fromProtoMaps list with
    | error sr => simp [harr] at h
    | ok arr =>
      rw [harr] at h
      cases h
      have hmaps := toProtoMaps_fromProto list harr
      simp only [toProto, Reencodable, ← hmaps]
      cases toProtoMaps arr <;> simp
  | .structVariantValue type value, v, h => by
    simp only [fromProto] at h
    cases hval : fromProto value with
    | error sr => simp [hval] at h
    | ok val =>
      rw [hval] at h
      cases h
      have hvalue := toProto_fromProto value hval
      simp [toProto_structVariant, Reencodable, ← hvalue]
  | .structVariantArrayValues list, v, h => by
    simp only [fromProto] at h
    cases harr : fromProtoVariants list with
    | error sr => simp [harr] at h
    | ok arr =>
      rw [harr] at h
      cases h
      have hvariants := toProtoVariants_fromProto list harr
      simp only [toProto, Reencodable, ← hvariants]
      cases toProtoVariants arr <;> simp

theorem toProtoFields_fromProto : ∀ (fields : List (String × Protos.Value))
    {m : List (String × Native)}, fromProtoFields fields = .ok m →
    (toProtoFields m = .ok fields ↔ ReencodableFields fields)
  | [], m, h => by
    cases h
    simp [toProtoFields, ReencodableFields]
  | (k, v) :: fields, m, h => by
    simp only [fromProtoFields] at h
    cases hv : fromProto v with
    | error sr => simp [hv] at h
    | ok val =>
      cases hm : fromProtoFields fields with
      | error sr => simp [hv, hm] at h
      | ok rest =>
        rw [hv, hm] at h
        cases h
        simp only [toProtoFields, ReencodableFields, ← toProto_fromProto v hv,
          ← toProtoFields_fromProto fields hm]
        cases toProto val <;> cases toProtoFields rest <;> simp

theorem toProtoMaps_fromProto : ∀ (list : List (List (String × Protos.Value)))
    {arr : List (List (String × Native))}, fromProtoMaps list = .ok arr →
    (toProtoMaps arr = .ok list ↔ ReencodableMaps list)
  | [], arr, h => by
    cases h
    simp [toProtoMaps, ReencodableMaps]
  | fields :: list, arr, h => by
    simp only [fromProtoMaps] at h
    cases hm : fromProtoFields fields with
    | error sr => simp [hm] at h
    | ok m =>
      cases hms : fromProtoMaps list with
      | error sr => simp [hm, hms] at h
      | ok rest =>
        rw [hm, hms] at h
        cases h
        simp only [toProtoMaps, ReencodableMaps, ← toProtoFields_fromProto fields hm,
          ← toProtoMaps_fromProto list hms]
        cases toProtoFields m <;> cases toProtoMaps rest <;> simp

theorem toProtoVariants_fromProto : ∀ (list : List (String × Protos.Value))
    {arr : List (String × Native)}, fromProtoVariants list = .ok arr →
    (toProtoVariants arr = .ok list ↔ ReencodableFields list)
  | [], arr, h => by
    cases h
    simp [toProtoVariants, ReencodableFields]
  | (type, value) :: list, arr, h => by
    simp only [fromProtoVariants] at h
    cases hv : fromProto value with
    | error sr => simp [hv] at h
    | ok val =>
      cases hvs : fromProtoVariants list with
      | error sr => simp [hv, hvs] at h
      | ok rest =>
        rw [hv, hvs] at h
        cases h
        simp only [toProtoVariants, ReencodableFields, ← toProto_fromProto value hv,
          ← toProtoVariants_fromProto list hvs]
        cases toProto val <;> cases toProtoVariants rest <;> simp

end

/-- What `ToProto` accepts, `FromProto` gives back. -/
theorem toProto_lossless (v : Native) (p : Protos.Value) (h : toProto v = .ok p) :
    fromProto p = .ok v :=
  fromProto_toProto v h

theorem toProto_lossless_nested :
    ∃ p, toProto (.map [("level", .structVariants (some [("db", .maps (some [[]]))]))]) = .ok p ∧
      fromProto p = .ok (.map [("level", .structVariants (some [("db", .maps (some [[]]))]))]) :=
  ⟨_, rfl, toProto_lossless _ _ rfl⟩

/-- A value accepted from a client can be sent back exactly if it has no struct without fields,
other than the elements of struct arrays, and no payload without data. -/
theorem fromProto_reencodable_iff (p : Protos.Value) (v : Native) (h : fromProto p = .ok v) :
    toProto v = .ok p ↔ Reencodable p :=
  toProto_fromProto p h

theorem fromProto_reencodable_iff_array :
    toProto (.maps (some [[]])) = .ok (.structArrayValues [[]]) :=
  (fromProto_reencodable_iff (.structArrayValues [[]]) _ rfl).mpr ⟨trivial, trivial⟩

/-- A struct without fields is decoded, but not encoded again. -/
theorem emptyStruct_not_reencoded :
    ∃ v, fromProto (.structValue []) = .ok v ∧ ∀ p, toProto v ≠ .ok p :=
  ⟨.map [], rfl, fun p h => by cases h⟩

end Catena.Go
