import Mathlib.Algebra.Group.Nat.Defs
import Mathlib.Data.Rat.Defs
import Catena.Framework.JsonText
import Catena.Framework.Map
import Catena.Framework.Throws
import Catena.Framework.Unicode

/-!
# The container of a serialized device

`serialize` writes a signature, the length of the metadata, the metadata as a JSON text that also
records the size and the hash of what follows, and the encoded device. `deserialize` reads it
again.
-/

namespace Catena.Codegen

open Catena.Framework

/-- What is thrown: by the functions themselves with a message, by the runtime, or by the
definition of a device. -/
inductive SerdesError where
  | error (message : String)
  | rangeError
  | syntaxError
  | typeError
  | protobuf (why : String)

/-- A JavaScript string, by its code units. -/
abbrev JsString : Type := List UInt16

/-- What `JSON.parse` makes. The entries of an object are in their order. -/
inductive JsonValue where
  | null
  | bool (b : Bool)
  | number (n : ℚ)
  | string (s : JsString)
  | array (items : List JsonValue)
  | object (entries : List (JsString × JsonValue))

namespace JsonValue

/-- `value[key]`, where `undefined` is `none`. -/
def get (value : JsonValue) (key : String) : Except SerdesError (Option JsonValue) :=
  match value with
  | null => .error .typeError
  | object entries => .ok ((entries.find? fun e => e.1 = codeUnits key).map Prod.snd)
  | _ => .ok none

/-- `value === n`. -/
def isNumber (value : Option JsonValue) (n : ℚ) : Bool :=
  match value with
  | some (number m) => m = n
  | _ => false

/-- `value === s`. -/
def isString (value : Option JsonValue) (s : JsString) : Bool :=
  match value with
  | some (string t) => t = s
  | _ => false

end JsonValue

/-- The `protobuf.Type` of a device, whose descriptions are of type `δ` and whose messages are of
type `μ`. -/
structure DeviceDefinition (δ μ : Type) where
  fromObject : δ → Except SerdesError μ
  verify : μ → Option String
  encode : μ → List UInt8
  decode : List UInt8 → Except SerdesError μ
  toObject : μ → δ

/-- The libraries. `sha256` is the digest in hexadecimal, and `toText` what a template puts for a
value. -/
structure SerdesEnv (δ μ : Type) where
  getDeviceDefinition : Except SerdesError (DeviceDefinition δ μ)
  stringify : JsonValue → Text
  parse : Text → Option JsonValue
  toText : Option JsonValue → String
  sha256 : List UInt8 → JsString

def fileSignature : String := "CTNA"

/-- `header.writeUInt32LE(n, 4)`. -/
def writeUInt32LE (n : Nat) : Except SerdesError (List UInt8) :=
  if n < 2 ^ 32 then
    .ok [.ofNat n, .ofNat (n / 2 ^ 8), .ofNat (n / 2 ^ 16), .ofNat (n / 2 ^ 24)]
  else .error .rangeError

/-- `fileBuffer.readUInt32LE(4)`. -/
def readUInt32LE (fileBuffer : List UInt8) : Except SerdesError Nat :=
  match fileBuffer.drop 4 with
  | b₀ :: b₁ :: b₂ :: b₃ :: _ =>
      .ok (b₀.toNat + 2 ^ 8 * b₁.toNat + 2 ^ 16 * b₂.toNat + 2 ^ 24 * b₃.toNat)
  | _ => .error .rangeError

variable {δ μ : Type} (env : SerdesEnv δ μ)

/-- The metadata as it is written: an entry `payload` of the caller is replaced. -/
def fileMetadata (metadata : List (JsString × JsonValue)) (deviceBin : List UInt8) : JsonValue :=
  .object (setEntry metadata (codeUnits "payload") (.object
    [(codeUnits "size", .number deviceBin.length),
     (codeUnits "sha256", .string (env.sha256 deviceBin))]))

/-- `serialize`: the name of the file and what is written to it. -/
def serialize (desc : δ) (deviceName : String) (metadata : List (JsString × JsonValue)) :
    Except SerdesError (String × List UInt8) := do
  let deviceDefinition ← env.getDeviceDefinition
  let protoObj ← deviceDefinition.fromObject desc
  match deviceDefinition.verify protoObj with
  | some errMsg => .error (.error ("Invalid device model: " ++ errMsg))
  | none =>
      let deviceBin := deviceDefinition.encode protoObj
      let metadataStr := env.stringify (fileMetadata env metadata deviceBin)
      let metadataLen ← writeUInt32LE (utf8 metadataStr).length
      .ok ("device." ++ deviceName ++ ".bin",
        utf8 fileSignature.toList ++ metadataLen ++ utf8 metadataStr ++ deviceBin)

/-- `metadata.payload[key]`. -/
def payloadEntry (metadata : JsonValue) (key : String) : Except SerdesError (Option JsonValue) := do
  match ← metadata.get "payload" with
  | none => .error .typeError
  | some payload => payload.get key

/-- `JSON.parse`. -/
def parseJson (text : Text) : Except SerdesError JsonValue :=
  match env.parse text with
  | none => .error .syntaxError
  | some value => .ok value

/-- `deserialize` from the metadata on. -/
def deserializeParts (metadataBytes deviceBin : List UInt8) :
    Except SerdesError (JsonValue × δ) := do
  let metadata ← parseJson env (Utf8.decode metadataBytes)
  let size ← payloadEntry metadata "size"
  if JsonValue.isNumber size deviceBin.length then
    let sha256 ← payloadEntry metadata "sha256"
    if JsonValue.isString sha256 (env.sha256 deviceBin) then
      let deviceDefinition ← env.getDeviceDefinition
      let protoObj ← deviceDefinition.decode deviceBin
      .ok (metadata, deviceDefinition.toObject protoObj)
    else .error (.error "Protobuf SHA256 mismatch")
  else .error (.error ("Protobuf size mismatch, expected " ++ env.toText size ++ ", got " ++
    toString deviceBin.length))

/-- `deserialize`. The file is `none` if there is none. -/
def deserialize (input : String) (file : Option (List UInt8)) :
    Except SerdesError (JsonValue × δ) :=
  match file with
  | none => .error (.error ("Input file '" ++ input ++ "' does not exist"))
  | some fileBuffer =>
      let signature := Utf8.decode (fileBuffer.take 4)
      if signature = fileSignature.toList then do
        let metadataLen ← readUInt32LE fileBuffer
        deserializeParts env ((fileBuffer.drop 8).take metadataLen)
          (fileBuffer.drop (8 + metadataLen))
      else .error (.error
        ("Not a serialized Catena device, got '" ++ String.ofList signature ++ "'"))

/-! ## The header -/

theorem utf8_fileSignature : utf8 fileSignature.toList = [67, 84, 78, 65] := by decide

theorem take_of_signature {fileBuffer : List UInt8}
    (h : Utf8.decode (fileBuffer.take 4) = fileSignature.toList) :
    fileBuffer.take 4 = utf8 fileSignature.toList := by
  have hascii : ∀ c ∈ fileSignature.toList, ¬Utf8.Foreign c := by
    simp [fileSignature, Utf8.Foreign]
  have hbytes : fileBuffer.take 4 = utf8 (Utf8.decode (fileBuffer.take 4)) :=
    Utf8.eq_utf8_of_decode (by rwa [h])
  rwa [h] at hbytes

theorem readUInt32LE_written {n : Nat} {len : List UInt8} (h : writeUInt32LE n = .ok len)
    (rest : List UInt8) :
    len.length = 4 ∧ readUInt32LE (utf8 fileSignature.toList ++ len ++ rest) = .ok n := by
  simp only [writeUInt32LE] at h
  split at h
  · rename_i hn
    obtain rfl := Except.ok.inj h
    refine ⟨rfl, ?_⟩
    rw [utf8_fileSignature]
    simp only [readUInt32LE, List.cons_append, List.nil_append, List.drop_succ_cons, List.drop_zero,
      UInt8.toNat_ofNat']
    congr 1
    omega
  · cases h

section Read

variable (input : String)

theorem deserialize_header {n : Nat} {len : List UInt8} (h : writeUInt32LE n = .ok len)
    (rest : List UInt8) :
    deserialize env input (some (utf8 fileSignature.toList ++ len ++ rest)) =
      deserializeParts env (rest.take n) (rest.drop n) := by
  obtain ⟨hlength, hread⟩ := readUInt32LE_written h rest
  have hsignature : (utf8 fileSignature.toList ++ len ++ rest).take 4 =
      utf8 fileSignature.toList := by
    rw [List.append_assoc]
    exact List.take_left' rfl
  have hheader : (utf8 fileSignature.toList ++ len).length = 8 := by
    rw [List.length_append, hlength]
    rfl
  have hdrop : ∀ k, (utf8 fileSignature.toList ++ len ++ rest).drop (8 + k) = rest.drop k := by
    intro k
    rw [← hheader, List.drop_append, List.drop_eq_nil_of_le (Nat.le_add_right _ _),
      Nat.add_sub_cancel_left]
    rfl
  simp only [deserialize, hsignature, Utf8.decode_utf8, if_true, hread]
  exact congrArg₂ (deserializeParts env) (congrArg (List.take n) (hdrop 0)) (hdrop n)

theorem deserialize_notSignature {fileBuffer : List UInt8}
    (h : fileBuffer.take 4 ≠ utf8 fileSignature.toList) :
    ∃ e, deserialize env input (some fileBuffer) = .error e := by
  simp only [deserialize]
  rw [if_neg fun hsignature => h (take_of_signature hsignature)]
  exact ⟨_, rfl⟩

theorem deserialize_short {fileBuffer : List UInt8} (h : fileBuffer.length < 8) :
    ∃ e, deserialize env input (some fileBuffer) = .error e := by
  by_cases hsignature : Utf8.decode (fileBuffer.take 4) = fileSignature.toList
  · have hread : readUInt32LE fileBuffer = .error .rangeError := by
      simp only [readUInt32LE]
      split
      · rename_i hdrop
        have hlength := congrArg List.length hdrop
        simp only [List.length_drop, List.length_cons] at hlength
        omega
      · rfl
    simp only [deserialize]
    rw [if_pos hsignature, hread]
    exact ⟨_, rfl⟩
  · simp only [deserialize]
    rw [if_neg hsignature]
    exact ⟨_, rfl⟩

end Read

section Parts

variable {metadata : List (JsString × JsonValue)} {metadataBytes deviceBin : List UInt8}

theorem payloadEntry_fileMetadata (metadata : List (JsString × JsonValue))
    (deviceBin : List UInt8) :
    payloadEntry (fileMetadata env metadata deviceBin) "size" =
        .ok (some (.number deviceBin.length)) ∧
      payloadEntry (fileMetadata env metadata deviceBin) "sha256" =
        .ok (some (.string (env.sha256 deviceBin))) := by
  have hpayload : (fileMetadata env metadata deviceBin).get "payload" = .ok (some (.object
      [(codeUnits "size", .number deviceBin.length),
       (codeUnits "sha256", .string (env.sha256 deviceBin))])) := by
    simp only [fileMetadata, JsonValue.get, find?_setEntry]
    rfl
  have hne : codeUnits "size" ≠ codeUnits "sha256" := by decide
  simp only [payloadEntry, hpayload]
  refine ⟨?_, ?_⟩
  · simp [bind, Except.bind, JsonValue.get]
  · simp [bind, Except.bind, JsonValue.get, hne]

theorem deserializeParts_written
    (hparse : env.parse (Utf8.decode metadataBytes) = some (fileMetadata env metadata deviceBin))
    {deviceDefinition : DeviceDefinition δ μ}
    (hdefinition : env.getDeviceDefinition = .ok deviceDefinition) {protoObj : μ}
    (hdecode : deviceDefinition.decode deviceBin = .ok protoObj) :
    deserializeParts env metadataBytes deviceBin =
      .ok (fileMetadata env metadata deviceBin, deviceDefinition.toObject protoObj) := by
  obtain ⟨hsize, hsha256⟩ := payloadEntry_fileMetadata env metadata deviceBin
  simp only [deserializeParts, parseJson, hparse, hsize, hsha256, hdefinition, hdecode, bind,
    Except.bind, JsonValue.isNumber, JsonValue.isString, decide_true, if_true]

theorem deserializeParts_size {deviceBin' : List UInt8}
    (hparse : env.parse (Utf8.decode metadataBytes) = some (fileMetadata env metadata deviceBin))
    (hlength : deviceBin'.length ≠ deviceBin.length) :
    ∃ e, deserializeParts env metadataBytes deviceBin' = .error e := by
  have hsize := (payloadEntry_fileMetadata env metadata deviceBin).1
  have hne : (deviceBin.length : ℚ) ≠ deviceBin'.length :=
    fun h => hlength (Rat.natCast_inj.mp h).symm
  simp only [deserializeParts, parseJson, hparse, hsize, bind, Except.bind, JsonValue.isNumber,
    decide_eq_true_eq, hne, if_false]
  exact ⟨_, rfl⟩

theorem deserializeParts_syntax (hparse : env.parse (Utf8.decode metadataBytes) = none) :
    ∃ e, deserializeParts env metadataBytes deviceBin = .error e := by
  simp only [deserializeParts, parseJson, hparse, bind, Except.bind]
  exact ⟨_, rfl⟩

end Parts

/-- What the standards say of `JSON`: `stringify` writes an object as a text of the grammar that
begins with its brace and has no white space around it, and `parse` accepts no other texts than
those of the grammar. -/
structure SerdesEnv.Standard (env : SerdesEnv δ μ) : Prop where
  value : ∀ entries, JsonText.Derives .value (env.stringify (.object entries))
  brace : ∀ entries, (env.stringify (.object entries)).head? = some '\x7b'
  grammar : ∀ text value, env.parse text = some value → JsonText.Derives .element text

/-- Metadata that are cut off are not parsed, wherever the cut is. -/
theorem parse_cut {env : SerdesEnv δ μ} (hstandard : env.Standard)
    (entries : List (JsString × JsonValue)) {p : List UInt8}
    (hp : p <+: utf8 (env.stringify (.object entries)))
    (hne : p ≠ utf8 (env.stringify (.object entries))) : env.parse (Utf8.decode p) = none := by
  have hbrace := hstandard.brace entries
  obtain ⟨t, c, rest, htext, hdecode⟩ := Utf8.decode_prefix hp hne
  have hprefix : t <+: env.stringify (.object entries) := ⟨c :: rest, htext.symm⟩
  have hproper : t ≠ env.stringify (.object entries) := by
    intro h
    rw [← h] at htext
    simp at htext
  have hcut := (hstandard.value entries).cut_object hbrace hprefix hproper
  cases hparse : env.parse (Utf8.decode p) with
  | none => rfl
  | some value =>
    have hderives := hstandard.grammar _ _ hparse
    rcases hdecode with hdecode | ⟨hforeign, hdecode⟩
    · rw [hdecode] at hderives
      exact absurd hderives hcut.1
    · -- a character is cut, so it is not the brace
      have hnil : t ≠ [] := by
        rintro rfl
        rw [htext] at hbrace
        obtain rfl := Option.some.inj hbrace
        exact absurd hforeign (by decide)
      rw [hdecode] at hderives
      exact absurd hderives (hcut.2 hnil _ (by decide))

theorem deserializeParts_cut {env : SerdesEnv δ μ} (hstandard : env.Standard)
    {metadata : List (JsString × JsonValue)} {deviceBin text : List UInt8}
    (htext : text = utf8 (env.stringify (fileMetadata env metadata deviceBin)))
    (hparse : env.parse (Utf8.decode text) = some (fileMetadata env metadata deviceBin))
    {q : List UInt8} (hq : q <+: text ++ deviceBin) (hne : q ≠ text ++ deviceBin) :
    ∃ e, deserializeParts env (q.take text.length) (q.drop text.length) = .error e := by
  have hmetadata : ∀ p, p <+: text → p ≠ text → env.parse (Utf8.decode p) = none := by
    intro p hp hp'
    rw [htext] at hp hp'
    exact parse_cut hstandard _ hp hp'
  rcases prefix_append_cases hq with hcut | ⟨rest, rfl, hrest⟩
  · by_cases hall : q = text
    · subst hall
      rw [List.take_length, List.drop_length]
      refine deserializeParts_size env hparse fun hlength => hne ?_
      rw [List.length_eq_zero_iff.mp hlength.symm, List.append_nil]
    · rw [List.take_of_length_le hcut.length_le]
      exact deserializeParts_syntax env (hmetadata q hcut hall)
  · rw [List.take_left, List.drop_left]
    refine deserializeParts_size env hparse fun hlength => hne ?_
    rw [hrest.eq_of_length hlength]

/-- What `serialize` has written. -/
theorem serialize_ok {desc : δ} {deviceName : String} {metadata : List (JsString × JsonValue)}
    {name : String} {file : List UInt8}
    (h : serialize env desc deviceName metadata = .ok (name, file)) :
    ∃ deviceDefinition protoObj len, env.getDeviceDefinition = .ok deviceDefinition ∧
      deviceDefinition.fromObject desc = .ok protoObj ∧
      writeUInt32LE (utf8 (env.stringify
        (fileMetadata env metadata (deviceDefinition.encode protoObj)))).length = .ok len ∧
      file = utf8 fileSignature.toList ++ len ++
        (utf8 (env.stringify (fileMetadata env metadata (deviceDefinition.encode protoObj))) ++
          deviceDefinition.encode protoObj) := by
  obtain ⟨deviceDefinition, hdefinition, h⟩ := bind_eq_ok_iff.mp h
  obtain ⟨protoObj, hobject, h⟩ := bind_eq_ok_iff.mp h
  split at h
  · cases h
  · obtain ⟨len, hlen, h⟩ := bind_eq_ok_iff.mp h
    obtain ⟨-, rfl⟩ := Prod.mk.inj (Except.ok.inj h)
    exact ⟨deviceDefinition, protoObj, len, hdefinition, hobject, hlen, List.append_assoc _ _ _⟩

/-- `serialize` writes the file for every description that the definition accepts, unless the
metadata are too long for their length to be written. -/
theorem serialize_returns {desc : δ} (deviceName : String) {metadata : List (JsString × JsonValue)}
    {deviceDefinition : DeviceDefinition δ μ} {protoObj : μ}
    (hdefinition : env.getDeviceDefinition = .ok deviceDefinition)
    (hobject : deviceDefinition.fromObject desc = .ok protoObj)
    (hverify : deviceDefinition.verify protoObj = none)
    (hlength : (utf8 (env.stringify
      (fileMetadata env metadata (deviceDefinition.encode protoObj)))).length < 2 ^ 32) :
    ∃ name file, serialize env desc deviceName metadata = .ok (name, file) := by
  simp only [serialize, hdefinition, hobject, hverify, writeUInt32LE, hlength, if_true, bind,
    Except.bind]
  exact ⟨_, _, rfl⟩

/-- The file of `serialize` is read again as what was written. It is refused when it is cut off
anywhere and when anything follows it, and so is a file that does not begin with the signature. -/
theorem deserialize_serialize {env : SerdesEnv δ μ} (hstandard : env.Standard) {desc : δ}
    {deviceName : String} {metadata : List (JsString × JsonValue)} {name : String}
    {file : List UInt8} (hfile : serialize env desc deviceName metadata = .ok (name, file))
    {deviceDefinition : DeviceDefinition δ μ} {protoObj : μ}
    (hdefinition : env.getDeviceDefinition = .ok deviceDefinition)
    (hobject : deviceDefinition.fromObject desc = .ok protoObj)
    (hproto : deviceDefinition.decode (deviceDefinition.encode protoObj) = .ok protoObj)
    (hjson : env.parse (env.stringify
        (fileMetadata env metadata (deviceDefinition.encode protoObj))) =
      some (fileMetadata env metadata (deviceDefinition.encode protoObj))) (input : String) :
    deserialize env input (some file) =
        .ok (fileMetadata env metadata (deviceDefinition.encode protoObj),
          deviceDefinition.toObject protoObj) ∧
      (∀ p, p <+: file → p ≠ file → ∃ e, deserialize env input (some p) = .error e) ∧
      (∀ p, file <+: p → p ≠ file → ∃ e, deserialize env input (some p) = .error e) ∧
      ∀ p, p.take 4 ≠ utf8 fileSignature.toList →
        ∃ e, deserialize env input (some p) = .error e := by
  obtain ⟨deviceDefinition', protoObj', len, hdefinition', hobject', hlen, hbytes⟩ :=
    serialize_ok env hfile
  obtain rfl := Except.ok.inj (hdefinition.symm.trans hdefinition')
  obtain rfl := Except.ok.inj (hobject.symm.trans hobject')
  generalize hbin : deviceDefinition.encode protoObj = deviceBin at *
  generalize htext : utf8 (env.stringify (fileMetadata env metadata deviceBin)) = text at *
  have hparse : env.parse (Utf8.decode text) = some (fileMetadata env metadata deviceBin) := by
    rw [← htext, Utf8.decode_utf8]
    exact hjson
  have hheader : (utf8 fileSignature.toList ++ len).length = 8 := by
    rw [List.length_append, (readUInt32LE_written hlen []).1]
    rfl
  subst hbytes
  refine ⟨?_, fun p hp hne => ?_, fun p hp hne => ?_, fun p hp => ?_⟩
  · rw [deserialize_header env input hlen, List.take_left, List.drop_left]
    exact deserializeParts_written env hparse hdefinition hproto
  · by_cases hshort : p.length < 8
    · exact deserialize_short env input hshort
    · rcases prefix_append_cases hp with hp | ⟨q, rfl, hq⟩
      · -- all of the header and nothing else
        have hwhole := hp.eq_of_length_le (by omega)
        rw [hwhole, ← List.append_nil (utf8 fileSignature.toList ++ len),
          deserialize_header env input hlen]
        refine deserializeParts_cut hstandard htext.symm hparse List.nil_prefix fun h => hne ?_
        rw [hwhole, ← h, List.append_nil]
      · rw [deserialize_header env input hlen]
        exact deserializeParts_cut hstandard htext.symm hparse hq fun h => hne (h ▸ rfl)
  · obtain ⟨more, rfl⟩ := hp
    rw [List.append_assoc, deserialize_header env input hlen, List.append_assoc text,
      List.take_left, List.drop_left]
    refine deserializeParts_size env hparse fun hlength => hne ?_
    rw [List.length_append] at hlength
    rw [List.length_eq_zero_iff.mp (Nat.add_eq_left.mp hlength), List.append_nil]
  · exact deserialize_notSignature env input hp

section Sample

/-- The digest of the two bytes of a device in slot 111. -/
def sampleDigest : String := "a4584b109a0070fa920f3a55574a307f09631ab756125fa6adb33a1d4b1745d4"

def sampleEntry (name : String) (value : Text) : Text := '"' :: name.toList ++ ['"'] ++ ':' :: value

/-- The text of the metadata without any of the caller, for that device. -/
def sampleText : Text :=
  '\x7b' :: sampleEntry "payload" ('\x7b' :: (sampleEntry "size" ['2'] ++
    ',' :: sampleEntry "sha256" ('"' :: sampleDigest.toList ++ ['"'])) ++ ['\x7d']) ++ ['\x7d']

def sampleMetadata : JsonValue :=
  .object [(codeUnits "payload", .object
    [(codeUnits "size", .number 2), (codeUnits "sha256", .string (codeUnits sampleDigest))])]

def sampleEnv : SerdesEnv Nat Nat where
  getDeviceDefinition := .ok
    { fromObject := .ok
      verify := fun _ => none
      encode := fun slot => [8, .ofNat slot]
      decode := fun bytes => if bytes = [8, 111] then .ok 111 else .error (.protobuf "wire type")
      toObject := id }
  stringify := fun value =>
    match payloadEntry value "size" with
    | .ok size => if JsonValue.isNumber size 2 then sampleText else ['\x7b', '\x7d']
    | .error _ => ['\x7b', '\x7d']
  parse := fun text =>
    if text = sampleText then some sampleMetadata
    else if text = ['\x7b', '\x7d'] then some (.object [])
    else none
  toText := fun _ => ""
  sha256 := fun bytes => if bytes = [8, 111] then codeUnits sampleDigest else []

open JsonText

def isPlain (c : Char) : Bool := 0x20 ≤ c.toNat && c != '"' && c != '\\'

theorem isString_of_plain {text : Text} (h : text.all isPlain = true) :
    IsString ('"' :: text ++ ['"']) := by
  refine ⟨text, ?_, rfl⟩
  induction text with
  | nil => exact .nil
  | cons c text ih =>
    simp only [List.all_cons, isPlain, Bool.and_eq_true, decide_eq_true_eq, bne_iff_ne] at h
    exact .plain h.1.1.1 h.1.1.2 h.1.2 (ih h.2)

theorem derives_element {text : Text} (h : Derives .value text) : Derives .element text := by
  have hspace : IsSpace [] := by simp [IsSpace]
  simpa using Derives.element hspace h hspace

theorem derives_sampleEntry {name : String} (hname : name.toList.all isPlain = true)
    {value : Text} (h : Derives .value value) : Derives .member (sampleEntry name value) := by
  have hspace : IsSpace [] := by simp [IsSpace]
  simpa [sampleEntry] using
    Derives.member hspace (isString_of_plain hname) hspace (derives_element h)

theorem derives_sampleText : Derives .value sampleText := by
  refine .object (.lastMember (derives_sampleEntry (by decide) (.object (.nextMember
    (derives_sampleEntry (by decide) (.number ?_)) (.lastMember
      (derives_sampleEntry (by decide) (.string (isString_of_plain (by decide)))))))))
  exact ⟨[], ['2'], [], [], rfl, Or.inl rfl, ⟨by simp, by simp⟩, by simp, Or.inl rfl, Or.inl rfl⟩

theorem sampleEnv_standard : sampleEnv.Standard := by
  have hspace : IsSpace [] := by simp [IsSpace]
  have hempty : Derives .value ['\x7b', '\x7d'] := .emptyObject hspace
  refine ⟨fun entries => ?_, fun entries => ?_, fun text value hparse => ?_⟩
  · simp only [sampleEnv]
    split
    · split
      · exact derives_sampleText
      · exact hempty
    · exact hempty
  · simp only [sampleEnv]
    split
    · split <;> rfl
    · rfl
  · simp only [sampleEnv] at hparse
    split at hparse
    · rename_i htext
      exact htext ▸ derives_element derives_sampleText
    · split at hparse
      · rename_i htext
        exact htext ▸ derives_element hempty
      · cases hparse

end Sample

theorem deserialize_serialize_sample :
    ∃ name file, serialize sampleEnv 111 "TestDevice" [] = .ok (name, file) ∧
      deserialize sampleEnv "device.TestDevice.bin" (some file) = .ok (sampleMetadata, 111) := by
  have hmetadata : fileMetadata sampleEnv [] [8, 111] = sampleMetadata := rfl
  have hstringify : sampleEnv.stringify sampleMetadata = sampleText := rfl
  have hlength : (utf8 (sampleEnv.stringify sampleMetadata)).length < 2 ^ 32 := by
    rw [hstringify]
    decide
  obtain ⟨name, file, hfile⟩ :
      ∃ name file, serialize sampleEnv 111 "TestDevice" [] = .ok (name, file) :=
    serialize_returns sampleEnv "TestDevice" rfl rfl rfl hlength
  refine ⟨name, file, hfile, ?_⟩
  have hjson : sampleEnv.parse (sampleEnv.stringify (fileMetadata sampleEnv [] [8, 111])) =
      some (fileMetadata sampleEnv [] [8, 111]) := by
    rw [hmetadata, hstringify]
    rfl
  exact (deserialize_serialize sampleEnv_standard hfile rfl rfl rfl hjson _).1

end Catena.Codegen
