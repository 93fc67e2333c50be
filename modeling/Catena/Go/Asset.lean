import Catena.Framework.Map
import Catena.Go.Value

/-!
# Transcoding assets

`TranscodeAssetPayload` decodes the payload of an asset and encodes it again. It looks at the
encoding only, not at whether the asset has a payload: an asset that is a URL is encoded like one
without any bytes, unless its encoding says that there is something to decompress.
-/

namespace Catena.Go

abbrev Encoding : Type := Int32

def kEncodingUncompressed : Encoding := 0

def kEncodingGzip : Encoding := 1

def kEncodingDeflate : Encoding := 2

/-- `Encoding.String`. -/
def encodingString (e : Encoding) : String :=
  if e = kEncodingUncompressed then "UNCOMPRESSED"
  else if e = kEncodingGzip then "GZIP"
  else if e = kEncodingDeflate then "DEFLATE"
  else "Encoding(" ++ toString e ++ ")"

namespace Protos

structure ExternalObjectPayload where
  cachable : Bool
  payload : Option DataPayload
  deriving DecidableEq, Repr

/-- `GetPayload`, which is nil for any other kind. -/
def DataPayload.getPayload (pdp : DataPayload) : List UInt8 :=
  match pdp.kind with
  | .payload payload => payload
  | .url _ | .notSet => []

end Protos

/-- A pointer to a message. -/
structure Asset where
  asset : Option Protos.ExternalObjectPayload
  deriving DecidableEq, Repr

def toAsset (dp : DataPayload) (cachable : Bool) : Except StatusResult Asset :=
  match dataPayloadToProto dp with
  | .error res => .error res
  | .ok protoPayload => .ok ⟨some ⟨cachable, some protoPayload⟩⟩

/-- A pair of functions of `compress/gzip` or `compress/zlib`, each with the text of its error. -/
structure Compressor where
  compress : List UInt8 → Except String (List UInt8)
  decompress : List UInt8 → Except String (List UInt8)

/-- Compressing into a buffer succeeds and is undone, and nothing is no compressed data. -/
structure Compressor.Correct (c : Compressor) : Prop where
  roundTrip : ∀ data, ∃ compressed, c.compress data = .ok compressed ∧
    c.decompress compressed = .ok data
  empty : ∃ err, c.decompress [] = .error err

section Transcode

variable (gzip zlib : Compressor) (sha256 : List UInt8 → List UInt8)

def decodePayload (data : List UInt8) (encoding : Encoding) : Except String (List UInt8) :=
  if encoding = kEncodingGzip then gzip.decompress data
  else if encoding = kEncodingDeflate then zlib.decompress data
  else if encoding = kEncodingUncompressed then .ok data
  else .error ("unsupported encoding: " ++ encodingString encoding)

def encodePayload (data : List UInt8) (encoding : Encoding) : Except String (List UInt8) :=
  if encoding = kEncodingGzip then gzip.compress data
  else if encoding = kEncodingDeflate then zlib.compress data
  else if encoding = kEncodingUncompressed then .ok data
  else .error ("unsupported encoding: " ++ encodingString encoding)

/-- The asset after the call, and what the call returns. -/
def transcodeAssetPayload (asset : Asset) (targetEncoding : Encoding) : Asset × StatusResult :=
  match asset.asset with
  | none => (asset, ⟨.invalidArgument, "asset has no payload"⟩)
  | some original =>
      match original.payload with
      | none => (asset, ⟨.invalidArgument, "asset has no payload"⟩)
      | some dp =>
          let currentEncoding := dp.payloadEncoding
          if currentEncoding = targetEncoding then (asset, ⟨.ok, ""⟩)
          else
            match decodePayload gzip zlib dp.getPayload currentEncoding with
            | .error err => (asset, ⟨.internal, "decode: " ++ err⟩)
            | .ok rawData =>
                match encodePayload gzip zlib rawData targetEncoding with
                | .error err => (asset, ⟨.internal, "encode: " ++ err⟩)
                | .ok encodedData =>
                    let payload := { dp with
                      kind := .payload encodedData
                      payloadEncoding := targetEncoding
                      digest := sha256 encodedData }
                    (⟨some { original with payload := some payload }⟩, ⟨.ok, ""⟩)

/-! ## What a call should keep -/

/-- What an asset refers to: a URL, or bytes if its payload can be decoded. -/
inductive Content where
  | nothing
  | url (url : String)
  | bytes (data : Option (List UInt8))

def Asset.payload (a : Asset) : Option Protos.DataPayload := a.asset.bind (·.payload)

def Asset.content (a : Asset) : Content :=
  match a.payload with
  | none => .nothing
  | some pdp =>
      match pdp.kind with
      | .notSet => .nothing
      | .url url => .url url
      | .payload data => .bytes (decodePayload gzip zlib data pdp.payloadEncoding).toOption

/-- What one call keeps, and what it leaves behind. -/
structure Keeps (before : Asset) (target : Encoding) (after : Asset) (res : StatusResult) :
    Prop where
  content : after.content gzip zlib = before.content gzip zlib
  metadata : after.payload.map (·.metadata) = before.payload.map (·.metadata)
  cachable : after.asset.map (·.cachable) = before.asset.map (·.cachable)
  encoding : res.code = .ok → after.payload.map (·.payloadEncoding) = some target
  digest : after.payload.map (·.payloadEncoding) ≠ before.payload.map (·.payloadEncoding) →
    after.payload.map (·.digest) = after.payload.map fun pdp => sha256 pdp.getPayload
  unchanged : res.code ≠ .ok → after = before

/-- Each call of a sequence keeps what it should. -/
def Faithful : Asset → List Encoding → Prop
  | _, [] => True
  | asset, target :: targets =>
      let result := transcodeAssetPayload gzip zlib sha256 asset target
      Keeps gzip zlib sha256 asset target result.1 result.2 ∧ Faithful result.1 targets

end Transcode

/-- The URL would be overwritten: nothing is decoded, and the target is a compression. -/
def LosesUrl (dp : DataPayload) (targets : List Encoding) : Prop :=
  dp.url ≠ "" ∧ dp.payloadEncoding = kEncodingUncompressed ∧
    ∃ target ∈ targets, target = kEncodingGzip ∨ target = kEncodingDeflate

section Correct

variable {gzip zlib : Compressor}

/-- What was encoded is decoded again. -/
theorem decode_encode (hgzip : gzip.Correct) (hzlib : zlib.Correct) {data encoded : List UInt8}
    {encoding : Encoding} (h : encodePayload gzip zlib data encoding = .ok encoded) :
    decodePayload gzip zlib encoded encoding = .ok data := by
  rw [encodePayload] at h
  rw [decodePayload]
  split at h
  · rename_i hencoding
    obtain ⟨compressed, hcompress, hback⟩ := hgzip.roundTrip data
    rw [if_pos hencoding]
    rw [hcompress] at h
    rwa [← Except.ok.inj h]
  · rename_i hnotGzip
    rw [if_neg hnotGzip]
    split at h
    · rename_i hencoding
      obtain ⟨compressed, hcompress, hback⟩ := hzlib.roundTrip data
      rw [if_pos hencoding]
      rw [hcompress] at h
      rwa [← Except.ok.inj h]
    · rename_i hnotDeflate
      rw [if_neg hnotDeflate]
      split at h
      · rename_i hencoding
        rw [if_pos hencoding, Except.ok.inj h]
      · cases h

theorem Keeps.of_unchanged {sha256 : List UInt8 → List UInt8} {asset : Asset} {target : Encoding}
    {res : StatusResult}
    (h : res.code = .ok → asset.payload.map (·.payloadEncoding) = some target) :
    Keeps gzip zlib sha256 asset target asset res :=
  ⟨rfl, rfl, rfl, h, fun hne => absurd rfl hne, fun _ => rfl⟩

variable (sha256 : List UInt8 → List UInt8)

/-- The cases of a call on an asset with a payload message. -/
theorem transcode_cases (gzip zlib : Compressor) (cachable : Bool) (pdp : Protos.DataPayload)
    (target : Encoding) :
    let asset : Asset := ⟨some ⟨cachable, some pdp⟩⟩
    let result := transcodeAssetPayload gzip zlib sha256 asset target
    (result.1 = asset ∧ (result.2.code = .ok → pdp.payloadEncoding = target)) ∨
      ∃ raw encoded, pdp.payloadEncoding ≠ target ∧
        decodePayload gzip zlib pdp.getPayload pdp.payloadEncoding = .ok raw ∧
        encodePayload gzip zlib raw target = .ok encoded ∧
        result = (⟨some ⟨cachable, some { pdp with
          kind := .payload encoded, payloadEncoding := target, digest := sha256 encoded }⟩⟩,
          ⟨.ok, ""⟩) := by
  simp only [transcodeAssetPayload]
  split
  · rename_i hsame
    exact .inl ⟨rfl, fun _ => hsame⟩
  · rename_i hdiffers
    cases hdecode : decodePayload gzip zlib pdp.getPayload pdp.payloadEncoding with
    | error err => exact .inl ⟨rfl, nofun⟩
    | ok raw =>
      simp only
      cases hencode : encodePayload gzip zlib raw target with
      | error err => exact .inl ⟨rfl, nofun⟩
      | ok encoded => exact .inr ⟨raw, encoded, hdiffers, rfl, hencode, rfl⟩

theorem transcode_embedded (hgzip : gzip.Correct) (hzlib : zlib.Correct) (cachable : Bool)
    {pdp : Protos.DataPayload} {data : List UInt8} (hdata : pdp.kind = .payload data)
    (target : Encoding) :
    let asset : Asset := ⟨some ⟨cachable, some pdp⟩⟩
    let result := transcodeAssetPayload gzip zlib sha256 asset target
    Keeps gzip zlib sha256 asset target result.1 result.2 ∧
      ∃ pdp' data', result.1 = ⟨some ⟨cachable, some pdp'⟩⟩ ∧ pdp'.kind = .payload data' := by
  intro asset result
  rcases transcode_cases sha256 gzip zlib cachable pdp target with
    ⟨hsame, hok⟩ | ⟨raw, encoded, hdiffers, hdecode, hencode, hresult⟩
  · refine ⟨?_, pdp, data, hsame, hdata⟩
    rw [show result.1 = asset from hsame]
    exact .of_unchanged fun hcode => congrArg some (hok hcode)
  · rw [show result = _ from hresult]
    refine ⟨⟨?_, rfl, rfl, fun _ => rfl, fun _ => rfl, fun hne => absurd rfl hne⟩, _, encoded, rfl,
      rfl⟩
    have hraw : pdp.getPayload = data := by rw [Protos.DataPayload.getPayload, hdata]
    rw [hraw] at hdecode
    simp only [Asset.content, Asset.payload, Option.bind_some, asset, hdata, hdecode,
      decode_encode hgzip hzlib hencode]

theorem faithful_cons (asset : Asset) (target : Encoding) (targets : List Encoding) :
    Faithful gzip zlib sha256 asset (target :: targets) ↔
      Keeps gzip zlib sha256 asset target
          (transcodeAssetPayload gzip zlib sha256 asset target).1
          (transcodeAssetPayload gzip zlib sha256 asset target).2 ∧
        Faithful gzip zlib sha256 (transcodeAssetPayload gzip zlib sha256 asset target).1 targets :=
  Iff.rfl

theorem faithful_embedded (hgzip : gzip.Correct) (hzlib : zlib.Correct) (cachable : Bool)
    {pdp : Protos.DataPayload} {data : List UInt8} (hdata : pdp.kind = .payload data)
    (targets : List Encoding) :
    Faithful gzip zlib sha256 ⟨some ⟨cachable, some pdp⟩⟩ targets := by
  induction targets generalizing pdp data with
  | nil => trivial
  | cons target targets ih =>
    obtain ⟨hkeeps, pdp', data', hafter, hdata'⟩ :=
      transcode_embedded sha256 hgzip hzlib cachable hdata target
    rw [faithful_cons]
    refine ⟨hkeeps, ?_⟩
    rw [hafter]
    exact ih hdata'

theorem decode_url (hgzip : gzip.Correct) (hzlib : zlib.Correct) {pdp : Protos.DataPayload}
    {url : String} (hurl : pdp.kind = .url url) {raw : List UInt8}
    (h : decodePayload gzip zlib pdp.getPayload pdp.payloadEncoding = .ok raw) :
    pdp.payloadEncoding = kEncodingUncompressed ∧ raw = [] := by
  have hnone : pdp.getPayload = [] := by rw [Protos.DataPayload.getPayload, hurl]
  rw [hnone, decodePayload] at h
  split at h
  · obtain ⟨err, herr⟩ := hgzip.empty
    rw [herr] at h
    cases h
  split at h
  · obtain ⟨err, herr⟩ := hzlib.empty
    rw [herr] at h
    cases h
  split at h
  · rename_i hencoding
    exact ⟨hencoding, (Except.ok.inj h).symm⟩
  · cases h

/-- A call that would not compress leaves a URL as it is. -/
theorem transcode_url_unchanged (hgzip : gzip.Correct) (hzlib : zlib.Correct) (cachable : Bool)
    {pdp : Protos.DataPayload} {url : String} (hurl : pdp.kind = .url url) {target : Encoding}
    (h : pdp.payloadEncoding = kEncodingUncompressed →
      ¬(target = kEncodingGzip ∨ target = kEncodingDeflate)) :
    let asset : Asset := ⟨some ⟨cachable, some pdp⟩⟩
    let result := transcodeAssetPayload gzip zlib sha256 asset target
    Keeps gzip zlib sha256 asset target result.1 result.2 ∧ result.1 = asset := by
  intro asset result
  rcases transcode_cases sha256 gzip zlib cachable pdp target with
    ⟨hsame, hok⟩ | ⟨raw, encoded, hdiffers, hdecode, hencode, -⟩
  · refine ⟨?_, hsame⟩
    rw [show result.1 = asset from hsame]
    exact .of_unchanged fun hcode => congrArg some (hok hcode)
  · obtain ⟨hencoding, rfl⟩ := decode_url hgzip hzlib hurl hdecode
    have htarget := h hencoding
    rw [not_or] at htarget
    rw [encodePayload, if_neg htarget.1, if_neg htarget.2] at hencode
    split at hencode
    · rename_i huncompressed
      exact absurd (hencoding.trans huncompressed.symm) hdiffers
    · cases hencode

/-- A call that compresses leaves bytes where the URL was. -/
theorem transcode_url_lost (hgzip : gzip.Correct) (hzlib : zlib.Correct) (cachable : Bool)
    {pdp : Protos.DataPayload} {url : String} (hurl : pdp.kind = .url url) {target : Encoding}
    (hencoding : pdp.payloadEncoding = kEncodingUncompressed)
    (htarget : target = kEncodingGzip ∨ target = kEncodingDeflate) :
    let asset : Asset := ⟨some ⟨cachable, some pdp⟩⟩
    let result := transcodeAssetPayload gzip zlib sha256 asset target
    ¬Keeps gzip zlib sha256 asset target result.1 result.2 := by
  intro asset result hkeeps
  obtain ⟨encoded, hencode⟩ : ∃ encoded, encodePayload gzip zlib [] target = .ok encoded := by
    rcases htarget with rfl | rfl
    · obtain ⟨compressed, hcompress, -⟩ := hgzip.roundTrip []
      exact ⟨compressed, hcompress⟩
    · obtain ⟨compressed, hcompress, -⟩ := hzlib.roundTrip []
      exact ⟨compressed, hcompress⟩
  have hdecode : decodePayload gzip zlib pdp.getPayload pdp.payloadEncoding = .ok [] := by
    rw [Protos.DataPayload.getPayload, hurl, hencoding]
    rfl
  have hdiffers : ¬pdp.payloadEncoding = target := by
    rw [hencoding]
    rcases htarget with rfl | rfl <;> decide
  have hresult : result.1.content gzip zlib =
      .bytes (decodePayload gzip zlib encoded target).toOption := by
    simp only [result, asset, transcodeAssetPayload, if_neg hdiffers, hdecode, hencode]
    rfl
  have hbefore : asset.content gzip zlib = .url url := by
    simp only [Asset.content, Asset.payload, Option.bind_some, asset, hurl]
  have hcontent := hkeeps.content
  rw [hresult, hbefore] at hcontent
  cases hcontent

/-- Calls on a URL keep what they should exactly as long as none of them compresses it. -/
theorem faithful_url_iff (hgzip : gzip.Correct) (hzlib : zlib.Correct) (cachable : Bool)
    {pdp : Protos.DataPayload} {url : String} (hurl : pdp.kind = .url url)
    (targets : List Encoding) :
    Faithful gzip zlib sha256 ⟨some ⟨cachable, some pdp⟩⟩ targets ↔
      (pdp.payloadEncoding = kEncodingUncompressed →
        ∀ target ∈ targets, ¬(target = kEncodingGzip ∨ target = kEncodingDeflate)) := by
  induction targets with
  | nil => exact ⟨fun _ _ => nofun, fun _ => trivial⟩
  | cons target targets ih =>
    rw [faithful_cons]
    constructor
    · rintro ⟨hkeeps, hrest⟩ hencoding
      have htarget : ¬(target = kEncodingGzip ∨ target = kEncodingDeflate) := fun htarget =>
        transcode_url_lost sha256 hgzip hzlib cachable hurl hencoding htarget hkeeps
      have hsame := (transcode_url_unchanged sha256 hgzip hzlib cachable hurl
        fun _ => htarget).2
      rw [hsame] at hrest
      exact List.forall_mem_cons.mpr ⟨htarget, ih.mp hrest hencoding⟩
    · intro hnone
      obtain ⟨hkeeps, hsame⟩ := transcode_url_unchanged sha256 hgzip hzlib cachable
        hurl fun hencoding => (List.forall_mem_cons.mp (hnone hencoding)).1
      refine ⟨hkeeps, ?_⟩
      rw [hsame]
      exact ih.mpr fun hencoding => (List.forall_mem_cons.mp (hnone hencoding)).2

end Correct

/-- Any sequence of calls on an asset built by `ToAsset` keeps what the asset denotes, unless it
is a URL with the encoding `UNCOMPRESSED` and some call compresses it. -/
theorem transcode_faithful_iff (gzip zlib : Compressor) (sha256 : List UInt8 → List UInt8)
    (hgzip : gzip.Correct) (hzlib : zlib.Correct) (dp : DataPayload) (cachable : Bool)
    (asset : Asset) (h : toAsset dp cachable = .ok asset) (targets : List Encoding) :
    Faithful gzip zlib sha256 asset targets ↔ ¬LosesUrl dp targets := by
  rw [toAsset, dataPayloadToProto] at h
  by_cases hurl : dp.url ≠ "" ∧ dp.payload.length = 0
  · rw [if_pos hurl] at h
    obtain rfl := Except.ok.inj h
    rw [faithful_url_iff sha256 hgzip hzlib cachable rfl]
    simp only [LosesUrl, hurl.1, ne_eq, not_false_eq_true, true_and, not_and, not_exists]
  · rw [if_neg hurl] at h
    split at h
    · cases h
    · rename_i pdp hpayload
      obtain rfl := Except.ok.inj h
      split at hpayload
      · rename_i hembedded
        obtain rfl := Except.ok.inj hpayload
        refine ⟨fun _ hloses => hloses.1 hembedded.2, fun _ => ?_⟩
        exact faithful_embedded sha256 hgzip hzlib cachable rfl targets
      · cases hpayload

/-! ## Compressors on a few inputs -/

/-- The bytes of `hello, world` and a line feed. -/
def hello : List UInt8 :=
  [0x68, 0x65, 0x6c, 0x6c, 0x6f, 0x2c, 0x20, 0x77, 0x6f, 0x72, 0x6c, 0x64, 0x0a]

/-- The streams of no bytes and of `hello`, as `compress/gzip` and `compress/zlib` write them. -/
def gzipStreams : List (List UInt8 × List UInt8) :=
  [([], [0x1f, 0x8b, 0x08, 0x00, 0x00, 0x00, 0x00, 0x00, 0x00, 0xff, 0x01, 0x00, 0x00, 0xff, 0xff,
      0x00, 0x00, 0x00, 0x00, 0x00, 0x00, 0x00, 0x00]),
    (hello, [0x1f, 0x8b, 0x08, 0x00, 0x00, 0x00, 0x00, 0x00, 0x00, 0xff, 0xca, 0x48, 0xcd, 0xc9,
      0xc9, 0xd7, 0x51, 0x28, 0xcf, 0x2f, 0xca, 0x49, 0xe1, 0x02, 0x04, 0x00, 0x00, 0xff, 0xff,
      0x53, 0x74, 0x24, 0xf4, 0x0d, 0x00, 0x00, 0x00])]

def zlibStreams : List (List UInt8 × List UInt8) :=
  [([], [0x78, 0x9c, 0x01, 0x00, 0x00, 0xff, 0xff, 0x00, 0x00, 0x00, 0x01]),
    (hello, [0x78, 0x9c, 0xca, 0x48, 0xcd, 0xc9, 0xc9, 0xd7, 0x51, 0x28, 0xcf, 0x2f, 0xca, 0x49,
      0xe1, 0x02, 0x04, 0x00, 0x00, 0xff, 0xff, 0x21, 0xe7, 0x04, 0x93])]

/-- Their SHA-256 digests. -/
def sampleDigests : List (List UInt8 × List UInt8) :=
  [([],
      [0xe3, 0xb0, 0xc4, 0x42, 0x98, 0xfc, 0x1c, 0x14, 0x9a, 0xfb, 0xf4, 0xc8, 0x99, 0x6f, 0xb9,
      0x24, 0x27, 0xae, 0x41, 0xe4, 0x64, 0x9b, 0x93, 0x4c, 0xa4, 0x95, 0x99, 0x1b, 0x78, 0x52,
      0xb8, 0x55]),
    ([0x1f, 0x8b, 0x08, 0x00, 0x00, 0x00, 0x00, 0x00, 0x00, 0xff, 0x01, 0x00, 0x00, 0xff, 0xff,
      0x00, 0x00, 0x00, 0x00, 0x00, 0x00, 0x00, 0x00],
      [0x30, 0xe6, 0xfa, 0x98, 0xfb, 0x48, 0xc2, 0xb1, 0x32, 0x82, 0x4d, 0x1a, 0xc5, 0xe2, 0x24,
      0x3c, 0x0b, 0xe9, 0xe9, 0x08, 0x2f, 0xf3, 0x25, 0x98, 0xd3, 0x4d, 0x76, 0x87, 0xca, 0x7f,
      0x6c, 0x7f]),
    ([0x78, 0x9c, 0x01, 0x00, 0x00, 0xff, 0xff, 0x00, 0x00, 0x00, 0x01],
      [0xf9, 0xea, 0x57, 0xbb, 0xb8, 0x22, 0xaf, 0xae, 0x4a, 0x82, 0xac, 0xdf, 0xb6, 0x13, 0xff,
      0x25, 0x98, 0xa8, 0xca, 0x51, 0xac, 0x84, 0x7c, 0x82, 0x14, 0x66, 0xe4, 0x63, 0x57, 0x47,
      0x38, 0xbd]),
    (hello,
      [0x85, 0x3f, 0xf9, 0x37, 0x62, 0xa0, 0x6d, 0xdb, 0xf7, 0x22, 0xc4, 0xeb, 0xe9, 0xdd, 0xd6,
      0x6d, 0x8f, 0x63, 0xdd, 0xae, 0xa9, 0x7f, 0x52, 0x1c, 0x3e, 0xcc, 0x20, 0xda, 0x7c, 0x97,
      0x60, 0x20]),
    ([0x1f, 0x8b, 0x08, 0x00, 0x00, 0x00, 0x00, 0x00, 0x00, 0xff, 0xca, 0x48, 0xcd, 0xc9, 0xc9,
      0xd7, 0x51, 0x28, 0xcf, 0x2f, 0xca, 0x49, 0xe1, 0x02, 0x04, 0x00, 0x00, 0xff, 0xff, 0x53,
      0x74, 0x24, 0xf4, 0x0d, 0x00, 0x00, 0x00],
      [0xa5, 0x85, 0x80, 0x2e, 0x3d, 0xaa, 0x29, 0xb0, 0x0e, 0x91, 0xbe, 0xf7, 0x4b, 0xe9, 0x4e,
      0x3f, 0x7d, 0x78, 0xcb, 0x66, 0x06, 0x15, 0x8d, 0xd6, 0x89, 0xc3, 0xa0, 0x66, 0x48, 0x41,
      0xff, 0x33]),
    ([0x78, 0x9c, 0xca, 0x48, 0xcd, 0xc9, 0xc9, 0xd7, 0x51, 0x28, 0xcf, 0x2f, 0xca, 0x49, 0xe1,
      0x02, 0x04, 0x00, 0x00, 0xff, 0xff, 0x21, 0xe7, 0x04, 0x93],
      [0x93, 0xe6, 0xa0, 0xad, 0x6d, 0x4d, 0xd5, 0xae, 0xd4, 0x4e, 0x89, 0x95, 0x99, 0x68, 0xff,
      0x89, 0xd4, 0x6d, 0x52, 0xd7, 0x42, 0x9e, 0x41, 0xb7, 0x03, 0x8f, 0x72, 0xb9, 0x59, 0x05,
      0x6f, 0xa8])]

/-- A compressor with the streams that are given. Any other input is written after a zero. -/
def sampleCompressor (streams : List (List UInt8 × List UInt8)) : Compressor where
  compress data := .ok ((streams.lookup data).getD (0 :: data))
  decompress
    | [] => .error "EOF"
    | b :: data =>
        match (streams.map Prod.swap).lookup (b :: data) with
        | some content => .ok content
        | none => if b = 0 then .ok data else .error "invalid header"

/-- No stream is empty or begins with a zero, and each is found again. -/
theorem sampleCompressor_correct {streams : List (List UInt8 × List UInt8)}
    (hback : ∀ e ∈ streams, (streams.map Prod.swap).lookup e.2 = some e.1)
    (hhead : ∀ e ∈ streams, ∃ b rest, e.2 = b :: rest ∧ b ≠ 0) :
    (sampleCompressor streams).Correct := by
  refine ⟨fun data => ⟨_, rfl, ?_⟩, "EOF", rfl⟩
  cases hlookup : streams.lookup data with
  | some stream =>
    have hmem := Framework.mem_of_lookup hlookup
    obtain ⟨b, rest, hstream, -⟩ := hhead _ hmem
    have hfound := hback _ hmem
    simp only at hstream hfound
    rw [hstream] at hfound
    simp only [Option.getD_some, hstream, sampleCompressor, hfound]
  | none =>
    have hother : (streams.map Prod.swap).lookup (0 :: data) = none := by
      rw [List.lookup_eq_none_iff]
      intro e he
      obtain ⟨e', he', rfl⟩ := List.mem_map.mp he
      obtain ⟨b, rest, hstream, hb⟩ := hhead _ he'
      rw [Prod.fst_swap, hstream, bne_iff_ne]
      exact fun heq => hb (List.cons.inj heq).1.symm
    simp only [Option.getD_none, sampleCompressor, hother, if_true]

def sampleGzip : Compressor := sampleCompressor gzipStreams

def sampleZlib : Compressor := sampleCompressor zlibStreams

def sampleSha256 (data : List UInt8) : List UInt8 := (sampleDigests.lookup data).getD []

theorem sampleGzip_correct : sampleGzip.Correct := by
  refine sampleCompressor_correct (by decide) ?_
  simp only [gzipStreams, List.forall_mem_cons]
  exact ⟨⟨_, _, rfl, by decide⟩, ⟨_, _, rfl, by decide⟩, nofun⟩

theorem sampleZlib_correct : sampleZlib.Correct := by
  refine sampleCompressor_correct (by decide) ?_
  simp only [zlibStreams, List.forall_mem_cons]
  exact ⟨⟨_, _, rfl, by decide⟩, ⟨_, _, rfl, by decide⟩, nofun⟩

def helloFile : DataPayload where
  payload := (gzipStreams.lookup hello).getD []
  payloadEncoding := kEncodingGzip

/-- It is decompressed and compressed again. -/
theorem transcode_faithful_iff_helloFile :
    sampleGzip.Correct ∧ sampleZlib.Correct ∧
      ∃ asset, toAsset helloFile true = .ok asset ∧
        asset.content sampleGzip sampleZlib = .bytes (some hello) ∧
        Faithful sampleGzip sampleZlib sampleSha256 asset
          [kEncodingUncompressed, kEncodingGzip, kEncodingDeflate] := by
  refine ⟨sampleGzip_correct, sampleZlib_correct, _, rfl, rfl, ?_⟩
  have hnot : ¬LosesUrl helloFile [kEncodingUncompressed, kEncodingGzip, kEncodingDeflate] :=
    fun hloses => hloses.1 rfl
  exact (transcode_faithful_iff sampleGzip sampleZlib sampleSha256 sampleGzip_correct
    sampleZlib_correct helloFile true _ rfl _).mpr hnot

/-- A URL is replaced by the stream of no bytes when it is transcoded to gzip. -/
theorem url_lost_by_transcoding :
    sampleGzip.Correct ∧ sampleZlib.Correct ∧
      ∃ asset, toAsset { url := "http://cdn/logo.png" } true = .ok asset ∧
        asset.content sampleGzip sampleZlib = .url "http://cdn/logo.png" ∧
        (transcodeAssetPayload sampleGzip sampleZlib sampleSha256 asset kEncodingGzip).1.content
            sampleGzip sampleZlib = .bytes (some []) ∧
        ¬Faithful sampleGzip sampleZlib sampleSha256 asset [kEncodingGzip] := by
  refine ⟨sampleGzip_correct, sampleZlib_correct, _, rfl, rfl, rfl, ?_⟩
  intro hfaithful
  have hnone := (faithful_url_iff sampleSha256 sampleGzip_correct sampleZlib_correct true (by rfl)
    [kEncodingGzip]).mp hfaithful
  exact hnone rfl kEncodingGzip List.mem_cons_self (.inl rfl)

end Catena.Go
