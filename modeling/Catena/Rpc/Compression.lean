import Mathlib.Algebra.Group.Nat.Defs
import Catena.Framework.Map
import Catena.Framework.Throws
import Catena.Store.Status

/-!
# Compressed assets

An asset is compressed when it is downloaded and decompressed when it is uploaded. Both ways the
output gets its room once: the bound that zlib gives for its own framing, which is shorter than
that of gzip, and ten times the compressed bytes. The lengths go through 32 bits.
-/

namespace Catena.Rpc

open Store Catena.Framework

abbrev Bytes : Type := List UInt8

/-- What the code uses of zlib, for each number of window bits: whether a stream is initialized,
the stream that `deflate` writes, and what `inflate` gets out of one that is complete. -/
structure Zlib where
  deflateInit2 : Nat → Bool
  inflateInit2 : Nat → Bool
  stream : Nat → Bytes → Bytes
  content : Nat → Bytes → Option Bytes
  compressBound : Nat → Nat

def kMaxWbits : Nat := 15

/-- The window bits that the code asks for: those of zlib's own framing and those of gzip. -/
def windowBitsUsed : List Nat := [kMaxWbits, 16 + kMaxWbits]

/-- zlib as it is documented, for the window bits that are used. -/
structure Zlib.Correct (zlib : Zlib) : Prop where
  deflates : ∀ windowBits ∈ windowBitsUsed, zlib.deflateInit2 windowBits = true
  inflates : ∀ windowBits ∈ windowBitsUsed, zlib.inflateInit2 windowBits = true
  content_stream : ∀ windowBits ∈ windowBitsUsed, ∀ x,
    zlib.content windowBits (zlib.stream windowBits x) = some x
  bound : ∀ x, (zlib.stream kMaxWbits x).length ≤ zlib.compressBound x.length
  gzip : ∀ x, (zlib.stream (16 + kMaxWbits) x).length = (zlib.stream kMaxWbits x).length + 12

namespace AssetRequest

/-- `compress`. The lengths of the buffers are members of 32 bits. -/
def compress (zlib : Zlib) (input : Bytes) (windowBits : Nat) : Except ExceptionWithStatus Bytes :=
  if !zlib.deflateInit2 windowBits then
    .error ⟨"Failed to initialize compression", .internal⟩
  else
    let availIn := input.length % 2 ^ 32
    let availOut := zlib.compressBound input.length % 2 ^ 32
    let output := zlib.stream windowBits (input.take availIn)
    if output.length ≤ availOut then .ok output else .error ⟨"Compression failed", .internal⟩

def deflateCompress (zlib : Zlib) (input : Bytes) : Except ExceptionWithStatus Bytes :=
  compress zlib input kMaxWbits

def gzipCompress (zlib : Zlib) (input : Bytes) : Except ExceptionWithStatus Bytes :=
  compress zlib input (16 + kMaxWbits)

/-- `decompress`. -/
def decompress (zlib : Zlib) (input : Bytes) (windowBits : Nat) :
    Except ExceptionWithStatus Bytes :=
  if !zlib.inflateInit2 windowBits then
    .error ⟨"Failed to initialize decompression", .internal⟩
  else
    let availIn := input.length % 2 ^ 32
    let availOut := input.length * 10 % 2 ^ 64 % 2 ^ 32
    match zlib.content windowBits (input.take availIn) with
    | some output =>
        if output.length ≤ availOut then .ok output
        else .error ⟨"Decompression failed", .internal⟩
    | none => .error ⟨"Decompression failed", .internal⟩

def deflateDecompress (zlib : Zlib) (input : Bytes) : Except ExceptionWithStatus Bytes :=
  decompress zlib input kMaxWbits

def gzipDecompress (zlib : Zlib) (input : Bytes) : Except ExceptionWithStatus Bytes :=
  decompress zlib input (16 + kMaxWbits)

/-- The payload that `GET/asset` answers for the bytes of a file. -/
def payload (zlib : Zlib) (compression : String) (fileData : Bytes) :
    Except ExceptionWithStatus Bytes :=
  if compression = "GZIP" then gzipCompress zlib fileData
  else if compression = "DEFLATE" then deflateCompress zlib fileData
  else .ok fileData

/-- The bytes that `extractPayload` writes to a file. -/
def extractPayload (zlib : Zlib) (compression : String) (jsonBody : Bytes) :
    Except ExceptionWithStatus Bytes :=
  if compression = "GZIP" then gzipDecompress zlib jsonBody
  else if compression = "DEFLATE" then deflateDecompress zlib jsonBody
  else .ok jsonBody

end AssetRequest

open AssetRequest

/-- Both compressions of these bytes succeed, and are undone by their decompressions. -/
def RoundTrips (zlib : Zlib) (x : Bytes) : Prop :=
  (∃ y, gzipCompress zlib x = .ok y ∧ gzipDecompress zlib y = .ok x) ∧
    ∃ y, deflateCompress zlib x = .ok y ∧ deflateDecompress zlib y = .ok x

/-- What is downloaded with a compression can be uploaded with it. -/
def CanBeUploaded (zlib : Zlib) (x : Bytes) : Prop :=
  ∀ compression, ∃ y, payload zlib compression x = .ok y ∧
    extractPayload zlib compression y = .ok x

/-- The bytes are not too many, their gzip stream stays within the bound for a zlib stream, and
they are not longer than ten times either stream, counted in 32 bits. -/
structure Fits (zlib : Zlib) (x : Bytes) : Prop where
  addressable : x.length < 2 ^ 32
  gzip : (zlib.stream kMaxWbits x).length + 12 ≤ zlib.compressBound x.length % 2 ^ 32
  deflated : x.length ≤ 10 * (zlib.stream kMaxWbits x).length % 2 ^ 32
  gzipped : x.length ≤ 10 * ((zlib.stream kMaxWbits x).length + 12) % 2 ^ 32

section Correct

variable {zlib : Zlib} (h : zlib.Correct) {windowBits : Nat} (hbits : windowBits ∈ windowBitsUsed)
include h

include hbits in
theorem compress_ok_iff {x y : Bytes} :
    compress zlib x windowBits = .ok y ↔
      y = zlib.stream windowBits (x.take (x.length % 2 ^ 32)) ∧
        y.length ≤ zlib.compressBound x.length % 2 ^ 32 := by
  rw [compress, h.deflates windowBits hbits, Bool.not_true, if_neg (by decide)]
  constructor
  · intro hok
    simp only at hok
    split at hok
    · rename_i hroom
      obtain rfl := Except.ok.inj hok
      exact ⟨rfl, hroom⟩
    · cases hok
  · rintro ⟨rfl, hroom⟩
    exact if_pos hroom

include hbits in
theorem decompress_ok_iff {x y : Bytes} (hy : y.length < 2 ^ 32) :
    decompress zlib y windowBits = .ok x ↔
      zlib.content windowBits y = some x ∧ x.length ≤ 10 * y.length % 2 ^ 32 := by
  have hin : y.take (y.length % 2 ^ 32) = y := List.take_of_length_le (by omega)
  have hout : y.length * 10 % 2 ^ 64 % 2 ^ 32 = 10 * y.length % 2 ^ 32 := by omega
  rw [decompress, h.inflates windowBits hbits, Bool.not_true, if_neg (by decide)]
  simp only [hin, hout]
  cases zlib.content windowBits y with
  | none => exact ⟨nofun, fun hnone => nomatch hnone.1⟩
  | some output =>
    simp only [Option.some.injEq]
    constructor
    · intro hok
      split at hok
      · rename_i hroom
        obtain rfl := Except.ok.inj hok
        exact ⟨rfl, hroom⟩
      · cases hok
    · rintro ⟨rfl, hroom⟩
      exact if_pos hroom

include hbits in
/-- Compressing and decompressing, for either framing. -/
theorem compress_decompress_iff (x : Bytes) :
    (∃ y, compress zlib x windowBits = .ok y ∧ decompress zlib y windowBits = .ok x) ↔
      x.length < 2 ^ 32 ∧
        (zlib.stream windowBits x).length ≤ zlib.compressBound x.length % 2 ^ 32 ∧
        x.length ≤ 10 * (zlib.stream windowBits x).length % 2 ^ 32 := by
  constructor
  · rintro ⟨y, hcompress, hdecompress⟩
    obtain ⟨hy, hroom⟩ := (compress_ok_iff h hbits).mp hcompress
    have hshort : y.length < 2 ^ 32 := by omega
    obtain ⟨hcontent, hten⟩ := (decompress_ok_iff h hbits hshort).mp hdecompress
    -- what was compressed are the first bytes only, if there are too many
    rw [hy, h.content_stream windowBits hbits, Option.some.injEq] at hcontent
    have hlength := congrArg List.length hcontent
    rw [List.length_take] at hlength
    have hsize : x.length < 2 ^ 32 := by omega
    rw [hcontent] at hy
    rw [← hy]
    exact ⟨hsize, hroom, hten⟩
  · rintro ⟨hsize, hroom, hten⟩
    have hall : x.take (x.length % 2 ^ 32) = x := List.take_of_length_le (by omega)
    refine ⟨zlib.stream windowBits x, ?_, ?_⟩
    · rw [compress_ok_iff h hbits, hall]
      exact ⟨rfl, hroom⟩
    · rw [decompress_ok_iff h hbits (by omega)]
      exact ⟨h.content_stream windowBits hbits x, hten⟩

theorem roundTrips_iff_fits (x : Bytes) : RoundTrips zlib x ↔ Fits zlib x := by
  have hzlib : kMaxWbits ∈ windowBitsUsed := List.mem_cons_self
  have hgzip : 16 + kMaxWbits ∈ windowBitsUsed := List.mem_cons_of_mem _ List.mem_cons_self
  rw [RoundTrips]
  simp only [gzipCompress, gzipDecompress, deflateCompress, deflateDecompress,
    compress_decompress_iff h hzlib, compress_decompress_iff h hgzip, h.gzip]
  constructor
  · rintro ⟨⟨hsize, hgzip, hgzipped⟩, -, -, hdeflated⟩
    exact ⟨hsize, hgzip, hdeflated, hgzipped⟩
  · intro hfits
    refine ⟨⟨hfits.addressable, hfits.gzip, hfits.gzipped⟩, hfits.addressable, ?_, hfits.deflated⟩
    exact Nat.le_trans (Nat.le_add_right _ 12) hfits.gzip

omit h in
theorem canBeUploaded_iff (x : Bytes) : CanBeUploaded zlib x ↔ RoundTrips zlib x := by
  constructor
  · intro hall
    have hgzip := hall "GZIP"
    have hdeflate := hall "DEFLATE"
    simp only [payload, extractPayload, if_true] at hgzip
    simp only [payload, extractPayload, if_true, show ("DEFLATE" = "GZIP") = False by decide,
      if_false] at hdeflate
    exact ⟨hgzip, hdeflate⟩
  · rintro ⟨hgzip, hdeflate⟩ compression
    simp only [payload, extractPayload]
    by_cases hg : compression = "GZIP"
    · simp only [hg, if_true]
      exact hgzip
    by_cases hd : compression = "DEFLATE"
    · simp only [hd, if_true]
      exact hdeflate
    · simp only [hg, hd, if_false]
      exact ⟨x, rfl, rfl⟩

end Correct

/-- An asset survives a download and an upload with each compression exactly if it fits. -/
theorem asset_roundTrips_iff (zlib : Zlib) (h : zlib.Correct) (x : Bytes) :
    (RoundTrips zlib x ↔ Fits zlib x) ∧ (CanBeUploaded zlib x ↔ Fits zlib x) :=
  ⟨roundTrips_iff_fits h x, (canBeUploaded_iff x).trans (roundTrips_iff_fits h x)⟩

/-! ## A zlib on a few inputs -/

/-- What zlib writes for the empty file, for twenty times `a` and for a hundred and thirty zeros. -/
def zlibSamples : List (Bytes × Bytes) :=
  [([], [0x78, 0xda, 0x03, 0x00, 0x00, 0x00, 0x00, 0x01]),
    (List.replicate 20 0x61, [0x78, 0xda, 0x4b, 0x4c, 0xc4, 0x04, 0x00, 0x4f, 0xa6, 0x07, 0x95]),
    (List.replicate 130 0, [0x78, 0xda, 0x63, 0x60, 0x18, 0x68, 0x00, 0x00, 0x00, 0x82, 0x00,
      0x01])]

def gzipSamples : List (Bytes × Bytes) :=
  [([], [0x1f, 0x8b, 0x08, 0x00, 0x00, 0x00, 0x00, 0x00, 0x02, 0x03, 0x03, 0x00, 0x00, 0x00, 0x00,
      0x00, 0x00, 0x00, 0x00, 0x00]),
    (List.replicate 20 0x61, [0x1f, 0x8b, 0x08, 0x00, 0x00, 0x00, 0x00, 0x00, 0x02, 0x03, 0x4b,
      0x4c, 0xc4, 0x04, 0x00, 0xce, 0x8b, 0x6f, 0x26, 0x14, 0x00, 0x00, 0x00]),
    (List.replicate 130 0, [0x1f, 0x8b, 0x08, 0x00, 0x00, 0x00, 0x00, 0x00, 0x02, 0x03, 0x63,
      0x60, 0x18, 0x68, 0x00, 0x00, 0x02, 0x3f, 0x5e, 0xd8, 0x82, 0x00, 0x00, 0x00])]

def samplesOf (windowBits : Nat) : List (Bytes × Bytes) :=
  if windowBits = kMaxWbits then zlibSamples else gzipSamples

/-- The bytes in front of any other input, which is left as it is. -/
def marginOf (windowBits : Nat) : Nat := if windowBits = kMaxWbits then 11 else 23

def sampleZlib : Zlib where
  deflateInit2 windowBits := decide (windowBits ∈ windowBitsUsed)
  inflateInit2 windowBits := decide (windowBits ∈ windowBitsUsed)
  stream windowBits x :=
    ((samplesOf windowBits).lookup x).getD (List.replicate (marginOf windowBits) 0 ++ x)
  content windowBits y := some <|
    (((samplesOf windowBits).map Prod.swap).lookup y).getD (y.drop (marginOf windowBits))
  compressBound n := n + n / 2 ^ 12 + n / 2 ^ 14 + n / 2 ^ 25 + 13

theorem lookup_map_snd {γ : Type} (f : Bytes → γ) (table : List (Bytes × Bytes)) (x : Bytes) :
    (table.map fun e => (e.1, f e.2)).lookup x = (table.lookup x).map f := by
  induction table with
  | nil => rfl
  | cons e table ih =>
    rw [List.map_cons, List.lookup_cons, List.lookup_cons, ih]
    split <;> rfl

theorem samples_swap (windowBits : Nat) {x y : Bytes}
    (h : (samplesOf windowBits).lookup x = some y) :
    ((samplesOf windowBits).map Prod.swap).lookup y = some x := by
  have hmem := mem_of_lookup h
  have hall : ∀ e ∈ samplesOf windowBits,
      ((samplesOf windowBits).map Prod.swap).lookup e.2 = some e.1 := by
    rw [samplesOf]
    split
    · simp only [zlibSamples, List.forall_mem_cons]
      exact ⟨rfl, rfl, rfl, nofun⟩
    · simp only [gzipSamples, List.forall_mem_cons]
      exact ⟨rfl, rfl, rfl, nofun⟩
  exact hall _ hmem

theorem samples_other (windowBits : Nat) (x : Bytes) :
    ((samplesOf windowBits).map Prod.swap).lookup
      (List.replicate (marginOf windowBits) 0 ++ x) = none := by
  rw [samplesOf, marginOf]
  split
  · rfl
  · rfl

theorem sampleZlib_correct : sampleZlib.Correct := by
  refine ⟨fun _ => decide_eq_true, fun _ => decide_eq_true, ?_, ?_, ?_⟩
  · intro windowBits _ x
    simp only [sampleZlib, Option.some.injEq]
    cases hlookup : (samplesOf windowBits).lookup x with
    | some y =>
      rw [Option.getD_some, samples_swap windowBits hlookup, Option.getD_some]
    | none =>
      rw [Option.getD_none, samples_other, Option.getD_none, List.drop_left' (by simp)]
  · intro x
    simp only [sampleZlib, samplesOf, if_true]
    cases hlookup : zlibSamples.lookup x with
    | some y =>
      have hshort : ∀ e ∈ zlibSamples, e.2.length ≤ 13 := by decide
      have hlength : y.length ≤ 13 := hshort _ (mem_of_lookup hlookup)
      rw [Option.getD_some]
      omega
    | none =>
      rw [Option.getD_none, List.length_append, List.length_replicate, marginOf, if_pos rfl]
      omega
  · intro x
    have hlengths : (gzipSamples.lookup x).map List.length =
        (zlibSamples.lookup x).map fun y => y.length + 12 := by
      rw [← lookup_map_snd, ← lookup_map_snd]
      rfl
    simp only [sampleZlib, samplesOf, marginOf, if_true, show ¬16 + kMaxWbits = kMaxWbits by decide,
      if_false]
    cases hzlib : zlibSamples.lookup x with
    | some y =>
      obtain ⟨z, hgzip, hlength⟩ := Option.map_eq_some_iff.mp (hlengths.trans (by rw [hzlib]; rfl))
      rw [hgzip]
      exact hlength
    | none =>
      have hgzip := Option.map_eq_none_iff.mp (hlengths.trans (by rw [hzlib]; rfl))
      rw [hgzip]
      simp

/-- Twenty times `a` comes back from both compressions. -/
theorem asset_roundTrips_iff_letters :
    sampleZlib.Correct ∧ RoundTrips sampleZlib (List.replicate 20 0x61) ∧
      CanBeUploaded sampleZlib (List.replicate 20 0x61) := by
  have hfits : Fits sampleZlib (List.replicate 20 0x61) :=
    ⟨by decide, by decide, by decide, by decide⟩
  obtain ⟨hroundTrips, hupload⟩ :=
    asset_roundTrips_iff sampleZlib sampleZlib_correct (List.replicate 20 0x61)
  exact ⟨sampleZlib_correct, hroundTrips.mpr hfits, hupload.mpr hfits⟩

/-- The empty file cannot be compressed with gzip, and what `deflate` makes of a hundred and thirty
zeros cannot be decompressed. -/
theorem empty_asset_not_compressed :
    sampleZlib.Correct ∧
      gzipCompress sampleZlib [] = .error ⟨"Compression failed", .internal⟩ ∧
      ¬RoundTrips sampleZlib [] ∧ ¬RoundTrips sampleZlib (List.replicate 130 0) := by
  have hempty : gzipCompress sampleZlib [] = .error ⟨"Compression failed", .internal⟩ := rfl
  refine ⟨sampleZlib_correct, hempty, ?_, ?_⟩
  · rintro ⟨⟨y, hy, -⟩, -⟩
    rw [hempty] at hy
    cases hy
  · rw [roundTrips_iff_fits sampleZlib_correct]
    intro hfits
    have hten := hfits.deflated
    have hstream : (sampleZlib.stream kMaxWbits (List.replicate 130 0)).length = 12 := rfl
    rw [hstream, List.length_replicate] at hten
    omega

end Catena.Rpc
