import Catena.Framework.ShiftRegister
import Catena.Framework.Base64

/-!
# Base64

`catena::to_base64` and `catena::from_base64` shift what they read into an `int` that they never
mask. The bits that have been written stay above those that are still to be written, and are
shifted out of the `int` in the end.
-/

namespace Catena.Common

open Catena.Framework

def base64_chars : List Char :=
  "ABCDEFGHIJKLMNOPQRSTUVWXYZabcdefghijklmnopqrstuvwxyz0123456789+/".toList

/-! ## Encoding -/

/-- `base64_chars[bits & 0x3F]`. -/
def charOf (bits : BitVec 32) : Char := base64_chars.getD (bits &&& 0x3F).toNat '\x00'

/-- The inner loop of `catena::to_base64`: the characters it writes, and `valb` behind it. -/
def emit (val : BitVec 32) (valb : Int) : List Char × Int :=
  if 0 ≤ valb then
    let rest := emit val (valb - 6)
    (charOf (val.sshiftRight valb.toNat) :: rest.1, rest.2)
  else ([], valb)
termination_by (valb + 6).toNat

/-- The outer loop: the characters it writes, and `val` and `valb` behind it. -/
def encodeLoop : List UInt8 → BitVec 32 → Int → List Char × BitVec 32 × Int
  | [], val, valb => ([], val, valb)
  | c :: binary, val, valb =>
      let val := (val <<< 8) + BitVec.ofNat 32 c.toNat
      let emitted := emit val (valb + 8)
      let rest := encodeLoop binary val emitted.2
      (emitted.1 ++ rest.1, rest.2)

/-- `while (encoded.size() % 4) encoded.push_back('=')`. -/
def pad (encoded : List Char) : List Char :=
  if encoded.length % 4 = 0 then encoded else pad (encoded ++ ['='])
termination_by (4 - encoded.length % 4) % 4
decreasing_by
  rw [List.length_append, List.length_singleton]
  omega

/-- The character behind the loop, for the bits that are left. -/
def last (val : BitVec 32) (valb : Int) : List Char :=
  if valb > -6 then [charOf ((val <<< 8).sshiftRight (valb + 8).toNat)] else []

/-- What `catena::to_base64` writes from a state of its loop on, without the padding. -/
def encodeFrom (binary : List UInt8) (val : BitVec 32) (valb : Int) : List Char :=
  let written := encodeLoop binary val valb
  written.1 ++ last written.2.1 written.2.2

/-- `catena::to_base64`. -/
def to_base64 (binary : List UInt8) : List Char := pad (encodeFrom binary 0 (-6))

/-! ## Decoding -/

/-- `strchr`: the terminating null character belongs to the string. -/
def strchr (str : List Char) (c : Char) : Option Nat := (str ++ ['\x00']).idxOf? c

/-- The loop of `catena::from_base64`. -/
def decodeLoop : List Char → BitVec 32 → Int → List UInt8
  | [], _, _ => []
  | c :: encoded, val, valb =>
      if c = '=' then []
      else
        match strchr base64_chars c with
        | none => decodeLoop encoded val valb
        | some pos =>
            let val := (val <<< 6) + BitVec.ofNat 32 pos
            let valb := valb + 6
            if 0 ≤ valb then
              UInt8.ofNat (val.sshiftRight valb.toNat &&& 0xFF).toNat ::
                decodeLoop encoded val (valb - 8)
            else decodeLoop encoded val valb

/-- `catena::from_base64`. -/
def from_base64 (encoded : List Char) : List UInt8 := decodeLoop encoded 0 (-8)

/-- The white space that an encoded text can be broken with. -/
def isBlank (c : Char) : Bool := c = ' ' || c = '\t' || c = '\r' || c = '\n'

/-! ## The encoding is the standard one -/

open Framework.Base64 (symbol alphabet)

variable {val : BitVec 32} {k n m d : Nat}

/-- `val` after the next byte. -/
def shiftByte (val : BitVec 32) (c : UInt8) : BitVec 32 := (val <<< 8) + BitVec.ofNat 32 c.toNat

theorem base64_chars_eq : base64_chars = alphabet := rfl

theorem charOf_eq {bits : BitVec 32} (h : (bits &&& 0x3F).toNat = d) : charOf bits = symbol d := by
  rw [charOf, h, symbol, base64_chars_eq]

theorem emit_of_neg {valb : Int} (h : valb < 0) : emit val valb = ([], valb) := by
  rw [emit, if_neg (by omega)]

/-- One turn of the inner loop writes the digit above the bits that stay. -/
theorem emit_of_holds (h : Holds val (k + 6) n) (hk : k + 6 ≤ 32) (hn : n = d * 2 ^ k + m)
    (hm : m < 2 ^ k) :
    emit val k = (symbol d :: (emit val (k - 6)).1, (emit val (k - 6)).2) ∧ Holds val k m := by
  obtain ⟨hdigit, hrest⟩ := h.pop hk hn hm
  rw [emit, if_pos (Int.natCast_nonneg k), Int.toNat_natCast, charOf_eq hdigit]
  exact ⟨rfl, hrest⟩

theorem encodeFrom_cons (c : UInt8) (binary : List UInt8) (val : BitVec 32) (valb : Int) :
    encodeFrom (c :: binary) val valb = (emit (shiftByte val c) (valb + 8)).1 ++
      encodeFrom binary (shiftByte val c) (emit (shiftByte val c) (valb + 8)).2 := by
  simp only [encodeFrom, encodeLoop, shiftByte, List.append_assoc]

theorem holds_shiftByte (h : Holds val k n) (hk : k + 8 ≤ 32) (c : UInt8) :
    Holds (shiftByte val c) (k + 8) (n * 2 ^ 8 + c.toNat) :=
  h.push hk c.toNat_lt

theorem encodeFrom_one {c : UInt8} (h : Holds val k n) (hk : k < 4)
    (hn : n * 2 ^ 8 + c.toNat = d * 2 ^ (k + 2) + m) (hm : m < 2 ^ (k + 2))
    (binary : List UInt8) :
    encodeFrom (c :: binary) val (k - 6) =
        symbol d :: encodeFrom binary (shiftByte val c) ((k + 2 : Nat) - 6) ∧
      Holds (shiftByte val c) (k + 2) m := by
  have hvalb : (k : Int) - 6 + 8 = (k + 2 : Nat) := by omega
  have hneg : ((k + 2 : Nat) : Int) - 6 < 0 := by omega
  obtain ⟨hemit, hrest⟩ :=
    emit_of_holds (k := k + 2) (holds_shiftByte h (by omega) c) (by omega) hn hm
  rw [encodeFrom_cons, hvalb, hemit, emit_of_neg hneg]
  exact ⟨rfl, hrest⟩

theorem encodeFrom_two {c : UInt8} {e : Nat} (h : Holds val 4 n)
    (hn : n * 2 ^ 8 + c.toNat = d * 2 ^ 6 + e) (he : e < 2 ^ 6) (binary : List UInt8) :
    encodeFrom (c :: binary) val ((4 : Nat) - 6) =
      symbol d :: symbol e :: encodeFrom binary (shiftByte val c) ((0 : Nat) - 6) := by
  obtain ⟨hemit, hrest⟩ :=
    emit_of_holds (k := 6) (holds_shiftByte h (by decide) c) (by decide) hn he
  obtain ⟨hemit', -⟩ := emit_of_holds (k := 0) hrest (by decide) (m := 0)
    (Nat.mul_one e).symm (by decide)
  have hvalb : ((4 : Nat) : Int) - 6 + 8 = (6 : Nat) := rfl
  have hvalb' : ((6 : Nat) : Int) - 6 = (0 : Nat) := rfl
  rw [encodeFrom_cons, hvalb, hemit, hvalb', hemit', emit_of_neg (by decide)]
  rfl

theorem encodeFrom_nil_zero : encodeFrom [] val ((0 : Nat) - 6) = [] := rfl

theorem encodeFrom_nil (h : Holds val k n) (hk : 0 < k) (hk' : k + 8 ≤ 32)
    (hn : n * 2 ^ 8 = d * 2 ^ (k + 2)) :
    encodeFrom [] val (k - 6) = [symbol d] := by
  have hshift : Holds (val <<< 8) (k + 2 + 6) (n * 2 ^ 8) := h.shift hk'
  have hdigit := (hshift.pop (by omega) hn (Nat.two_pow_pos _)).1
  have hvalb : ((k : Int) - 6 + 8).toNat = k + 2 := by omega
  have hmore : (k : Int) - 6 > -6 := by omega
  rw [encodeFrom, encodeLoop, List.nil_append, last, if_pos hmore, hvalb, charOf_eq hdigit]

theorem pad_append (group encoded : List Char) (h : group.length % 4 = 0) :
    pad (group ++ encoded) = group ++ pad encoded := by
  induction encoded using pad.induct with
  | case1 encoded hfull =>
    rw [pad, if_pos (by rw [List.length_append]; omega), pad, if_pos hfull]
  | case2 encoded hmore ih =>
    rw [pad, if_neg (by rw [List.length_append]; omega), List.append_assoc, ih]
    conv_rhs => rw [pad, if_neg hmore]

/-- Whatever is above the bits that are still to be written, the encoding is the standard one. -/
theorem pad_encodeFrom (binary : List UInt8) (val : BitVec 32) :
    pad (encodeFrom binary val ((0 : Nat) - 6)) = Base64.encode binary := by
  induction binary using Base64.encode.induct generalizing val with
  | case1 =>
    rw [encodeFrom_nil_zero, pad]
    rfl
  | case2 a =>
    have ha := a.toNat_lt
    obtain ⟨h₁, hval₁⟩ := encodeFrom_one (d := a.toNat / 4) (m := a.toNat % 4) (c := a)
      (Holds.zero val) (by decide) (by omega) (by omega) []
    rw [h₁, encodeFrom_nil (d := a.toNat % 4 * 16) hval₁ (by decide) (by decide) (by omega)]
    simp [pad, Base64.encode]
  | case3 a b =>
    have hb := b.toNat_lt
    obtain ⟨h₁, hval₁⟩ := encodeFrom_one (d := a.toNat / 4) (m := a.toNat % 4) (c := a)
      (Holds.zero val) (by decide) (by omega) (by omega) [b]
    obtain ⟨h₂, hval₂⟩ := encodeFrom_one (d := a.toNat % 4 * 16 + b.toNat / 16)
      (m := b.toNat % 16) (c := b) hval₁ (by decide) (by omega) (by omega) []
    rw [h₁, h₂, encodeFrom_nil (d := b.toNat % 16 * 4) hval₂ (by decide) (by decide) (by omega)]
    simp [pad, Base64.encode]
  | case4 a b c rest ih =>
    have hb := b.toNat_lt
    have hc := c.toNat_lt
    obtain ⟨h₁, hval₁⟩ := encodeFrom_one (d := a.toNat / 4) (m := a.toNat % 4) (c := a)
      (Holds.zero val) (by decide) (by omega) (by omega) (b :: c :: rest)
    obtain ⟨h₂, hval₂⟩ := encodeFrom_one (d := a.toNat % 4 * 16 + b.toNat / 16)
      (m := b.toNat % 16) (c := b) hval₁ (by decide) (by omega) (by omega) (c :: rest)
    have h₃ := encodeFrom_two (d := b.toNat % 16 * 4 + c.toNat / 64) (e := c.toNat % 64)
      (c := c) hval₂ (by omega) (by omega) rest
    rw [h₁, h₂, h₃, Base64.encode, ← ih]
    exact pad_append [_, _, _, _] _ (by simp)

theorem to_base64_eq (b : List UInt8) : to_base64 b = Base64.encode b := pad_encodeFrom b 0

/-! ## Decoding takes the digits back -/

/-- `val` after the next digit. -/
def shiftDigit (val : BitVec 32) (d : Nat) : BitVec 32 := (val <<< 6) + BitVec.ofNat 32 d

theorem holds_shiftDigit (h : Holds val k n) (hk : k + 6 ≤ 32) (hd : d < 2 ^ 6) :
    Holds (shiftDigit val d) (k + 6) (n * 2 ^ 6 + d) :=
  h.push hk hd

theorem base64_chars_all : base64_chars.all (fun c => c ≠ '=' && !isBlank c) = true := by
  decide

theorem strchr_eq_none {c : Char} (hc : c = '=' ∨ isBlank c = true) :
    strchr base64_chars c = none := by
  rw [strchr, List.idxOf?_eq_none_iff, List.mem_append, List.mem_singleton, not_or]
  constructor
  · intro hmem
    have hdigit := List.all_eq_true.mp base64_chars_all c hmem
    rw [Bool.and_eq_true, decide_eq_true_eq, Bool.not_eq_true'] at hdigit
    rcases hc with hpad | hblank
    · exact hdigit.1 hpad
    · rw [hdigit.2] at hblank
      cases hblank
  · rintro rfl
    rcases hc with hpad | hblank
    · cases hpad
    · cases hblank

theorem strchr_symbols :
    (List.range 64).map (fun d => strchr base64_chars (symbol d)) = (List.range 64).map some := by
  rfl

theorem strchr_symbol (hd : d < 64) :
    symbol d ≠ '=' ∧ strchr base64_chars (symbol d) = some d := by
  have hpos := List.map_inj_left.mp strchr_symbols d (List.mem_range.mpr hd)
  refine ⟨fun hpad => ?_, hpos⟩
  rw [strchr_eq_none (Or.inl hpad)] at hpos
  cases hpos

theorem decodeLoop_symbol (hd : d < 64) (encoded : List Char) (val : BitVec 32) (valb : Int) :
    decodeLoop (symbol d :: encoded) val valb =
      if 0 ≤ valb + 6 then
        UInt8.ofNat ((shiftDigit val d).sshiftRight (valb + 6).toNat &&& 0xFF).toNat ::
          decodeLoop encoded (shiftDigit val d) (valb + 6 - 8)
      else decodeLoop encoded (shiftDigit val d) (valb + 6) := by
  obtain ⟨hpad, hpos⟩ := strchr_symbol hd
  simp only [decodeLoop, if_neg hpad, hpos, shiftDigit]

theorem decodeLoop_first (hd : d < 64) (encoded : List Char) (val : BitVec 32) :
    decodeLoop (symbol d :: encoded) val ((0 : Nat) - 8) =
        decodeLoop encoded (shiftDigit val d) ((4 + 2 : Nat) - 8) ∧
      Holds (shiftDigit val d) (4 + 2) d := by
  have hholds := holds_shiftDigit (Holds.zero val) (by decide) hd
  rw [Nat.zero_mul, Nat.zero_add, Nat.zero_add] at hholds
  rw [decodeLoop_symbol hd, if_neg (by decide)]
  exact ⟨rfl, hholds⟩

theorem decodeLoop_more {b : UInt8} (h : Holds val (k + 2) n) (hk : k + 8 ≤ 32) (hd : d < 64)
    (hn : n * 2 ^ 6 + d = b.toNat * 2 ^ k + m) (hm : m < 2 ^ k) (encoded : List Char) :
    decodeLoop (symbol d :: encoded) val ((k + 2 : Nat) - 8) =
        b :: decodeLoop encoded (shiftDigit val d) (k - 8) ∧
      Holds (shiftDigit val d) k m := by
  have hvalb : ((k + 2 : Nat) : Int) - 8 + 6 = k := by omega
  obtain ⟨hbyte, hrest⟩ := Holds.pop (s := 8) (holds_shiftDigit h hk hd) hk hn hm
  have hb : UInt8.ofNat ((shiftDigit val d).sshiftRight k &&& 0xFF).toNat = b :=
    (congrArg UInt8.ofNat hbyte).trans UInt8.ofNat_toNat
  rw [decodeLoop_symbol hd, hvalb, if_pos (Int.natCast_nonneg k), Int.toNat_natCast, hb]
  exact ⟨rfl, hrest⟩

theorem decodeLoop_pad (encoded : List Char) (val : BitVec 32) (valb : Int) :
    decodeLoop ('=' :: encoded) val valb = [] := by
  rw [decodeLoop, if_pos rfl]

/-- Whatever is above the bits that are still to be written, decoding gives the bytes back. -/
theorem decodeLoop_encode (b : List UInt8) (val : BitVec 32) :
    decodeLoop (Base64.encode b) val ((0 : Nat) - 8) = b := by
  induction b using Base64.encode.induct generalizing val with
  | case1 => rfl
  | case2 a =>
    have ha := a.toNat_lt
    rw [Base64.encode]
    obtain ⟨h₁, hval₁⟩ := decodeLoop_first (d := a.toNat / 4) (by omega)
      [symbol (a.toNat % 4 * 16), '=', '='] val
    obtain ⟨h₂, -⟩ := decodeLoop_more (k := 4) (b := a) (d := a.toNat % 4 * 16) (m := 0) hval₁
      (by decide) (by omega) (by omega) (by omega) ['=', '=']
    rw [h₁, h₂, decodeLoop_pad]
  | case3 a b =>
    have ha := a.toNat_lt
    have hb := b.toNat_lt
    rw [Base64.encode]
    obtain ⟨h₁, hval₁⟩ := decodeLoop_first (d := a.toNat / 4) (by omega)
      [symbol (a.toNat % 4 * 16 + b.toNat / 16), symbol (b.toNat % 16 * 4), '='] val
    obtain ⟨h₂, hval₂⟩ := decodeLoop_more (k := 2 + 2) (b := a)
      (d := a.toNat % 4 * 16 + b.toNat / 16) (m := b.toNat / 16) hval₁
      (by decide) (by omega) (by omega) (by omega) [symbol (b.toNat % 16 * 4), '=']
    obtain ⟨h₃, -⟩ := decodeLoop_more (b := b) (d := b.toNat % 16 * 4) (m := 0) hval₂
      (by decide) (by omega) (by omega) (by omega) ['=']
    rw [h₁, h₂, h₃, decodeLoop_pad]
  | case4 a b c rest ih =>
    have ha := a.toNat_lt
    have hb := b.toNat_lt
    have hc := c.toNat_lt
    rw [Base64.encode]
    obtain ⟨h₁, hval₁⟩ := decodeLoop_first (d := a.toNat / 4) (by omega)
      (symbol (a.toNat % 4 * 16 + b.toNat / 16) :: symbol (b.toNat % 16 * 4 + c.toNat / 64) ::
        symbol (c.toNat % 64) :: Base64.encode rest) val
    obtain ⟨h₂, hval₂⟩ := decodeLoop_more (k := 2 + 2) (b := a)
      (d := a.toNat % 4 * 16 + b.toNat / 16) (m := b.toNat / 16) hval₁
      (by decide) (by omega) (by omega) (by omega)
      (symbol (b.toNat % 16 * 4 + c.toNat / 64) :: symbol (c.toNat % 64) :: Base64.encode rest)
    obtain ⟨h₃, hval₃⟩ := decodeLoop_more (k := 0 + 2) (b := b)
      (d := b.toNat % 16 * 4 + c.toNat / 64) (m := c.toNat / 64) hval₂
      (by decide) (by omega) (by omega) (by omega) (symbol (c.toNat % 64) :: Base64.encode rest)
    obtain ⟨h₄, -⟩ := decodeLoop_more (b := c) (d := c.toNat % 64) (m := 0) hval₃
      (by decide) (by omega) (by omega) (by omega) (Base64.encode rest)
    rw [h₁, h₂, h₃, h₄, ih]

theorem decodeLoop_filter (t : List Char) (val : BitVec 32) (valb : Int) :
    decodeLoop (t.filter (!isBlank ·)) val valb = decodeLoop t val valb := by
  induction t generalizing val valb with
  | nil => rfl
  | cons c t ih =>
    cases hc : isBlank c with
    | true =>
      have hpad : c ≠ '=' := by
        rintro rfl
        cases hc
      rw [List.filter_cons_of_neg (by simp [hc]), ih, decodeLoop, if_neg hpad,
        strchr_eq_none (Or.inr hc)]
    | false =>
      rw [List.filter_cons_of_pos (by simp [hc]), decodeLoop, decodeLoop]
      simp only [ih]

/-- The encoding is the standard one, and a text that is the encoding but for blanks is decoded
to the bytes. -/
theorem base64_roundTrip (b : List UInt8) :
    to_base64 b = Base64.encode b ∧ from_base64 (to_base64 b) = b ∧
      ∀ t : List Char, t.filter (!isBlank ·) = to_base64 b → from_base64 t = b := by
  have hround : from_base64 (to_base64 b) = b := by
    rw [to_base64_eq]
    exact decodeLoop_encode b 0
  refine ⟨to_base64_eq b, hround, fun t ht => ?_⟩
  rw [← ht] at hround
  exact (decodeLoop_filter t 0 (-8)).symm.trans hround

theorem base64_roundTrip_broken :
    "TW\r\nE=\t ".toList.filter (!isBlank ·) = to_base64 [77, 97] ∧
      from_base64 "TW\r\nE=\t ".toList = [77, 97] := by
  have hblank : "TW\r\nE=\t ".toList.filter (!isBlank ·) = to_base64 [77, 97] := by
    rw [to_base64_eq]
    rfl
  exact ⟨hblank, (base64_roundTrip [77, 97]).2.2 _ hblank⟩

end Catena.Common
