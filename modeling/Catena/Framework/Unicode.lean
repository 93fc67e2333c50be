import Catena.Framework.FilePath
import Mathlib.Data.List.Infix

/-!
# Unicode encodings

The UTF-8 encoding of a text, and the decoder that puts a replacement character where the bytes
are no encoding of one: it keeps the bytes of a character that has not come to its end, and the
range that the next one has to be in. Cutting the encoding of a text gives the encoding of a
shorter text, perhaps with a replacement character at its end.
-/

namespace Catena.Framework

def codeUnits (s : String) : List UInt16 :=
  s.toList.flatMap fun c =>
    let v := c.val.toNat
    if v < 0x10000 then [.ofNat v]
    else [.ofNat (0xD800 + (v - 0x10000) / 0x400), .ofNat (0xDC00 + (v - 0x10000) % 0x400)]

def utf8 (text : Text) : List UInt8 := text.flatMap String.utf8EncodeChar

namespace Utf8

def replacement : Char := '\uFFFD'

/-- A character that has not come to its end: its bits so far, how many bytes it still needs, and
the range of the next one. -/
structure Pending where
  codePoint : Nat
  needed : Nat
  lower : Nat := 0x80
  upper : Nat := 0xBF

/-- The first byte of a character. -/
def first (b : UInt8) : Text × Option Pending :=
  let v := b.toNat
  if v < 0x80 then ([Char.ofNat v], none)
  else if v < 0xC2 then ([replacement], none)
  else if v < 0xE0 then ([], some { codePoint := v - 0xC0, needed := 1 })
  else if v < 0xF0 then
    ([], some { codePoint := v - 0xE0, needed := 2, lower := if v = 0xE0 then 0xA0 else 0x80,
                upper := if v = 0xED then 0x9F else 0xBF })
  else if v < 0xF5 then
    ([], some { codePoint := v - 0xF0, needed := 3, lower := if v = 0xF0 then 0x90 else 0x80,
                upper := if v = 0xF4 then 0x8F else 0xBF })
  else ([replacement], none)

/-- One byte. A byte out of the range ends the character and is looked at again as a first one. -/
def next : Option Pending → UInt8 → Text × Option Pending
  | none, b => first b
  | some p, b =>
      if p.lower ≤ b.toNat ∧ b.toNat ≤ p.upper then
        let codePoint := p.codePoint * 0x40 + (b.toNat - 0x80)
        if p.needed = 1 then ([Char.ofNat codePoint], none)
        else ([], some { codePoint, needed := p.needed - 1 })
      else (replacement :: (first b).1, (first b).2)

def run : Option Pending → List UInt8 → Text
  | none, [] => []
  | some _, [] => [replacement]
  | s, b :: bs => (next s b).1 ++ run (next s b).2 bs

def decode (bytes : List UInt8) : Text := run none bytes

theorem run_cons (s : Option Pending) (b : UInt8) (bs : List UInt8) :
    run s (b :: bs) = (next s b).1 ++ run (next s b).2 bs := by
  cases s <;> rfl

theorem next_tail (p : Pending) {x : Nat} (hx : x < 0x40) (hlow : p.lower ≤ x + 0x80)
    (hhigh : x + 0x80 ≤ p.upper) :
    next (some p) (UInt8.ofNat (x + 0x80)) =
      if p.needed = 1 then ([Char.ofNat (p.codePoint * 0x40 + x)], none)
      else ([], some { codePoint := p.codePoint * 0x40 + x, needed := p.needed - 1 }) := by
  have hb : (UInt8.ofNat (x + 0x80)).toNat = x + 0x80 :=
    UInt8.toNat_ofNat_of_lt' (show x + 0x80 < 256 by omega)
  rw [next, hb, if_pos ⟨hlow, hhigh⟩, Nat.add_sub_cancel]

section First

variable {v : Nat}

theorem first_ascii (hv : v < 0x80) : first (UInt8.ofNat v) = ([Char.ofNat v], none) := by
  have hb : (UInt8.ofNat v).toNat = v := UInt8.toNat_ofNat_of_lt' (show v < 256 by omega)
  rw [first, hb, if_pos hv]

theorem first_two (hlow : 0x80 ≤ v) (hhigh : v < 0x800) :
    first (UInt8.ofNat (v / 64 % 0x20 + 0xC0)) =
      ([], some { codePoint := v / 64, needed := 1 }) := by
  have hb : (UInt8.ofNat (v / 64 % 0x20 + 0xC0)).toNat = v / 64 + 0xC0 := by
    rw [UInt8.toNat_ofNat_of_lt' (show _ < 256 by omega)]
    omega
  rw [first, hb, if_neg (by omega), if_neg (by omega), if_pos (by omega), Nat.add_sub_cancel]

theorem first_three (hhigh : v < 0x10000) :
    first (UInt8.ofNat (v / 4096 % 0x10 + 0xE0)) =
      ([], some { codePoint := v / 4096, needed := 2, lower := if v < 0x1000 then 0xA0 else 0x80,
                  upper := if v / 4096 = 13 then 0x9F else 0xBF }) := by
  have hb : (UInt8.ofNat (v / 4096 % 0x10 + 0xE0)).toNat = v / 4096 + 0xE0 := by
    rw [UInt8.toNat_ofNat_of_lt' (show _ < 256 by omega)]
    omega
  have hlower : v / 4096 + 0xE0 = 0xE0 ↔ v < 0x1000 := by omega
  have hupper : v / 4096 + 0xE0 = 0xED ↔ v / 4096 = 13 := by omega
  rw [first, hb, if_neg (by omega), if_neg (by omega), if_neg (by omega), if_pos (by omega),
    Nat.add_sub_cancel]
  simp only [hlower, hupper]

theorem first_four (hhigh : v < 0x110000) :
    first (UInt8.ofNat (v / 262144 % 0x08 + 0xF0)) =
      ([], some { codePoint := v / 262144, needed := 3, lower := if v < 0x40000 then 0x90 else 0x80,
                  upper := if v / 262144 = 4 then 0x8F else 0xBF }) := by
  have hb : (UInt8.ofNat (v / 262144 % 0x08 + 0xF0)).toNat = v / 262144 + 0xF0 := by
    rw [UInt8.toNat_ofNat_of_lt' (show _ < 256 by omega)]
    omega
  have hlower : v / 262144 + 0xF0 = 0xF0 ↔ v < 0x40000 := by omega
  have hupper : v / 262144 + 0xF0 = 0xF4 ↔ v / 262144 = 4 := by omega
  rw [first, hb, if_neg (by omega), if_neg (by omega), if_neg (by omega), if_neg (by omega),
    if_pos (by omega), Nat.add_sub_cancel]
  simp only [hlower, hupper]

end First

/-- These bytes of a character give nothing, and the decoder wants more. -/
inductive Silent : Option Pending → List UInt8 → Option Pending → Prop
  | nil (s : Option Pending) : Silent s [] s
  | cons {s s' : Option Pending} {p : Pending} {b : UInt8} {bs : List UInt8} :
      next s b = ([], some p) → Silent (some p) bs s' → Silent s (b :: bs) s'

theorem Silent.run_append {s s' : Option Pending} {bs : List UInt8} (h : Silent s bs s')
    (rest : List UInt8) : run s (bs ++ rest) = run s' rest := by
  induction h with
  | nil s => rfl
  | cons hb _ ih =>
    rw [List.cons_append, run_cons, hb]
    exact ih

theorem Silent.run_prefix {s s' : Option Pending} {bs p : List UInt8} (h : Silent s bs s')
    (hp : p <+: bs) (hne : p ≠ []) : run s p = [replacement] := by
  induction h generalizing p with
  | nil s => exact absurd (List.prefix_nil.mp hp) hne
  | cons hb _ ih =>
    cases p with
    | nil => exact absurd rfl hne
    | cons b' p =>
      obtain ⟨rfl, hrest⟩ := List.cons_prefix_cons.mp hp
      rw [run_cons, hb]
      cases p with
      | nil => rfl
      | cons b'' p => exact ih hrest (by simp)

theorem toNat_ranges (c : Char) : c.toNat < 0xD800 ∨ 0xDFFF < c.toNat ∧ c.toNat < 0x110000 :=
  c.valid

/-- All bytes of a character but the last give nothing, and the last one gives it. -/
theorem encodeChar_split (c : Char) :
    ∃ initial last s, String.utf8EncodeChar c = initial ++ [last] ∧ Silent none initial s ∧
      next s last = ([c], none) ∧ (initial ≠ [] → 0x80 ≤ c.toNat) := by
  have hranges := toNat_ranges c
  have hc : Char.ofNat c.toNat = c := Char.ofNat_toNat c
  generalize hv : c.toNat = v at hranges hc
  have hval : c.val.toNat = v := hv
  simp only [String.utf8EncodeChar, hval]
  by_cases h₁ : v ≤ 0x7F
  · refine ⟨[], UInt8.ofNat v, none, by rw [if_pos h₁]; rfl, .nil none, ?_, fun h => absurd rfl h⟩
    rw [next, first_ascii (by omega), hc]
  have hbig : 0x80 ≤ v := by omega
  by_cases h₂ : v ≤ 0x7FF
  · refine ⟨[_], _, _, by rw [if_neg h₁, if_pos h₂]; rfl,
      .cons (first_two hbig (by omega)) (.nil _), ?_, fun _ => hbig⟩
    rw [next_tail _ (Nat.mod_lt v (by decide)) (by simp) (by simp; omega)]
    simp only [if_true]
    rw [show v / 64 * 0x40 + v % 0x40 = v by omega, hc]
  by_cases h₃ : v ≤ 0xFFFF
  · have hsecond := next_tail
      { codePoint := v / 4096, needed := 2, lower := if v < 0x1000 then 0xA0 else 0x80,
        upper := if v / 4096 = 13 then 0x9F else 0xBF } (Nat.mod_lt (v / 64) (by decide))
      (by simp only; split <;> omega) (by simp only; split <;> omega)
    refine ⟨[_, _], _, _, by rw [if_neg h₁, if_neg h₂, if_pos h₃]; rfl,
      .cons (first_three (by omega)) (.cons hsecond (.nil _)), ?_, fun _ => hbig⟩
    rw [next_tail _ (Nat.mod_lt v (by decide)) (by simp) (by simp; omega)]
    simp only [Nat.add_one_sub_one, if_true]
    rw [show (v / 4096 * 0x40 + v / 64 % 0x40) * 0x40 + v % 0x40 = v by omega, hc]
  · have hsecond := next_tail
      { codePoint := v / 262144, needed := 3, lower := if v < 0x40000 then 0x90 else 0x80,
        upper := if v / 262144 = 4 then 0x8F else 0xBF } (Nat.mod_lt (v / 4096) (by decide))
      (by simp only; split <;> omega) (by simp only; split <;> omega)
    have hthird := next_tail
      { codePoint := v / 262144 * 0x40 + v / 4096 % 0x40, needed := 2 }
      (Nat.mod_lt (v / 64) (by decide)) (by simp) (by simp; omega)
    refine ⟨[_, _, _], _, _, by rw [if_neg h₁, if_neg h₂, if_neg h₃]; rfl,
      .cons (first_four (by omega)) (.cons hsecond (.cons hthird (.nil _))), ?_, fun _ => hbig⟩
    rw [next_tail _ (Nat.mod_lt v (by decide)) (by simp) (by simp; omega)]
    simp only [Nat.add_one_sub_one, if_true]
    rw [show ((v / 262144 * 0x40 + v / 4096 % 0x40) * 0x40 + v / 64 % 0x40) * 0x40 + v % 0x40 = v
      by omega, hc]

theorem utf8_cons (c : Char) (text : Text) :
    utf8 (c :: text) = String.utf8EncodeChar c ++ utf8 text := rfl

theorem decode_utf8 (text : Text) : decode (utf8 text) = text := by
  induction text with
  | nil => rfl
  | cons c text ih =>
    obtain ⟨initial, last, s, hsplit, hsilent, hlast, _⟩ := encodeChar_split c
    rw [utf8_cons, hsplit, List.append_assoc, decode, hsilent.run_append, List.singleton_append,
      run_cons, hlast]
    exact congrArg (c :: ·) ih

/-- Cutting the encoding of a text gives a shorter text, with a replacement character for a
character that is cut, which is none of ASCII. -/
theorem decode_prefix {text : Text} {p : List UInt8} (hp : p <+: utf8 text) (hne : p ≠ utf8 text) :
    ∃ t c rest, text = t ++ c :: rest ∧
      (decode p = t ∨ 0x80 ≤ c.toNat ∧ decode p = t ++ [replacement]) := by
  induction text generalizing p with
  | nil => exact absurd (List.prefix_nil.mp hp) hne
  | cons c text ih =>
    obtain ⟨initial, last, s, hsplit, hsilent, hlast, hascii⟩ := encodeChar_split c
    rw [utf8_cons, hsplit] at hp hne
    rcases Nat.lt_or_ge initial.length p.length with hlong | hshort
    · -- the whole character is there
      have hfirst : initial ++ [last] <+: p :=
        List.prefix_of_prefix_length_le (List.prefix_append _ _) hp (by
          rw [List.length_append]
          exact hlong)
      obtain ⟨q, rfl⟩ := hfirst
      obtain ⟨t, c', rest, htext, hdecode⟩ := ih ((List.prefix_append_right_inj _).mp hp)
        fun hq => hne (congrArg _ hq)
      have hrun : decode (initial ++ [last] ++ q) = c :: decode q := by
        rw [List.append_assoc, decode, hsilent.run_append, List.singleton_append, run_cons, hlast]
        rfl
      refine ⟨c :: t, c', rest, congrArg (c :: ·) htext, ?_⟩
      rw [hrun]
      exact hdecode.imp (congrArg (c :: ·)) (And.imp_right (congrArg (c :: ·)))
    · have hcut : p <+: initial :=
        List.prefix_of_prefix_length_le hp ((List.prefix_append _ _).trans (List.prefix_append _ _))
          hshort
      refine ⟨[], c, text, rfl, ?_⟩
      by_cases hnil : p = []
      · exact Or.inl (congrArg decode hnil)
      · refine Or.inr ⟨hascii fun hinitial => hnil ?_, hsilent.run_prefix hcut hnil⟩
        exact List.prefix_nil.mp (hinitial ▸ hcut)

section Ascii

/-- A character that is no text character of ASCII. -/
def Foreign (c : Char) : Prop := c.toNat = 0 ∨ 0x80 ≤ c.toNat

theorem toNat_ofNat (n : Nat) : (Char.ofNat n).toNat = if n.isValidChar then n else 0 := by
  by_cases hvalid : n.isValidChar
  · rw [if_pos hvalid, Char.ofNat, dif_pos hvalid]
    rfl
  · rw [if_neg hvalid, Char.ofNat, dif_neg hvalid]
    rfl

theorem foreign_ofNat {n : Nat} (hn : 0x80 ≤ n) : Foreign (Char.ofNat n) := by
  by_cases hvalid : n.isValidChar
  · exact Or.inr (by rwa [toNat_ofNat, if_pos hvalid])
  · exact Or.inl (by rw [toNat_ofNat, if_neg hvalid])

/-- The bits so far, or those of the next byte, put the character above ASCII. -/
def Pending.Large (p : Pending) : Prop :=
  2 ≤ p.codePoint ∨ 2 ≤ p.needed ∧ (1 ≤ p.codePoint ∨ 0x90 ≤ p.lower)

theorem run_large {p : Pending} (hp : p.Large) (bs : List UInt8) :
    ∃ c rest, run (some p) bs = c :: rest ∧ Foreign c := by
  induction bs generalizing p with
  | nil => exact ⟨replacement, [], rfl, Or.inr (by decide)⟩
  | cons b bs ih =>
    rw [run_cons, next]
    split
    · rename_i hrange
      have hlarge : 2 ≤ p.codePoint * 0x40 + (b.toNat - 0x80) := by
        rcases hp with hp | ⟨_, hp | hp⟩ <;> omega
      by_cases hlast : p.needed = 1
      · have hbits : 2 ≤ p.codePoint := by
          rcases hp with hp | ⟨hneeded, _⟩
          · exact hp
          · omega
        rw [if_pos hlast]
        exact ⟨_, _, rfl, foreign_ofNat (by omega)⟩
      · rw [if_neg hlast]
        exact ih (Or.inl hlarge)
    · exact ⟨replacement, _, rfl, Or.inr (by decide)⟩

theorem first_cases (b : UInt8) :
    b.toNat < 0x80 ∧ first b = ([Char.ofNat b.toNat], none) ∨ first b = ([replacement], none) ∨
      ∃ p : Pending, p.Large ∧ first b = ([], some p) := by
  simp only [first]
  split
  · exact Or.inl ⟨‹_›, rfl⟩
  split
  · exact Or.inr (Or.inl rfl)
  split
  · exact Or.inr (Or.inr ⟨_, Or.inl (by simp only; omega), rfl⟩)
  split
  · refine Or.inr (Or.inr ⟨_, Or.inr ⟨Nat.le_refl 2, ?_⟩, rfl⟩)
    simp only
    split <;> omega
  split
  · refine Or.inr (Or.inr ⟨_, Or.inr ⟨by simp, ?_⟩, rfl⟩)
    simp only
    split <;> omega
  · exact Or.inr (Or.inl rfl)

theorem eq_utf8_of_decode {bs : List UInt8} (h : ∀ c ∈ decode bs, ¬Foreign c) :
    bs = utf8 (decode bs) := by
  induction bs with
  | nil => rfl
  | cons b bs ih =>
    rw [decode, run_cons, next] at h ⊢
    rcases first_cases b with ⟨hb, hfirst⟩ | hfirst | ⟨p, hp, hfirst⟩
    · rw [hfirst] at h ⊢
      have hrest := ih fun c hc => h c (List.mem_append_right _ hc)
      have hchar : (Char.ofNat b.toNat).val.toNat = b.toNat := by
        rw [← Char.toNat, toNat_ofNat, if_pos (Or.inl (by omega))]
      rw [List.singleton_append, utf8_cons, String.utf8EncodeChar, hchar,
        if_pos (Nat.le_of_lt_succ hb), UInt8.ofNat_toNat]
      exact congrArg (b :: ·) hrest
    · rw [hfirst] at h
      exact absurd (Or.inr (by decide)) (h replacement (by simp))
    · obtain ⟨c, rest, hrun, hforeign⟩ := run_large hp bs
      rw [hfirst, List.nil_append, hrun] at h
      exact absurd hforeign (h c List.mem_cons_self)

end Ascii

end Utf8

end Catena.Framework
