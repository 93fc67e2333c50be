import Mathlib.Data.List.Basic

/-!
# Splitting texts into tokens

Two ways to cut a text: at every delimiter, as a loop over `std::getline` does, which answers an
empty token between two delimiters; and at runs of white space, as `strings.Fields` of Go does,
which answers none. On a text whose white space is the delimiter they have the same nonempty
tokens.
-/

namespace Catena.Framework

/-- The lines that a loop over `std::getline` reads. The line so far is only empty at the end of
the text when nothing was extracted after the last delimiter, and then the loop stops. -/
def getlines (delim : Char) (line : List Char) : List Char → List (List Char)
  | [] => if line = [] then [] else [line]
  | c :: text =>
      if c = delim then line :: getlines delim [] text else getlines delim (line ++ [c]) text

/-- `strings.FieldsSeq`, with the field that has been started. -/
def fields (isSpace : Char → Bool) (field : List Char) : List Char → List (List Char)
  | [] => if field = [] then [] else [field]
  | c :: text =>
      if isSpace c then
        if field = [] then fields isSpace [] text else field :: fields isSpace [] text
      else fields isSpace (field ++ [c]) text

/-- `unicode.IsSpace`. -/
def isSpace (c : Char) : Bool :=
  c.val = 0x20 || (0x09 ≤ c.val && c.val ≤ 0x0d) || c.val = 0x85 || c.val = 0xa0 ||
    c.val = 0x1680 || (0x2000 ≤ c.val && c.val ≤ 0x200a) || c.val = 0x2028 || c.val = 0x2029 ||
    c.val = 0x202f || c.val = 0x205f || c.val = 0x3000

/-- A text whose white space is the delimiter has the same nonempty tokens both ways. -/
theorem mem_fields_iff_mem_getlines {isSpace : Char → Bool} {delim : Char} {text : List Char}
    (hdelim : isSpace delim = true) (hspace : ∀ c ∈ text, isSpace c = true → c = delim)
    (token field : List Char) :
    token ∈ fields isSpace field text ↔ token ≠ [] ∧ token ∈ getlines delim field text := by
  induction text generalizing field with
  | nil =>
    unfold fields getlines
    split
    · simp
    · rename_i hfield
      simp only [List.mem_singleton]
      constructor
      · rintro rfl
        exact ⟨hfield, rfl⟩
      · exact And.right
  | cons c text ih =>
    have htext := ih fun c hc => hspace c (List.mem_cons_of_mem _ hc)
    unfold fields getlines
    by_cases hc : c = delim
    · rw [if_pos (hc ▸ hdelim), if_pos hc]
      split
      · rename_i hfield
        rw [htext, List.mem_cons, hfield]
        tauto
      · rename_i hfield
        rw [List.mem_cons, List.mem_cons, htext]
        constructor
        · rintro (rfl | h)
          · exact ⟨hfield, Or.inl rfl⟩
          · exact ⟨h.1, Or.inr h.2⟩
        · rintro ⟨hne, rfl | h⟩
          · exact Or.inl rfl
          · exact Or.inr ⟨hne, h⟩
    · have hnot : ¬isSpace c = true := fun h => hc (hspace c List.mem_cons_self h)
      rw [if_neg hnot, if_neg hc]
      exact htext _

end Catena.Framework
