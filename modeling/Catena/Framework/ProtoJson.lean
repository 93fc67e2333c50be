import Mathlib.Algebra.Group.Int.Defs
import Mathlib.Algebra.Group.Nat.Defs
import Mathlib.Data.List.Nodup

/-!
# Messages and their JSON

A schema gives the fields of every message type. The value of a message is the list of its
populated fields, in the order of the schema: a scalar outside a oneof is populated when it is
not the default, a list or a map when it is not empty, a message or a member of a oneof when it is
set. The entries of a map are in the order of their keys. Bytes are their base64 text, and a float
its bits, one pattern of which stands for all that is no number.

The JSON of a message has an entry for each populated field and may have one for an unpopulated
field outside a oneof. It keeps standing for the message when zeros are left out of it.
-/

namespace Catena.Framework

theorem find?_of_nodup_map {α β : Type} [DecidableEq β] {key : α → β} {l : List α}
    (hkeys : (l.map key).Nodup) {a : α} (ha : a ∈ l) :
    (l.find? fun b => key b = key a) = some a := by
  cases hfind : l.find? fun b => key b = key a with
  | none => simpa using List.find?_eq_none.mp hfind a ha
  | some b =>
    have hkey : key b = key a := by simpa using List.find?_some hfind
    rw [List.inj_on_of_nodup_map hkeys (List.mem_of_find?_eq_some hfind) ha hkey]

inductive Number where
  | int (i : Int)
  | float (bits : UInt32)
  deriving DecidableEq

inductive Json where
  | null
  | bool (b : Bool)
  | number (n : Number)
  | string (s : String)
  | array (items : List Json)
  | object (entries : List (String × Json))

def Json.isLeaf : Json → Bool
  | .array _ => false
  | .object _ => false
  | _ => true

def Json.isZero (getInt : Number → Int) : Json → Bool
  | .number n => getInt n = 0
  | .bool b => !b
  | _ => false

def base64Digit (c : Char) : Option Nat :=
  if c.isUpper then some (c.toNat - 'A'.toNat)
  else if c.isLower then some (c.toNat - 'a'.toNat + 26)
  else if c.isDigit then some (c.toNat - '0'.toNat + 52)
  else if c = '+' then some 62
  else if c = '/' then some 63
  else none

/-- The texts of bytes: four digits for three bytes, with padding and without stray bits at the
end. -/
inductive IsBase64 : List Char → Prop where
  | nil : IsBase64 []
  | one {a b : Char} {i j : Nat} : base64Digit a = some i → base64Digit b = some j →
      j % 16 = 0 → IsBase64 [a, b, '=', '=']
  | two {a b c : Char} {i j k : Nat} : base64Digit a = some i → base64Digit b = some j →
      base64Digit c = some k → k % 4 = 0 → IsBase64 [a, b, c, '=']
  | more {a b c d : Char} {i j k l : Nat} {text : List Char} : base64Digit a = some i →
      base64Digit b = some j → base64Digit c = some k → base64Digit d = some l →
      IsBase64 text → IsBase64 (a :: b :: c :: d :: text)

/-- The bits that stand for all floats that are no numbers. -/
def nanBits : UInt32 := 0x7FC00000

/-- The JSON of a float: a number, or the name of one that JSON does not have. -/
def floatJson (bits : UInt32) : Json :=
  if bits = nanBits then .string "NaN"
  else if bits = 0x7F800000 then .string "Infinity"
  else if bits = 0xFF800000 then .string "-Infinity"
  else .number (.float bits)

inductive Scalar where
  | int (i : Int)
  | float (bits : UInt32)
  | bool (b : Bool)
  | string (s : String)
  | enum (number : Int)
  deriving DecidableEq

def Scalar.isDefault : Scalar → Bool
  | .int i => i = 0
  | .float bits => bits = 0
  | .bool b => !b
  | .string s => s = ""
  | .enum number => number = 0

/-- The types of scalars. An enumeration has names for some of its numbers. -/
inductive ScalarType where
  | int32
  | uint32
  | float
  | bool
  | string
  | bytes
  | enum (names : List (Int × String))

abbrev IsInt32 (i : Int) : Prop := -2 ^ 31 ≤ i ∧ i < 2 ^ 31

abbrev IsUInt32 (i : Int) : Prop := 0 ≤ i ∧ i < 2 ^ 32

namespace ScalarType

def Has : ScalarType → Scalar → Prop
  | .int32, .int i => IsInt32 i
  | .uint32, .int i => IsUInt32 i
  | .float, .float bits => bits.toNat % 2 ^ 31 ≤ 0x7F800000 ∨ bits = nanBits
  | .bool, .bool _ => True
  | .string, .string _ => True
  | .bytes, .string s => IsBase64 s.toList
  | .enum _, .enum number => IsInt32 number
  | _, _ => False

def default : ScalarType → Scalar
  | .int32 => .int 0
  | .uint32 => .int 0
  | .float => .float 0
  | .bool => .bool false
  | .string => .string ""
  | .bytes => .string ""
  | .enum _ => .enum 0

/-- The names of an enumeration are distinct texts. -/
def WellFormed : ScalarType → Prop
  | .enum names => (names.map Prod.snd).Nodup ∧ "" ∉ names.map Prod.snd
  | _ => True

instance : DecidablePred WellFormed
  | .enum names => inferInstanceAs (Decidable ((names.map Prod.snd).Nodup ∧ _))
  | .int32 => isTrue trivial
  | .uint32 => isTrue trivial
  | .float => isTrue trivial
  | .bool => isTrue trivial
  | .string => isTrue trivial
  | .bytes => isTrue trivial

/-- The JSON of a scalar. -/
def encode : ScalarType → Scalar → Json
  | .enum names, .enum number =>
      match names.find? fun e => e.1 = number with
      | some e => .string e.2
      | none => .number (.int number)
  | _, .int i => .number (.int i)
  | .float, .float bits => floatJson bits
  | _, .float bits => .number (.float bits)
  | _, .bool b => .bool b
  | _, .string s => .string s
  | _, .enum number => .number (.int number)

def isNumeric : ScalarType → Bool
  | .string => false
  | .bytes => false
  | _ => true

theorem isLeaf_floatJson (bits : UInt32) : (floatJson bits).isLeaf = true := by
  unfold floatJson
  split_ifs <;> rfl

theorem isLeaf_encode (t : ScalarType) (s : Scalar) : (t.encode s).isLeaf = true := by
  cases t <;> cases s
  case enum.enum names number =>
    rw [encode]
    split <;> rfl
  case float.float bits => exact isLeaf_floatJson bits
  all_goals rfl

theorem has_default (t : ScalarType) : t.Has t.default := by
  cases t with
  | int32 => exact ⟨by decide, by decide⟩
  | uint32 => exact ⟨by decide, by decide⟩
  | enum names => exact ⟨by decide, by decide⟩
  | float => exact Or.inl (by decide)
  | bool => trivial
  | string => trivial
  | bytes => exact .nil

theorem isDefault_default (t : ScalarType) : t.default.isDefault = true := by
  cases t <;> rfl

end ScalarType

/-- The types of fields and of their elements. -/
inductive ProtoType (M : Type) where
  | scalar (t : ScalarType)
  | message (m : M)
  | list (e : ProtoType M)
  | map (e : ProtoType M)

namespace ProtoType

variable {M : Type}

def isNumeric : ProtoType M → Bool
  | .scalar t => t.isNumeric
  | _ => false

/-- The types whose default is the only value that reads as a zero. -/
def isCount : ProtoType M → Bool
  | .scalar .int32 => true
  | .scalar .uint32 => true
  | .scalar .bool => true
  | _ => false

/-- The keys of a map are arbitrary, so that its elements must not be taken for zeros. -/
def Sound : ProtoType M → Prop
  | .scalar t => t.WellFormed
  | .message _ => True
  | .list e => e.Sound
  | .map e => e.isNumeric = false ∧ e.Sound

instance decidableSound : (t : ProtoType M) → Decidable t.Sound
  | .scalar t => inferInstanceAs (Decidable t.WellFormed)
  | .message _ => isTrue trivial
  | .list e => decidableSound e
  | .map e => @instDecidableAnd _ _ _ (decidableSound e)

end ProtoType

structure ProtoField (M : Type) where
  name : String
  type : ProtoType M
  oneof : Option String := none

/-- Values, without their types. -/
inductive Data where
  | scalar (s : Scalar)
  | message (fields : List (String × Data))
  | list (items : List Data)
  | map (entries : List (String × Data))

namespace ProtoField

variable {M : Type}

def unset (f : ProtoField M) : Option Json :=
  if f.oneof.isSome then none
  else
    match f.type with
    | .scalar t => some (t.encode t.default)
    | .message _ => some .null
    | .list _ => some (.array [])
    | .map _ => some (.object [])

def isUnset (f : ProtoField M) : Data → Bool
  | .scalar s => f.oneof.isNone && s.isDefault
  | .message _ => false
  | .list items => items.isEmpty
  | .map entries => entries.isEmpty

end ProtoField

section

variable {M : Type} (schema : M → List (ProtoField M))

def fieldOf (m : M) (name : String) : Option (ProtoField M) :=
  (schema m).find? fun f => f.name = name

mutual

def HasType : ProtoType M → Data → Prop
  | .scalar t, .scalar s => t.Has s
  | .message m, .message fields =>
      (fields.map Prod.fst).Sublist ((schema m).map ProtoField.name) ∧
        (fields.filterMap fun e => (fieldOf schema m e.1).bind ProtoField.oneof).Nodup ∧
        HasFields m fields
  | .list e, .list items => HasItems e items
  | .map e, .map entries => (entries.map Prod.fst).Pairwise (· < ·) ∧ HasEntries e entries
  | _, _ => False

/-- Every field is one of the message type, and populated. -/
def HasFields (m : M) : List (String × Data) → Prop
  | [] => True
  | (name, x) :: rest =>
      (match fieldOf schema m name with
      | some f => HasType f.type x ∧ f.isUnset x = false
      | none => False) ∧ HasFields m rest

def HasItems (e : ProtoType M) : List Data → Prop
  | [] => True
  | x :: rest => HasType e x ∧ HasItems e rest

def HasEntries (e : ProtoType M) : List (String × Data) → Prop
  | [] => True
  | (_, x) :: rest => HasType e x ∧ HasEntries e rest

end

/-- A field whose entry is there and not empty whatever its value is. -/
def ProtoField.isSolid (f : ProtoField M) : Bool :=
  f.oneof.isNone && f.type.isNumeric

def ProtoField.lasting (omittable : String → Bool) (f : ProtoField M) : Bool :=
  f.unset.isSome && !omittable f.name

theorem ProtoField.isSome_unset {f : ProtoField M} (hsolid : f.isSolid = true) :
    f.unset.isSome = true := by
  obtain ⟨honeof, hnumeric⟩ := Bool.and_eq_true_iff.mp hsolid
  rw [ProtoField.unset, if_neg (by simpa using honeof)]
  split <;> rfl

variable (omittable : String → Bool)

mutual

/-- The JSON stands for the value. Only entries of unpopulated fields with omittable names are
left out, and no object has two entries with one name. -/
inductive Encodes : ProtoType M → Data → Json → Prop where
  | scalar {t : ScalarType} {s : Scalar} : t.Has s → Encodes (.scalar t) (.scalar s) (t.encode s)
  | message {m : M} {fields : List (String × Data)} {entries : List (String × Json)} :
      EncodesFields m fields entries → (entries.map Prod.fst).Nodup →
      (∀ f ∈ schema m, f.lasting omittable = true → f.name ∈ entries.map Prod.fst) →
        Encodes (.message m) (.message fields) (.object entries)
  | list {e : ProtoType M} {items : List Data} {js : List Json} :
      EncodesItems e items js → Encodes (.list e) (.list items) (.array js)
  | map {e : ProtoType M} {entries : List (String × Data)} {js : List (String × Json)} :
      EncodesEntries e entries js → (js.map Prod.fst).Nodup →
        Encodes (.map e) (.map entries) (.object js)

inductive EncodesFields : M → List (String × Data) → List (String × Json) → Prop where
  | nil {m : M} : EncodesFields m [] []
  | unset {m : M} {f : ProtoField M} {j : Json} {fields : List (String × Data)}
      {entries : List (String × Json)} : f ∈ schema m → f.unset = some j →
      EncodesFields m fields entries → EncodesFields m fields ((f.name, j) :: entries)
  | set {m : M} {f : ProtoField M} {x : Data} {j : Json} {fields : List (String × Data)}
      {entries : List (String × Json)} : f ∈ schema m → f.isUnset x = false →
      Encodes f.type x j → EncodesFields m fields entries →
        EncodesFields m ((f.name, x) :: fields) ((f.name, j) :: entries)

inductive EncodesItems : ProtoType M → List Data → List Json → Prop where
  | nil {e : ProtoType M} : EncodesItems e [] []
  | cons {e : ProtoType M} {x : Data} {j : Json} {items : List Data} {js : List Json} :
      Encodes e x j → EncodesItems e items js → EncodesItems e (x :: items) (j :: js)

inductive EncodesEntries :
    ProtoType M → List (String × Data) → List (String × Json) → Prop where
  | nil {e : ProtoType M} : EncodesEntries e [] []
  | cons {e : ProtoType M} {key : String} {x : Data} {j : Json} {entries : List (String × Data)}
      {js : List (String × Json)} : Encodes e x j → EncodesEntries e entries js →
        EncodesEntries e ((key, x) :: entries) ((key, j) :: js)

end

theorem mem_of_fieldOf {m : M} {name : String} {f : ProtoField M}
    (h : fieldOf schema m name = some f) : f ∈ schema m ∧ f.name = name :=
  ⟨List.mem_of_find?_eq_some h, by simpa using List.find?_some h⟩

section

variable {schema omittable} {omittable' : String → Bool}

mutual

theorem Encodes.mono (hmore : ∀ name, omittable name = true → omittable' name = true) :
    {t : ProtoType M} → {x : Data} → {j : Json} →
    Encodes schema omittable t x j → Encodes schema omittable' t x j
  | _, _, _, .scalar hhas => .scalar hhas
  | _, _, _, .message hfields hnodup hlasting => by
    refine .message (hfields.mono hmore) hnodup ?_
    intro f hf hlast
    apply hlasting f hf
    obtain ⟨hunset, hkept⟩ := Bool.and_eq_true_iff.mp hlast
    rw [ProtoField.lasting, hunset, Bool.true_and, Bool.not_eq_true']
    cases homit : omittable f.name with
    | false => rfl
    | true =>
      rw [hmore _ homit] at hkept
      cases hkept
  | _, _, _, .list hitems => .list (hitems.mono hmore)
  | _, _, _, .map hentries hnodup => .map (hentries.mono hmore) hnodup

theorem EncodesFields.mono (hmore : ∀ name, omittable name = true → omittable' name = true) :
    {m : M} → {fields : List (String × Data)} →
    {entries : List (String × Json)} → EncodesFields schema omittable m fields entries →
    EncodesFields schema omittable' m fields entries
  | _, _, _, .nil => .nil
  | _, _, _, .unset hf hunset hrest => .unset hf hunset (hrest.mono hmore)
  | _, _, _, .set hf hset hx hrest => .set hf hset (hx.mono hmore) (hrest.mono hmore)

theorem EncodesItems.mono (hmore : ∀ name, omittable name = true → omittable' name = true) :
    {e : ProtoType M} → {items : List Data} → {js : List Json} →
    EncodesItems schema omittable e items js → EncodesItems schema omittable' e items js
  | _, _, _, .nil => .nil
  | _, _, _, .cons hx hrest => .cons (hx.mono hmore) (hrest.mono hmore)

theorem EncodesEntries.mono (hmore : ∀ name, omittable name = true → omittable' name = true) :
    {e : ProtoType M} → {entries : List (String × Data)} →
    {js : List (String × Json)} → EncodesEntries schema omittable e entries js →
    EncodesEntries schema omittable' e entries js
  | _, _, _, .nil => .nil
  | _, _, _, .cons hx hrest => .cons (hx.mono hmore) (hrest.mono hmore)

end

end

/-- What makes it safe to leave out the zeros under omittable names. -/
structure Sound : Prop where
  names : ∀ m, ((schema m).map ProtoField.name).Nodup
  types : ∀ m, ∀ f ∈ schema m, f.type.Sound
  counts : ∀ m, ∀ f ∈ schema m, omittable f.name = true →
    f.oneof = none ∧ f.type.isCount = true
  solid : ∀ m, ∀ f ∈ schema m, f.isSolid = true →
    ∃ g ∈ schema m, g.isSolid = true ∧ omittable g.name = false

variable {schema omittable}

theorem Sound.fieldOf_name (hsound : Sound schema omittable) {m : M} {f : ProtoField M}
    (hf : f ∈ schema m) : fieldOf schema m f.name = some f :=
  find?_of_nodup_map (hsound.names m) hf

/-- How a number reads as an integer, if it is one of 64 bits. -/
def ReadsInts (getInt : Number → Int) : Prop :=
  ∀ i : Int, -2 ^ 63 ≤ i → i < 2 ^ 63 → getInt (.int i) = i

variable {getInt : Number → Int}

variable (omittable getInt) in
mutual

/-- The second tree is the first without some of its zeros, all of them under omittable names. -/
inductive Trims : Json → Json → Prop where
  | refl (j : Json) : Trims j j
  | array {items items' : List Json} : TrimsItems items items' →
      Trims (.array items) (.array items')
  | object {entries entries' : List (String × Json)} : TrimsEntries entries entries' →
      Trims (.object entries) (.object entries')

inductive TrimsItems : List Json → List Json → Prop where
  | nil : TrimsItems [] []
  | cons {j j' : Json} {items items' : List Json} : Trims j j' → TrimsItems items items' →
      TrimsItems (j :: items) (j' :: items')

inductive TrimsEntries : List (String × Json) → List (String × Json) → Prop where
  | nil : TrimsEntries [] []
  | keep {key : String} {j j' : Json} {entries entries' : List (String × Json)} : Trims j j' →
      TrimsEntries entries entries' → TrimsEntries ((key, j) :: entries) ((key, j') :: entries')
  | drop {key : String} {j : Json} {entries entries' : List (String × Json)} :
      omittable key = true → j.isZero getInt = true → TrimsEntries entries entries' →
        TrimsEntries ((key, j) :: entries) entries'

end

theorem key_mem_of_trimsEntries {entries entries' : List (String × Json)}
    (h : TrimsEntries omittable getInt entries entries') {key : String}
    (hkey : omittable key = false) (hmem : key ∈ entries.map Prod.fst) :
    key ∈ entries'.map Prod.fst := by
  induction entries generalizing entries' with
  | nil => cases hmem
  | cons entry entries ih =>
    cases h with
    | keep _ hrest =>
      rcases List.mem_cons.mp hmem with rfl | hmem
      · exact List.mem_cons_self
      · exact List.mem_cons_of_mem _ (ih hrest hmem)
    | drop homit _ hrest =>
      rcases List.mem_cons.mp hmem with rfl | hmem
      · rw [homit] at hkey
        cases hkey
      · exact ih hrest hmem

theorem keys_of_trimsEntries {entries entries' : List (String × Json)}
    (h : TrimsEntries omittable getInt entries entries') :
    (entries'.map Prod.fst).Sublist (entries.map Prod.fst) := by
  induction entries generalizing entries' with
  | nil =>
    cases h
    exact List.Sublist.refl _
  | cons entry entries ih =>
    cases h with
    | keep _ hrest => exact (ih hrest).cons_cons _
    | drop _ _ hrest => exact (ih hrest).cons _

theorem trims_leaf {j j' : Json} (hleaf : j.isLeaf = true) (h : Trims omittable getInt j j') :
    j' = j := by
  cases h with
  | refl => rfl
  | array _ => cases hleaf
  | object _ => cases hleaf

theorem trims_unset {f : ProtoField M} {j j' : Json} (hunset : f.unset = some j)
    (h : Trims omittable getInt j j') : j' = j := by
  rw [ProtoField.unset] at hunset
  split at hunset
  · cases hunset
  · split at hunset <;> cases hunset
    · exact trims_leaf (ScalarType.isLeaf_encode _ _) h
    · cases h
      rfl
    · cases h with
      | refl => rfl
      | array hitems =>
        cases hitems
        rfl
    · cases h with
      | refl => rfl
      | object hentries =>
        cases hentries
        rfl

/-- A populated field under an omittable name is not a zero. -/
theorem not_isZero_of_set (hreads : ReadsInts getInt) (hsound : Sound schema omittable) {m : M}
    {f : ProtoField M} (hf : f ∈ schema m) (homit : omittable f.name = true) {x : Data}
    (hset : f.isUnset x = false) {j : Json} (h : Encodes schema omittable f.type x j) :
    j.isZero getInt = false := by
  obtain ⟨honeof, hcount⟩ := hsound.counts m f hf homit
  generalize f.type = t at hcount h
  cases h with
  | @scalar t s hhas =>
    have hdefault : s.isDefault = false := by simpa [ProtoField.isUnset, honeof] using hset
    cases t <;> cases s <;> simp only [ScalarType.Has] at hhas <;> cases hcount
    case scalar.int32.int.refl i =>
      have hi : i ≠ 0 := by simpa [Scalar.isDefault] using hdefault
      simp only [ScalarType.encode, Json.isZero, hreads i (by omega) (by omega), hi, decide_false]
    case scalar.uint32.int.refl i =>
      have hi : i ≠ 0 := by simpa [Scalar.isDefault] using hdefault
      simp only [ScalarType.encode, Json.isZero, hreads i (by omega) (by omega), hi, decide_false]
    case scalar.bool.bool.refl b => exact hdefault
  | message _ _ _ => cases hcount
  | list _ => cases hcount
  | map _ _ => cases hcount

theorem not_isZero_of_not_numeric {e : ProtoType M} (he : e.isNumeric = false) {x : Data}
    {j : Json} (h : Encodes schema omittable e x j) : j.isZero getInt = false := by
  cases h with
  | @scalar t s hhas =>
    cases t <;> cases he <;> cases s <;> first | exact hhas.elim | rfl
  | message _ _ _ => rfl
  | list _ => rfl
  | map _ _ => rfl

mutual

/-- A tree without some of its zeros stands for the same value. -/
theorem Encodes.trims (hreads : ReadsInts getInt) (hsound : Sound schema omittable) :
    {t : ProtoType M} → {x : Data} → {j j' : Json} → Encodes schema omittable t x j → t.Sound →
    Trims omittable getInt j j' → Encodes schema omittable t x j'
  | _, _, _, _, .scalar hhas, _, htrims => by
    rw [trims_leaf (ScalarType.isLeaf_encode _ _) htrims]
    exact .scalar hhas
  | _, _, _, _, .message hfields hnodup hlasting, _, htrims => by
    cases htrims with
    | refl => exact .message hfields hnodup hlasting
    | object htrims =>
      refine .message (hfields.trims hreads hsound htrims)
        (hnodup.sublist (keys_of_trimsEntries htrims)) ?_
      intro f hf hlast
      have homit : omittable f.name = false := by
        simpa using (Bool.and_eq_true_iff.mp hlast).2
      exact key_mem_of_trimsEntries htrims homit (hlasting f hf hlast)
  | _, _, _, _, .list hitems, ht, htrims => by
    cases htrims with
    | refl => exact .list hitems
    | array htrims => exact .list (hitems.trims hreads hsound ht htrims)
  | _, _, _, _, .map hentries hnodup, ht, htrims => by
    cases htrims with
    | refl => exact .map hentries hnodup
    | object htrims =>
      exact .map (hentries.trims hreads hsound ht.1 ht.2 htrims)
        (hnodup.sublist (keys_of_trimsEntries htrims))

theorem EncodesFields.trims (hreads : ReadsInts getInt) (hsound : Sound schema omittable) :
    {m : M} → {fields : List (String × Data)} → {entries entries' : List (String × Json)} →
    EncodesFields schema omittable m fields entries →
    TrimsEntries omittable getInt entries entries' →
    EncodesFields schema omittable m fields entries'
  | _, _, _, _, .nil, .nil => .nil
  | _, _, _, _, .unset hf hunset hrest, .keep hj htrims => by
    rw [trims_unset hunset hj]
    exact .unset hf hunset (hrest.trims hreads hsound htrims)
  | _, _, _, _, .unset _ _ hrest, .drop _ _ htrims => hrest.trims hreads hsound htrims
  | m, _, _, _, .set hf hset hx hrest, .keep hj htrims =>
    .set hf hset (hx.trims hreads hsound (hsound.types m _ hf) hj)
      (hrest.trims hreads hsound htrims)
  | _, _, _, _, .set hf hset hx _, .drop homit hzero _ => by
    rw [not_isZero_of_set hreads hsound hf homit hset hx] at hzero
    cases hzero

theorem EncodesItems.trims (hreads : ReadsInts getInt) (hsound : Sound schema omittable) :
    {e : ProtoType M} → {items : List Data} → {js js' : List Json} →
    EncodesItems schema omittable e items js → e.Sound → TrimsItems omittable getInt js js' →
    EncodesItems schema omittable e items js'
  | _, _, _, _, .nil, _, .nil => .nil
  | _, _, _, _, .cons hx hrest, he, .cons hj htrims =>
    .cons (hx.trims hreads hsound he hj) (hrest.trims hreads hsound he htrims)

theorem EncodesEntries.trims (hreads : ReadsInts getInt) (hsound : Sound schema omittable) :
    {e : ProtoType M} → {entries : List (String × Data)} → {js js' : List (String × Json)} →
    EncodesEntries schema omittable e entries js → e.isNumeric = false → e.Sound →
    TrimsEntries omittable getInt js js' → EncodesEntries schema omittable e entries js'
  | _, _, _, _, .nil, _, _, .nil => .nil
  | _, _, _, _, .cons hx hrest, hnumeric, he, .keep hj htrims =>
    .cons (hx.trims hreads hsound he hj) (hrest.trims hreads hsound hnumeric he htrims)
  | _, _, _, _, .cons hx _, hnumeric, _, .drop _ hzero _ => by
    rw [not_isZero_of_not_numeric hnumeric hx] at hzero
    cases hzero

end

end

end Catena.Framework
