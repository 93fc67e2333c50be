import Catena.Framework.ProtoJson

/-!
# A codec for messages

One way to write the JSON of a message and to read it: what is written stands for the message,
and whatever stands for a message is read as it.
-/

namespace Catena.Framework

def Json.isNull : Json → Bool
  | .null => true
  | _ => false

namespace ScalarType

/-- The scalar that a value stands for. -/
def decode : ScalarType → Json → Option Scalar
  | .int32, .number (.int i) => if IsInt32 i then some (.int i) else none
  | .uint32, .number (.int i) => if IsUInt32 i then some (.int i) else none
  | .float, .number (.float bits) => some (.float bits)
  | .float, .string s =>
      if s = "NaN" then some (.float nanBits)
      else if s = "Infinity" then some (.float 0x7F800000)
      else if s = "-Infinity" then some (.float 0xFF800000)
      else none
  | .bool, .bool b => some (.bool b)
  | .string, .string s => some (.string s)
  | .bytes, .string s => some (.string s)
  | .enum names, .string s => (names.find? fun e => e.2 = s).map fun e => .enum e.1
  | .enum _, .number (.int number) => if IsInt32 number then some (.enum number) else none
  | _, _ => none

theorem decode_floatJson (bits : UInt32) :
    ScalarType.float.decode (floatJson bits) = some (.float bits) := by
  unfold floatJson
  split_ifs with hnan hpos hneg
  · rw [hnan]
    rfl
  · rw [hpos]
    rfl
  · rw [hneg]
    rfl
  · rfl

theorem decode_encode {t : ScalarType} (ht : t.WellFormed) {s : Scalar} (h : t.Has s) :
    t.decode (t.encode s) = some s := by
  cases t <;> cases s <;> simp only [Has] at h <;> try exact h.elim
  case int32.int => rw [encode, decode, if_pos h]
  case uint32.int => rw [encode, decode, if_pos h]
  case float.float bits => exact decode_floatJson bits
  case bool.bool => rfl
  case string.string => rfl
  case bytes.string => rfl
  case enum.enum names number =>
    rw [encode]
    cases hfind : names.find? fun e => e.1 = number with
    | none => exact if_pos h
    | some e =>
      have hnumber : e.1 = number := by simpa using List.find?_some hfind
      simp only [decode, find?_of_nodup_map ht.1 (List.mem_of_find?_eq_some hfind), Option.map_some,
        hnumber]

end ScalarType

section

variable {M : Type} (schema : M → List (ProtoField M))

/-- All the entries of a message, from those of its populated fields. -/
def emit : List (ProtoField M) → List (String × Json) → List (String × Json)
  | [], _ => []
  | f :: fields, [] => (f.unset.map fun j => (f.name, j)).toList ++ emit fields []
  | f :: fields, (name, j) :: rest =>
      if name = f.name then (name, j) :: emit fields rest
      else (f.unset.map fun j => (f.name, j)).toList ++ emit fields ((name, j) :: rest)

mutual

/-- The JSON of a value, with an entry for every unpopulated field outside a oneof. -/
def encode : ProtoType M → Data → Json
  | .scalar t, .scalar s => t.encode s
  | .message m, .message fields => .object (emit (schema m) (encodeFields m fields))
  | .list e, .list items => .array (encodeItems e items)
  | .map e, .map entries => .object (encodeEntries e entries)
  | _, _ => .null

def encodeFields (m : M) : List (String × Data) → List (String × Json)
  | [] => []
  | (name, x) :: rest =>
      match fieldOf schema m name with
      | some f => (name, encode f.type x) :: encodeFields m rest
      | none => encodeFields m rest

def encodeItems (e : ProtoType M) : List Data → List Json
  | [] => []
  | x :: rest => encode e x :: encodeItems e rest

def encodeEntries (e : ProtoType M) : List (String × Data) → List (String × Json)
  | [] => []
  | (key, x) :: rest => (key, encode e x) :: encodeEntries e rest

end

mutual

/-- The value that a JSON tree stands for. A null leaves its field unset, and an unknown field is
an error. -/
def decode : ProtoType M → Json → Option Data
  | .scalar t, j => (t.decode j).map .scalar
  | .message m, .object entries => (decodeFields m entries).map .message
  | .list e, .array items => (decodeItems e items).map .list
  | .map e, .object entries => (decodeEntries e entries).map .map
  | _, _ => none

def decodeFields (m : M) : List (String × Json) → Option (List (String × Data))
  | [] => some []
  | (name, j) :: rest =>
      match fieldOf schema m name with
      | none => none
      | some f =>
          if j.isNull then decodeFields m rest
          else
            match decode f.type j, decodeFields m rest with
            | some x, some fields => some (if f.isUnset x then fields else (name, x) :: fields)
            | _, _ => none

def decodeItems (e : ProtoType M) : List Json → Option (List Data)
  | [] => some []
  | j :: rest =>
      match decode e j, decodeItems e rest with
      | some x, some items => some (x :: items)
      | _, _ => none

def decodeEntries (e : ProtoType M) : List (String × Json) → Option (List (String × Data))
  | [] => some []
  | (key, j) :: rest =>
      match decode e j, decodeEntries e rest with
      | some x, some entries => some ((key, x) :: entries)
      | _, _ => none

end

variable (omittable : String → Bool)

def Populates (m : M) (field : String × Data) (entry : String × Json) : Prop :=
  ∃ f ∈ schema m, f.name = field.1 ∧ entry.1 = field.1 ∧ f.isUnset field.2 = false ∧
    Encodes schema omittable f.type field.2 entry.2

theorem encodesFields_unset {m : M} {f : ProtoField M} (hf : f ∈ schema m)
    {fields : List (String × Data)} {entries : List (String × Json)}
    (h : EncodesFields schema omittable m fields entries) :
    EncodesFields schema omittable m fields
      ((f.unset.map fun j => (f.name, j)).toList ++ entries) := by
  cases hunset : f.unset with
  | none => exact h
  | some j => exact .unset hf hunset h

/-- The populated fields come in the order of the schema, and those between them are unset. -/
theorem encodesFields_emit {m : M} (fs : List (ProtoField M)) (hfs : ∀ f ∈ fs, f ∈ schema m)
    {fields : List (String × Data)} {entries : List (String × Json)}
    (h : List.Forall₂ (Populates schema omittable m) fields entries)
    (horder : (fields.map Prod.fst).Sublist (fs.map ProtoField.name)) :
    EncodesFields schema omittable m fields (emit fs entries) := by
  induction fs generalizing fields entries with
  | nil =>
    have hnil : fields = [] := List.map_eq_nil_iff.mp (List.sublist_nil.mp horder)
    subst hnil
    exact .nil
  | cons f fs ih =>
    have hf := hfs f List.mem_cons_self
    have ih' := @ih fun g hg => hfs g (List.mem_cons_of_mem f hg)
    cases h with
    | nil => exact encodesFields_unset schema omittable hf (ih' .nil (List.nil_sublist _))
    | @cons field entry fields entries hfield hfields =>
      obtain ⟨name, x⟩ := field
      obtain ⟨name', j⟩ := entry
      obtain ⟨g, hg, hname, hname', hset, hencodes⟩ := hfield
      simp only at hname hname' hset hencodes
      subst hname' hname
      rw [emit]
      by_cases heq : g.name = f.name
      · rw [if_pos heq]
        have hrest : (fields.map Prod.fst).Sublist (fs.map ProtoField.name) := by
          simp only [List.map_cons, heq] at horder
          exact List.cons_sublist_cons.mp horder
        exact .set hg hset hencodes (ih' hfields hrest)
      · rw [if_neg heq]
        have hrest : ((g.name, x) :: fields).map Prod.fst |>.Sublist (fs.map ProtoField.name) :=
          List.Sublist.of_cons_of_ne (by simpa using heq) horder
        have hpopulates : Populates schema omittable m (g.name, x) (g.name, j) :=
          ⟨g, hg, rfl, rfl, hset, hencodes⟩
        exact encodesFields_unset schema omittable hf (ih' (.cons hpopulates hfields) hrest)

theorem name_mem_emit {fs : List (ProtoField M)} {f : ProtoField M} (hf : f ∈ fs)
    (hunset : f.unset.isSome = true) (entries : List (String × Json)) :
    f.name ∈ (emit fs entries).map Prod.fst := by
  induction fs generalizing entries with
  | nil => cases hf
  | cons g fs ih =>
    have hhead (rest : List (String × Json)) (heq : f = g) :
        f.name ∈ ((g.unset.map fun j => (g.name, j)).toList ++ rest).map Prod.fst := by
      obtain ⟨j, hj⟩ := Option.isSome_iff_exists.mp hunset
      simp [← heq, hj]
    have htail (rest : List (String × Json)) (hmem : f.name ∈ rest.map Prod.fst) :
        f.name ∈ ((g.unset.map fun j => (g.name, j)).toList ++ rest).map Prod.fst := by
      rw [List.map_append]
      exact List.mem_append_right _ hmem
    cases entries with
    | nil =>
      rcases List.mem_cons.mp hf with heq | hmem
      · exact hhead _ heq
      · exact htail _ (ih hmem [])
    | cons entry entries =>
      rw [emit]
      split
      · rename_i heq
        rcases List.mem_cons.mp hf with rfl | hmem
        · simp [heq]
        · exact List.mem_cons_of_mem _ (ih hmem entries)
      · rcases List.mem_cons.mp hf with heq | hmem
        · exact hhead _ heq
        · exact htail _ (ih hmem _)

theorem keys_emit (fs : List (ProtoField M)) (entries : List (String × Json))
    (h : (entries.map Prod.fst).Sublist (fs.map ProtoField.name)) :
    ((emit fs entries).map Prod.fst).Sublist (fs.map ProtoField.name) := by
  induction fs generalizing entries with
  | nil =>
    obtain rfl := List.map_eq_nil_iff.mp (List.sublist_nil.mp h)
    exact h
  | cons f fs ih =>
    have hunset : ∀ rest : List (String × Json),
        (rest.map Prod.fst).Sublist (fs.map ProtoField.name) →
        (((f.unset.map fun j => (f.name, j)).toList ++ rest).map Prod.fst).Sublist
          ((f :: fs).map ProtoField.name) := by
      intro rest hrest
      cases f.unset with
      | none => exact hrest.cons _
      | some j => exact hrest.cons_cons _
    cases entries with
    | nil => exact hunset _ (ih [] (List.nil_sublist _))
    | cons entry rest =>
      obtain ⟨name, j⟩ := entry
      rw [emit]
      by_cases heq : name = f.name
      · rw [if_pos heq]
        subst heq
        exact (ih rest (List.cons_sublist_cons.mp h)).cons_cons _
      · rw [if_neg heq]
        exact hunset _ (ih _ (List.Sublist.of_cons_of_ne (by simpa using heq) h))

theorem keys_of_populates {m : M} {fields : List (String × Data)}
    {entries : List (String × Json)}
    (h : List.Forall₂ (Populates schema omittable m) fields entries) :
    entries.map Prod.fst = fields.map Prod.fst := by
  induction h with
  | nil => rfl
  | cons hfirst _ ih =>
    obtain ⟨-, -, -, hname, -⟩ := hfirst
    rw [List.map_cons, List.map_cons, hname, ih]

theorem keys_encodeEntries (e : ProtoType M) (entries : List (String × Data)) :
    (encodeEntries schema e entries).map Prod.fst = entries.map Prod.fst := by
  induction entries with
  | nil => rfl
  | cons entry entries ih => exact congrArg _ ih

mutual

theorem encodes_encode (hnames : ∀ m, ((schema m).map ProtoField.name).Nodup) :
    (t : ProtoType M) → (x : Data) → HasType schema t x →
    Encodes schema omittable t x (encode schema t x)
  | .scalar _, .scalar _, h => .scalar h
  | .message m, .message fields, h => by
    have hpopulates := populates_encodeFields hnames m fields h.2.2
    refine .message ?_ ?_ ?_
    · exact encodesFields_emit schema omittable (schema m) (fun _ hf => hf) hpopulates h.1
    · apply (hnames m).sublist (keys_emit (schema m) _ _)
      rw [keys_of_populates schema omittable hpopulates]
      exact h.1
    · intro f hf hlasting
      have hunset := (Bool.and_eq_true_iff.mp hlasting).1
      exact name_mem_emit hf hunset _
  | .list e, .list items, h => .list (encodesItems_encodeItems hnames e items h)
  | .map e, .map entries, h => by
    refine .map (encodesEntries_encodeEntries hnames e entries h.2) ?_
    rw [keys_encodeEntries]
    exact h.1.imp fun hlt => String.ne_of_lt hlt

theorem populates_encodeFields (hnames : ∀ m, ((schema m).map ProtoField.name).Nodup) (m : M) :
    (fields : List (String × Data)) → HasFields schema m fields →
    List.Forall₂ (Populates schema omittable m) fields (encodeFields schema m fields)
  | [], _ => .nil
  | (name, x) :: rest, h => by
    rw [encodeFields]
    cases hfield : fieldOf schema m name with
    | none => 
      rw [HasFields, hfield] at h
      exact h.1.elim
    | some f =>
      rw [HasFields, hfield] at h
      obtain ⟨hf, hname⟩ := mem_of_fieldOf schema hfield
      refine .cons ⟨f, hf, hname, rfl, h.1.2, ?_⟩ (populates_encodeFields hnames m rest h.2)
      exact encodes_encode hnames f.type x h.1.1

theorem encodesItems_encodeItems (hnames : ∀ m, ((schema m).map ProtoField.name).Nodup)
    (e : ProtoType M) : (items : List Data) → HasItems schema e items →
    EncodesItems schema omittable e items (encodeItems schema e items)
  | [], _ => .nil
  | x :: rest, h =>
    .cons (encodes_encode hnames e x h.1) (encodesItems_encodeItems hnames e rest h.2)

theorem encodesEntries_encodeEntries (hnames : ∀ m, ((schema m).map ProtoField.name).Nodup)
    (e : ProtoType M) : (entries : List (String × Data)) →
    HasEntries schema e entries →
    EncodesEntries schema omittable e entries (encodeEntries schema e entries)
  | [], _ => .nil
  | (_, x) :: rest, h =>
    .cons (encodes_encode hnames e x h.1) (encodesEntries_encodeEntries hnames e rest h.2)

end

variable {schema omittable}

theorem isNull_of_decode {t : ProtoType M} {j : Json} {x : Data}
    (h : decode schema t j = some x) : j.isNull = false := by
  cases j with
  | null =>
    cases t with
    | scalar t => cases t <;> simp [decode, ScalarType.decode] at h
    | message m => simp [decode] at h
    | list e => simp [decode] at h
    | map e => simp [decode] at h
  | _ => rfl

theorem Sound.decodeFields_cons (hsound : Sound schema omittable) {m : M} {f : ProtoField M}
    (hf : f ∈ schema m) {j : Json} {x : Data} (hx : decode schema f.type j = some x)
    {rest : List (String × Json)} {fields : List (String × Data)}
    (hrest : decodeFields schema m rest = some fields) :
    decodeFields schema m ((f.name, j) :: rest) =
      some (if f.isUnset x then fields else (f.name, x) :: fields) := by
  simp [decodeFields, hsound.fieldOf_name hf, isNull_of_decode hx, hx, hrest]

/-- The entry of an unpopulated field says nothing. -/
theorem Sound.decodeFields_unset (hsound : Sound schema omittable) {m : M} {f : ProtoField M}
    (hf : f ∈ schema m) {j : Json} (hunset : f.unset = some j) {rest : List (String × Json)}
    {fields : List (String × Data)} (hrest : decodeFields schema m rest = some fields) :
    decodeFields schema m ((f.name, j) :: rest) = some fields := by
  have hdefault : ∀ x, decode schema f.type j = some x → f.isUnset x = true →
      decodeFields schema m ((f.name, j) :: rest) = some fields := by
    intro x hx hisUnset
    rw [hsound.decodeFields_cons hf hx hrest, if_pos hisUnset]
  have htype := hsound.types m f hf
  have hfieldOf := hsound.fieldOf_name hf
  obtain ⟨name, type, oneof⟩ := f
  cases oneof with
  | some _ => cases hunset
  | none =>
    cases type with
    | scalar t =>
      cases hunset
      apply hdefault (.scalar t.default) _ t.isDefault_default
      rw [decode, ScalarType.decode_encode htype t.has_default]
      rfl
    | message m' =>
      cases hunset
      rw [decodeFields, hfieldOf]
      exact hrest
    | list e =>
      cases hunset
      exact hdefault (.list []) rfl rfl
    | map e =>
      cases hunset
      exact hdefault (.map []) rfl rfl

variable {omittable' : String → Bool}

mutual

theorem Encodes.decode (hsound : Sound schema omittable) : {t : ProtoType M} → {x : Data} →
    {j : Json} → Encodes schema omittable' t x j → t.Sound → decode schema t j = some x
  | _, _, _, .scalar hhas, ht => by
    rw [Framework.decode, ScalarType.decode_encode ht hhas]
    rfl
  | _, _, _, .message hfields _ _, _ => by
    rw [Framework.decode, hfields.decode hsound]
    rfl
  | _, _, _, .list hitems, ht => by
    rw [Framework.decode, hitems.decode hsound ht]
    rfl
  | _, _, _, .map hentries _, ht => by
    rw [Framework.decode, hentries.decode hsound ht.2]
    rfl

theorem EncodesFields.decode (hsound : Sound schema omittable) : {m : M} →
    {fields : List (String × Data)} → {entries : List (String × Json)} →
    EncodesFields schema omittable' m fields entries →
    decodeFields schema m entries = some fields
  | _, _, _, .nil => rfl
  | _, _, _, .unset hf hunset hrest =>
    hsound.decodeFields_unset hf hunset (hrest.decode hsound)
  | m, _, _, .set hf hset hx hrest => by
    rw [hsound.decodeFields_cons hf (hx.decode hsound (hsound.types m _ hf)) (hrest.decode hsound),
      if_neg (by rw [hset]; exact Bool.false_ne_true)]

theorem EncodesItems.decode (hsound : Sound schema omittable) : {e : ProtoType M} →
    {items : List Data} → {js : List Json} → EncodesItems schema omittable' e items js →
    e.Sound → decodeItems schema e js = some items
  | _, _, _, .nil, _ => rfl
  | _, _, _, .cons hx hrest, he => by
    rw [decodeItems, hx.decode hsound he, hrest.decode hsound he]

theorem EncodesEntries.decode (hsound : Sound schema omittable) : {e : ProtoType M} →
    {entries : List (String × Data)} → {js : List (String × Json)} →
    EncodesEntries schema omittable' e entries js → e.Sound →
    decodeEntries schema e js = some entries
  | _, _, _, .nil, _ => rfl
  | _, _, _, .cons hx hrest, he => by
    rw [decodeEntries, hx.decode hsound he, hrest.decode hsound he]

end

end

end Catena.Framework
