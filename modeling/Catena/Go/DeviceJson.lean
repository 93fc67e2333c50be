import Catena.Framework.ProtoCodec
import Catena.Go.Protos

/-!
# The JSON of a device

`MarshalDeviceJSON` has `protojson` write every field of a device and then cleans the JSON in three
passes over the tree that `fastjson` parses. The passes go by the names of the entries and by the
emptiness of their values. They do not know whether a value stands for an unset field, a member of
a oneof, an entry of a map or an element of a list. What the two libraries do is a parameter.
-/

namespace Catena.Go

open Catena.Framework

/-- What is used of `protojson` and `fastjson`: `deviceMarshalOpts.Marshal`, `Unmarshal` into a
device, and `Value.GetInt` of a number. A text is not told apart from the tree that it is parsed
to. -/
structure JsonLibraries where
  marshal : Data → Except String Json
  unmarshal : Json → Except String Data
  getInt : Number → Int

/-- The fields that the SMPTE schema forbids at their default of 0. -/
def zeroFields : List String :=
  ["precision", "max_length", "total_length"]

mutual

def deleteZeroFields (getInt : Number → Int) : Json → Json
  | .object entries => .object (deleteZeroEntries getInt entries)
  | j => j

def deleteZeroEntries (getInt : Number → Int) :
    List (String × Json) → List (String × Json)
  | [] => []
  | (key, .number n) :: rest =>
      if key ∈ zeroFields ∧ getInt n = 0 then deleteZeroEntries getInt rest
      else (key, .number n) :: deleteZeroEntries getInt rest
  | (key, .array items) :: rest =>
      (key, .array (deleteZeroItems getInt items)) :: deleteZeroEntries getInt rest
  | (key, j) :: rest => (key, deleteZeroFields getInt j) :: deleteZeroEntries getInt rest

def deleteZeroItems (getInt : Number → Int) : List Json → List Json
  | [] => []
  | j :: rest => deleteZeroFields getInt j :: deleteZeroItems getInt rest

end

mutual

def deleteResponseFalse : Json → Json
  | .object entries => .object (deleteResponseEntries entries)
  | j => j

def deleteResponseEntries : List (String × Json) → List (String × Json)
  | [] => []
  | (key, .bool b) :: rest =>
      if key = "response" ∧ b = false then deleteResponseEntries rest
      else (key, .bool b) :: deleteResponseEntries rest
  | (key, j) :: rest => (key, deleteResponseFalse j) :: deleteResponseEntries rest

end

def deleteResponseFromParams : Json → Json
  | .object entries =>
      .object (entries.map fun e => if e.1 = "params" then (e.1, deleteResponseFalse e.2) else e)
  | j => j

/-- `shouldDeleteValue`, of a value that is cleaned. -/
def shouldDeleteValue : Json → Bool
  | .null => true
  | .string s => s = ""
  | .array items => items.isEmpty
  | .object entries => entries.isEmpty
  | _ => false

mutual

/-- An entry is removed when its cleaned value is empty, and an array element is only cleaned. -/
def deleteEmptyValues : Json → Json
  | .object entries => .object (deleteEmptyEntries entries)
  | .array items => .array (deleteEmptyItems items)
  | j => j

def deleteEmptyEntries : List (String × Json) → List (String × Json)
  | [] => []
  | (key, j) :: rest =>
      if shouldDeleteValue (deleteEmptyValues j) then deleteEmptyEntries rest
      else (key, deleteEmptyValues j) :: deleteEmptyEntries rest

def deleteEmptyItems : List Json → List Json
  | [] => []
  | j :: rest => deleteEmptyValues j :: deleteEmptyItems rest

end

/-- A device message: a value of the type, so that every field is known and populated. -/
structure Device where
  data : Data
  hasType : HasType Protos.schema (.message .device) data

namespace JsonLibraries

variable (libs : JsonLibraries)

def cleanDeviceJSON (j : Json) : Json :=
  deleteEmptyValues (deleteResponseFromParams (deleteZeroFields libs.getInt j))

/-- `MarshalDeviceJSON`. There is no JSON for a nil pointer. -/
def marshalDeviceJSON : Option Device → Except String (Option Json)
  | none => .ok none
  | some device => do
      let j ← libs.marshal device.data
      return some (libs.cleanDeviceJSON j)

/-- A device is written with an entry for every field outside a oneof and for those members of
oneofs that are set. -/
def Marshals : Prop :=
  ∀ x, HasType Protos.schema (.message .device) x →
    ∃ j, libs.marshal x = .ok j ∧
      Encodes Protos.schema (fun _ => false) (.message .device) x j

/-- A device is read from what stands for it, whatever entries of unpopulated fields are left
out. -/
def Unmarshals : Prop :=
  ∀ x j, HasType Protos.schema (.message .device) x →
    Encodes Protos.schema (fun _ => true) (.message .device) x j → libs.unmarshal j = .ok x

def RoundTrips (device : Device) : Prop :=
  ∃ j, libs.marshalDeviceJSON (some device) = .ok (some j) ∧ libs.unmarshal j = .ok device.data

end JsonLibraries

/-- The names under which the first two passes remove zeros. -/
def omittedAtZero (name : String) : Bool :=
  name ∈ zeroFields || name = "response"

theorem schema_sound : Sound Protos.schema omittedAtZero where
  names := by
    intro m
    cases m <;> decide
  types := by
    intro m
    cases m <;> decide
  counts := by
    intro m
    cases m <;> decide
  solid := by
    intro m
    cases m <;> decide

section

variable {getInt : Number → Int}

mutual

theorem trims_deleteZeroFields : (j : Json) →
    Trims omittedAtZero getInt j (deleteZeroFields getInt j)
  | .object entries => by
    rw [deleteZeroFields]
    exact .object (trimsEntries_deleteZeroEntries entries)
  | .null => .refl _
  | .bool _ => .refl _
  | .number _ => .refl _
  | .string _ => .refl _
  | .array _ => .refl _

theorem trimsEntries_deleteZeroEntries : (entries : List (String × Json)) →
    TrimsEntries omittedAtZero getInt entries (deleteZeroEntries getInt entries)
  | [] => .nil
  | (key, .number n) :: rest => by
    rw [deleteZeroEntries]
    split
    · rename_i hzero
      have homit : omittedAtZero key = true := by simp [omittedAtZero, hzero.1]
      exact .drop homit (decide_eq_true hzero.2) (trimsEntries_deleteZeroEntries rest)
    · exact .keep (.refl _) (trimsEntries_deleteZeroEntries rest)
  | (_, .array items) :: rest =>
    .keep (.array (trimsItems_deleteZeroItems items)) (trimsEntries_deleteZeroEntries rest)
  | (_, .object entries) :: rest =>
    .keep (trims_deleteZeroFields (.object entries)) (trimsEntries_deleteZeroEntries rest)
  | (_, .null) :: rest => .keep (.refl _) (trimsEntries_deleteZeroEntries rest)
  | (_, .bool _) :: rest => .keep (.refl _) (trimsEntries_deleteZeroEntries rest)
  | (_, .string _) :: rest => .keep (.refl _) (trimsEntries_deleteZeroEntries rest)

theorem trimsItems_deleteZeroItems : (items : List Json) →
    TrimsItems omittedAtZero getInt items (deleteZeroItems getInt items)
  | [] => .nil
  | j :: rest => .cons (trims_deleteZeroFields j) (trimsItems_deleteZeroItems rest)

end

mutual

theorem trims_deleteResponseFalse : (j : Json) →
    Trims omittedAtZero getInt j (deleteResponseFalse j)
  | .object entries => by
    rw [deleteResponseFalse]
    exact .object (trimsEntries_deleteResponseEntries entries)
  | .null => .refl _
  | .bool _ => .refl _
  | .number _ => .refl _
  | .string _ => .refl _
  | .array _ => .refl _

theorem trimsEntries_deleteResponseEntries : (entries : List (String × Json)) →
    TrimsEntries omittedAtZero getInt entries (deleteResponseEntries entries)
  | [] => .nil
  | (key, .bool b) :: rest => by
    rw [deleteResponseEntries]
    split
    · rename_i hfalse
      obtain ⟨rfl, rfl⟩ := hfalse
      exact .drop rfl rfl (trimsEntries_deleteResponseEntries rest)
    · exact .keep (.refl _) (trimsEntries_deleteResponseEntries rest)
  | (_, .object entries) :: rest =>
    .keep (trims_deleteResponseFalse (.object entries)) (trimsEntries_deleteResponseEntries rest)
  | (_, .null) :: rest => .keep (.refl _) (trimsEntries_deleteResponseEntries rest)
  | (_, .number _) :: rest => .keep (.refl _) (trimsEntries_deleteResponseEntries rest)
  | (_, .string _) :: rest => .keep (.refl _) (trimsEntries_deleteResponseEntries rest)
  | (_, .array _) :: rest => .keep (.refl _) (trimsEntries_deleteResponseEntries rest)

end

theorem trims_deleteResponseFromParams (j : Json) :
    Trims omittedAtZero getInt j (deleteResponseFromParams j) := by
  cases j with
  | object entries =>
    rw [deleteResponseFromParams]
    apply Trims.object
    induction entries with
    | nil => exact .nil
    | cons e rest ih =>
      rw [List.map_cons]
      split
      · exact .keep (trims_deleteResponseFalse e.2) ih
      · exact .keep (.refl _) ih
  | _ => exact .refl _

end

section

variable {M : Type} (schema : M → List (ProtoField M))

mutual

/-- The value has no content of its own: an empty text or list, a map without other entries, or
a message without other fields and without a number, boolean or enumeration outside a oneof. -/
def blank : ProtoType M → Data → Bool
  | .scalar _, .scalar s => s = .string ""
  | .message m, .message fields => !(schema m).any ProtoField.isSolid && blankFields m fields
  | .list _, .list items => items.isEmpty
  | .map e, .map entries => blankEntries e entries
  | _, _ => false

def blankFields (m : M) : List (String × Data) → Bool
  | [] => true
  | (name, x) :: rest =>
      (match fieldOf schema m name with
      | some f => blank f.type x
      | none => true) && blankFields m rest

def blankEntries (e : ProtoType M) : List (String × Data) → Bool
  | [] => true
  | (_, x) :: rest => blank e x && blankEntries e rest

end

mutual

/-- No populated field and no entry of a map is blank, at any depth. -/
def kept : ProtoType M → Data → Bool
  | .message m, .message fields => keptFields m fields
  | .list e, .list items => keptItems e items
  | .map e, .map entries => keptEntries e entries
  | _, _ => true

def keptFields (m : M) : List (String × Data) → Bool
  | [] => true
  | (name, x) :: rest =>
      (match fieldOf schema m name with
      | some f => !blank schema f.type x && kept f.type x
      | none => true) && keptFields m rest

def keptItems (e : ProtoType M) : List Data → Bool
  | [] => true
  | x :: rest => kept e x && keptItems e rest

def keptEntries (e : ProtoType M) : List (String × Data) → Bool
  | [] => true
  | (_, x) :: rest => !blank schema e x && kept e x && keptEntries e rest

end

theorem deleteEmptyValues_leaf {j : Json} (hleaf : j.isLeaf = true) : deleteEmptyValues j = j := by
  cases j with
  | array _ => cases hleaf
  | object _ => cases hleaf
  | _ => rfl

theorem shouldDeleteValue_encode {t : ScalarType} (ht : t.WellFormed) {s : Scalar} (h : t.Has s) :
    shouldDeleteValue (t.encode s) = decide (s = .string "") := by
  cases t <;> cases s <;> simp only [ScalarType.Has] at h <;> try exact h.elim
  case int32.int => rfl
  case uint32.int => rfl
  case float.float bits =>
    rw [ScalarType.encode, floatJson]
    split_ifs <;> rfl
  case bool.bool => rfl
  case string.string s => simp [ScalarType.encode, shouldDeleteValue]
  case bytes.string s => simp [ScalarType.encode, shouldDeleteValue]
  case enum.enum names number =>
    rw [ScalarType.encode]
    split
    · rename_i e hfind
      have hname : e.2 ≠ "" := by
        intro heq
        apply ht.2
        rw [← heq]
        exact List.mem_map_of_mem (List.mem_of_find?_eq_some hfind)
      simp [shouldDeleteValue, hname]
    · simp [shouldDeleteValue]

theorem shouldDeleteValue_unset {f : ProtoField M} (hf : f.type.Sound) {j : Json}
    (hunset : f.unset = some j) : shouldDeleteValue (deleteEmptyValues j) = !f.isSolid := by
  obtain ⟨name, type, oneof⟩ := f
  cases oneof with
  | some _ => cases hunset
  | none =>
    cases type with
    | scalar t =>
      cases hunset
      rw [deleteEmptyValues_leaf (ScalarType.isLeaf_encode _ _),
        shouldDeleteValue_encode hf t.has_default]
      cases t <;> rfl
    | message m =>
      cases hunset
      rfl
    | list e =>
      cases hunset
      rfl
    | map e =>
      cases hunset
      rfl

variable {schema} {omittable : String → Bool}

theorem shouldDeleteValue_numeric {t : ProtoType M} (ht : t.Sound) (hnumeric : t.isNumeric = true)
    {x : Data} {j : Json} (h : Encodes schema omittable t x j) :
    shouldDeleteValue (deleteEmptyValues j) = false := by
  cases h with
  | @scalar t s hhas =>
    rw [deleteEmptyValues_leaf (ScalarType.isLeaf_encode _ _), shouldDeleteValue_encode ht hhas]
    cases t <;> cases hnumeric <;> cases s <;> first | exact hhas.elim | rfl
  | message _ _ _ => cases hnumeric
  | list _ => cases hnumeric
  | map _ _ => cases hnumeric

theorem deleteEmptyEntries_cons_of_not {key : String} {j : Json} {rest : List (String × Json)}
    (h : shouldDeleteValue (deleteEmptyValues j) = false) :
    deleteEmptyEntries ((key, j) :: rest) =
      (key, deleteEmptyValues j) :: deleteEmptyEntries rest := by
  rw [deleteEmptyEntries, h]
  rfl

theorem deleteEmptyEntries_cons_of_delete {key : String} {j : Json} {rest : List (String × Json)}
    (h : shouldDeleteValue (deleteEmptyValues j) = true) :
    deleteEmptyEntries ((key, j) :: rest) = deleteEmptyEntries rest := by
  rw [deleteEmptyEntries, h]
  rfl

/-- The entry of a solid field stays. -/
theorem deleteEmptyEntries_solid (hsound : Sound schema omittable) {m : M} {g : ProtoField M}
    (hg : g ∈ schema m) (hsolid : g.isSolid = true) {fields : List (String × Data)}
    {entries : List (String × Json)} (h : EncodesFields schema omittable m fields entries)
    (hmem : g.name ∈ entries.map Prod.fst) : (deleteEmptyEntries entries).isEmpty = false := by
  -- A field with the name is the solid one.
  have hsame {f : ProtoField M} (hf : f ∈ schema m) (hname : g.name = f.name) : f = g :=
    List.inj_on_of_nodup_map (hsound.names m) hf hg hname.symm
  have hcons (key : String) (j : Json) (rest : List (String × Json))
      (htail : shouldDeleteValue (deleteEmptyValues j) = true →
        (deleteEmptyEntries rest).isEmpty = false) :
      (deleteEmptyEntries ((key, j) :: rest)).isEmpty = false := by
    cases hdelete : shouldDeleteValue (deleteEmptyValues j) with
    | true =>
      rw [deleteEmptyEntries_cons_of_delete hdelete]
      exact htail hdelete
    | false =>
      rw [deleteEmptyEntries_cons_of_not hdelete]
      rfl
  induction entries generalizing fields with
  | nil => cases hmem
  | cons entry rest ih =>
    cases h with
    | @unset _ f j _ _ hf hunset hrest =>
      apply hcons
      intro hdelete
      rcases List.mem_cons.mp hmem with hname | hmem
      · rw [shouldDeleteValue_unset (hsound.types m f hf) hunset, hsame hf hname, hsolid] at hdelete
        cases hdelete
      · exact ih hrest hmem
    | @set _ f x j _ _ hf _ hx hrest =>
      apply hcons
      intro hdelete
      rcases List.mem_cons.mp hmem with hname | hmem
      · have hnumeric : f.type.isNumeric = true := by
          rw [hsame hf hname]
          exact (Bool.and_eq_true_iff.mp hsolid).2
        rw [shouldDeleteValue_numeric (hsound.types m f hf) hnumeric hx] at hdelete
        cases hdelete
      · exact ih hrest hmem

mutual

/-- An entry is removed exactly when the value is blank. -/
theorem shouldDeleteValue_eq_blank (hsound : Sound schema omittable) : {t : ProtoType M} →
    {x : Data} → {j : Json} → Encodes schema omittable t x j → t.Sound →
    shouldDeleteValue (deleteEmptyValues j) = blank schema t x
  | _, _, _, .scalar hhas, ht => by
    rw [deleteEmptyValues_leaf (ScalarType.isLeaf_encode _ _), shouldDeleteValue_encode ht hhas,
      blank]
  | .message m, _, .object entries, .message hfields _ hlasting, _ => by
    rw [deleteEmptyValues, shouldDeleteValue, blank]
    cases hany : (schema m).any ProtoField.isSolid with
    | false =>
      rw [isEmpty_eq_blankFields hsound hfields hany]
      rfl
    | true =>
      obtain ⟨f, hf, hsolid⟩ := List.any_eq_true.mp hany
      obtain ⟨g, hg, hsolid', homit⟩ := hsound.solid m f hf hsolid
      have hlast : g.lasting omittable = true := by
        simp [ProtoField.lasting, ProtoField.isSome_unset hsolid', homit]
      exact deleteEmptyEntries_solid hsound hg hsolid' hfields (hlasting g hg hlast)
  | _, _, _, .list hitems, _ => by
    rw [deleteEmptyValues, shouldDeleteValue, blank]
    cases hitems with
    | nil => rfl
    | cons _ _ => rfl
  | _, _, _, .map hentries _, ht => by
    rw [deleteEmptyValues, shouldDeleteValue, blank]
    exact isEmpty_eq_blankEntries hsound hentries ht.2

theorem isEmpty_eq_blankFields (hsound : Sound schema omittable) : {m : M} →
    {fields : List (String × Data)} → {entries : List (String × Json)} →
    EncodesFields schema omittable m fields entries → (schema m).any ProtoField.isSolid = false →
    (deleteEmptyEntries entries).isEmpty = blankFields schema m fields
  | _, _, _, .nil, _ => rfl
  | m, _, _, .unset (f := f) hf hunset hrest, hany => by
    have hsolid : f.isSolid = false := by simpa using List.any_eq_false.mp hany f hf
    have hdelete := shouldDeleteValue_unset (hsound.types m f hf) hunset
    rw [hsolid] at hdelete
    rw [deleteEmptyEntries_cons_of_delete hdelete]
    exact isEmpty_eq_blankFields hsound hrest hany
  | m, _, _, .set (f := f) (x := x) hf _ hx hrest, hany => by
    have hdelete := shouldDeleteValue_eq_blank hsound hx (hsound.types m f hf)
    have hfieldOf := hsound.fieldOf_name hf
    rw [blankFields, hfieldOf]
    cases hblank : blank schema f.type x with
    | true =>
      rw [deleteEmptyEntries_cons_of_delete (hdelete.trans hblank)]
      simpa [hblank] using isEmpty_eq_blankFields hsound hrest hany
    | false =>
      rw [deleteEmptyEntries_cons_of_not (hdelete.trans hblank)]
      simp [hblank]

theorem isEmpty_eq_blankEntries (hsound : Sound schema omittable) : {e : ProtoType M} →
    {entries : List (String × Data)} → {js : List (String × Json)} →
    EncodesEntries schema omittable e entries js → e.Sound →
    (deleteEmptyEntries js).isEmpty = blankEntries schema e entries
  | _, _, _, .nil, _ => rfl
  | e, _, _, .cons (x := x) hx hrest, he => by
    have hdelete := shouldDeleteValue_eq_blank hsound hx he
    rw [blankEntries]
    cases hblank : blank schema e x with
    | true =>
      rw [deleteEmptyEntries_cons_of_delete (hdelete.trans hblank)]
      simpa using isEmpty_eq_blankEntries hsound hrest he
    | false =>
      rw [deleteEmptyEntries_cons_of_not (hdelete.trans hblank)]
      rfl

end

theorem ne_cons_of_length_le {α : Type} {l rest : List α} {a : α}
    (hle : l.length ≤ rest.length) : l ≠ a :: rest := by
  intro h
  rw [h, List.length_cons] at hle
  omega

variable (schema) in
mutual

def prune : ProtoType M → Data → Data
  | .message m, .message fields => .message (pruneFields m fields)
  | .list e, .list items => .list (pruneItems e items)
  | .map e, .map entries => .map (pruneEntries e entries)
  | _, x => x

def pruneFields (m : M) : List (String × Data) → List (String × Data)
  | [] => []
  | (name, x) :: rest =>
      match fieldOf schema m name with
      | some f =>
          if blank schema f.type x then pruneFields m rest
          else (name, prune f.type x) :: pruneFields m rest
      | none => (name, x) :: pruneFields m rest

def pruneItems (e : ProtoType M) : List Data → List Data
  | [] => []
  | x :: rest => prune e x :: pruneItems e rest

def pruneEntries (e : ProtoType M) : List (String × Data) → List (String × Data)
  | [] => []
  | (key, x) :: rest =>
      if blank schema e x then pruneEntries e rest
      else (key, prune e x) :: pruneEntries e rest

end

theorem keys_pruneFields (m : M) (fields : List (String × Data)) :
    ((pruneFields schema m fields).map Prod.fst).Sublist (fields.map Prod.fst) := by
  induction fields with
  | nil => exact List.Sublist.refl _
  | cons field rest ih =>
    rw [pruneFields]
    split
    · split
      · exact ih.cons _
      · exact ih.cons_cons _
    · exact ih.cons_cons _

theorem keys_pruneEntries (e : ProtoType M) (entries : List (String × Data)) :
    ((pruneEntries schema e entries).map Prod.fst).Sublist (entries.map Prod.fst) := by
  induction entries with
  | nil => exact List.Sublist.refl _
  | cons entry rest ih =>
    rw [pruneEntries]
    split
    · exact ih.cons _
    · exact ih.cons_cons _

theorem keys_deleteEmptyEntries (entries : List (String × Json)) :
    ((deleteEmptyEntries entries).map Prod.fst).Sublist (entries.map Prod.fst) := by
  induction entries with
  | nil => exact List.Sublist.refl _
  | cons entry rest ih =>
    rw [deleteEmptyEntries]
    split
    · exact ih.cons _
    · exact ih.cons_cons _

theorem pruneEntries_ne_nil {e : ProtoType M} {entries : List (String × Data)}
    (h : blankEntries schema e entries = false) :
    (pruneEntries schema e entries).isEmpty = false := by
  induction entries with
  | nil => cases h
  | cons entry rest ih =>
    obtain ⟨key, x⟩ := entry
    rw [pruneEntries]
    rw [blankEntries, Bool.and_eq_false_iff] at h
    split
    · rename_i hblank
      rw [hblank] at h
      exact ih (h.resolve_left (fun h => nomatch h))
    · rfl

theorem isUnset_prune {f : ProtoField M} {x : Data} (hset : f.isUnset x = false)
    (hblank : blank schema f.type x = false) : f.isUnset (prune schema f.type x) = false := by
  obtain ⟨name, type, oneof⟩ := f
  cases type <;> cases x <;> try exact hset
  case list.list e items =>
    cases items with
    | nil => cases hset
    | cons x items => rfl
  case map.map e entries => exact pruneEntries_ne_nil hblank

mutual

theorem prune_eq_iff : (t : ProtoType M) → (x : Data) → HasType schema t x →
    (prune schema t x = x ↔ kept schema t x = true)
  | .scalar _, .scalar _, _ => by simp [prune, kept]
  | .message m, .message fields, h => by
    rw [prune, kept, Data.message.injEq]
    exact pruneFields_eq_iff m fields h.2.2
  | .list e, .list items, h => by
    rw [prune, kept, Data.list.injEq]
    exact pruneItems_eq_iff e items h
  | .map e, .map entries, h => by
    rw [prune, kept, Data.map.injEq]
    exact pruneEntries_eq_iff e entries h.2

theorem pruneFields_eq_iff (m : M) : (fields : List (String × Data)) →
    HasFields schema m fields →
    (pruneFields schema m fields = fields ↔ keptFields schema m fields = true)
  | [], _ => by simp [pruneFields, keptFields]
  | (name, x) :: rest, h => by
    rw [HasFields] at h
    rw [pruneFields, keptFields]
    have hrest := pruneFields_eq_iff m rest h.2
    cases hfield : fieldOf schema m name with
    | none =>
      rw [hfield] at h
      exact h.1.elim
    | some f =>
      rw [hfield] at h
      have hx := prune_eq_iff f.type x h.1.1
      cases hblank : blank schema f.type x with
      | true =>
        have hle := (@keys_pruneFields M schema m rest).length_le
        rw [List.length_map, List.length_map] at hle
        simp [hblank, ne_cons_of_length_le hle]
      | false => simp [hblank, hx, hrest]

theorem pruneItems_eq_iff (e : ProtoType M) : (items : List Data) → HasItems schema e items →
    (pruneItems schema e items = items ↔ keptItems schema e items = true)
  | [], _ => by simp [pruneItems, keptItems]
  | x :: rest, h => by
    rw [pruneItems, keptItems, List.cons.injEq, Bool.and_eq_true]
    exact and_congr (prune_eq_iff e x h.1) (pruneItems_eq_iff e rest h.2)

theorem pruneEntries_eq_iff (e : ProtoType M) : (entries : List (String × Data)) →
    HasEntries schema e entries →
    (pruneEntries schema e entries = entries ↔ keptEntries schema e entries = true)
  | [], _ => by simp [pruneEntries, keptEntries]
  | (key, x) :: rest, h => by
    rw [pruneEntries, keptEntries]
    have hx := prune_eq_iff e x h.1
    have hrest := pruneEntries_eq_iff e rest h.2
    cases hblank : blank schema e x with
    | true =>
      have hle := (@keys_pruneEntries M schema e rest).length_le
      rw [List.length_map, List.length_map] at hle
      simp [ne_cons_of_length_le hle]
    | false => simp [hx, hrest]

end

mutual

theorem hasType_prune : (t : ProtoType M) → (x : Data) → HasType schema t x →
    HasType schema t (prune schema t x)
  | .scalar _, .scalar _, h => h
  | .message m, .message fields, h => by
    have hkeys := @keys_pruneFields M schema m fields
    refine ⟨hkeys.trans h.1, ?_, hasFields_prune m fields h.2.2⟩
    have honeofs := h.2.1
    have hmap : ∀ fields : List (String × Data),
        (fields.filterMap fun e => (fieldOf schema m e.1).bind ProtoField.oneof) =
          (fields.map Prod.fst).filterMap fun name =>
            (fieldOf schema m name).bind ProtoField.oneof := by
      intro fields
      rw [List.filterMap_map]
      rfl
    rw [hmap] at honeofs ⊢
    exact honeofs.sublist (hkeys.filterMap _)
  | .list e, .list items, h => hasItems_prune e items h
  | .map e, .map entries, h =>
    ⟨h.1.sublist (keys_pruneEntries e entries), hasEntries_prune e entries h.2⟩

theorem hasFields_prune (m : M) : (fields : List (String × Data)) →
    HasFields schema m fields → HasFields schema m (pruneFields schema m fields)
  | [], _ => trivial
  | (name, x) :: rest, h => by
    rw [HasFields] at h
    rw [pruneFields]
    have hrest := hasFields_prune m rest h.2
    cases hfield : fieldOf schema m name with
    | none =>
      rw [hfield] at h
      exact h.1.elim
    | some f =>
      rw [hfield] at h
      have hx := hasType_prune f.type x h.1.1
      dsimp only
      split
      · exact hrest
      · rename_i hblank
        rw [HasFields, hfield]
        exact ⟨⟨hx, isUnset_prune h.1.2 (by simpa using hblank)⟩, hrest⟩

theorem hasItems_prune (e : ProtoType M) : (items : List Data) → HasItems schema e items →
    HasItems schema e (pruneItems schema e items)
  | [], _ => trivial
  | x :: rest, h => ⟨hasType_prune e x h.1, hasItems_prune e rest h.2⟩

theorem hasEntries_prune (e : ProtoType M) : (entries : List (String × Data)) →
    HasEntries schema e entries → HasEntries schema e (pruneEntries schema e entries)
  | [], _ => trivial
  | (key, x) :: rest, h => by
    rw [pruneEntries]
    split
    · exact hasEntries_prune e rest h.2
    · exact ⟨hasType_prune e x h.1, hasEntries_prune e rest h.2⟩

end

theorem deleteEmptyValues_unset {f : ProtoField M} {j : Json} (hunset : f.unset = some j)
    (hsolid : f.isSolid = true) : deleteEmptyValues j = j := by
  obtain ⟨name, type, oneof⟩ := f
  cases oneof with
  | some _ => cases hunset
  | none =>
    cases type with
    | scalar t =>
      cases hunset
      exact deleteEmptyValues_leaf (ScalarType.isLeaf_encode _ _)
    | message _ => cases hsolid
    | list _ => cases hsolid
    | map _ => cases hsolid

mutual

theorem encodes_prune (hsound : Sound schema omittable) : {t : ProtoType M} → {x : Data} →
    {j : Json} → Encodes schema omittable t x j → t.Sound →
    Encodes schema (fun _ => true) t (prune schema t x) (deleteEmptyValues j)
  | _, _, _, .scalar hhas, _ => by
    rw [deleteEmptyValues_leaf (ScalarType.isLeaf_encode _ _)]
    exact .scalar hhas
  | _, _, _, .message hfields hnodup _, _ => by
    rw [deleteEmptyValues]
    refine .message (encodesFields_prune hsound hfields)
      (hnodup.sublist (keys_deleteEmptyEntries _)) ?_
    intro f hf hlasting
    simp [ProtoField.lasting] at hlasting
  | _, _, _, .list hitems, ht => by
    rw [deleteEmptyValues]
    exact .list (encodesItems_prune hsound hitems ht)
  | _, _, _, .map hentries hnodup, ht => by
    rw [deleteEmptyValues]
    exact .map (encodesEntries_prune hsound hentries ht.2)
      (hnodup.sublist (keys_deleteEmptyEntries _))

theorem encodesFields_prune (hsound : Sound schema omittable) : {m : M} →
    {fields : List (String × Data)} → {entries : List (String × Json)} →
    EncodesFields schema omittable m fields entries →
    EncodesFields schema (fun _ => true) m (pruneFields schema m fields)
      (deleteEmptyEntries entries)
  | _, _, _, .nil => .nil
  | m, _, _, .unset (f := f) hf hunset hrest => by
    have hdelete := shouldDeleteValue_unset (hsound.types m f hf) hunset
    cases hsolid : f.isSolid with
    | true =>
      rw [hsolid] at hdelete
      rw [deleteEmptyEntries_cons_of_not hdelete, deleteEmptyValues_unset hunset hsolid]
      exact .unset hf hunset (encodesFields_prune hsound hrest)
    | false =>
      rw [hsolid] at hdelete
      rw [deleteEmptyEntries_cons_of_delete hdelete]
      exact encodesFields_prune hsound hrest
  | m, _, _, @EncodesFields.set _ _ _ _ f x _ fields _ hf hset hx hrest => by
    have hdelete := shouldDeleteValue_eq_blank hsound hx (hsound.types m f hf)
    simp only [pruneFields, hsound.fieldOf_name hf]
    cases hblank : blank schema f.type x with
    | true =>
      rw [deleteEmptyEntries_cons_of_delete (hdelete.trans hblank), if_pos rfl]
      exact encodesFields_prune hsound hrest
    | false =>
      rw [deleteEmptyEntries_cons_of_not (hdelete.trans hblank), if_neg Bool.false_ne_true]
      exact .set hf (isUnset_prune hset hblank) (encodes_prune hsound hx (hsound.types m f hf))
        (encodesFields_prune hsound hrest)

theorem encodesItems_prune (hsound : Sound schema omittable) : {e : ProtoType M} →
    {items : List Data} → {js : List Json} → EncodesItems schema omittable e items js → e.Sound →
    EncodesItems schema (fun _ => true) e (pruneItems schema e items) (deleteEmptyItems js)
  | _, _, _, .nil, _ => .nil
  | _, _, _, .cons hx hrest, he =>
    .cons (encodes_prune hsound hx he) (encodesItems_prune hsound hrest he)

theorem encodesEntries_prune (hsound : Sound schema omittable) : {e : ProtoType M} →
    {entries : List (String × Data)} → {js : List (String × Json)} →
    EncodesEntries schema omittable e entries js → e.Sound →
    EncodesEntries schema (fun _ => true) e (pruneEntries schema e entries)
      (deleteEmptyEntries js)
  | _, _, _, .nil, _ => .nil
  | e, _, _, @EncodesEntries.cons _ _ _ _ key x _ entries _ hx hrest, he => by
    have hdelete := shouldDeleteValue_eq_blank hsound hx he
    rw [pruneEntries]
    cases hblank : blank schema e x with
    | true =>
      rw [deleteEmptyEntries_cons_of_delete (hdelete.trans hblank), if_pos rfl]
      exact encodesEntries_prune hsound hrest he
    | false =>
      rw [deleteEmptyEntries_cons_of_not (hdelete.trans hblank), if_neg Bool.false_ne_true]
      exact .cons (encodes_prune hsound hx he) (encodesEntries_prune hsound hrest he)

end

end

/-- Whatever the libraries are, a device is read back from its JSON exactly when nothing that is
set in it is blank. -/
theorem deviceJson_roundTrip_iff_kept (libs : JsonLibraries) (hmarshals : libs.Marshals)
    (hunmarshals : libs.Unmarshals) (hreads : ReadsInts libs.getInt) (device : Device) :
    libs.RoundTrips device ↔ kept Protos.schema (.message .device) device.data = true := by
  obtain ⟨j, hj, hall⟩ := hmarshals device.data device.hasType
  have hmore : ∀ name : String, (fun _ : String => false) name = true →
      omittedAtZero name = true := fun _ h => absurd h Bool.false_ne_true
  have hencodes := hall.mono hmore
  have hzero := hencodes.trims hreads schema_sound trivial (trims_deleteZeroFields _)
  have hresponse := hzero.trims hreads schema_sound trivial (trims_deleteResponseFromParams _)
  have hread := hunmarshals _ _ (hasType_prune _ _ device.hasType)
    (encodes_prune schema_sound hresponse trivial)
  have hjson : libs.marshalDeviceJSON (some device) = .ok (some (libs.cleanDeviceJSON j)) := by
    rw [JsonLibraries.marshalDeviceJSON, hj]
    rfl
  rw [← prune_eq_iff _ _ device.hasType]
  constructor
  · rintro ⟨j', hj', hback⟩
    obtain rfl := Option.some.inj (Except.ok.inj (hjson.symm.trans hj'))
    exact Except.ok.inj (hread.symm.trans hback)
  · intro hkept
    refine ⟨_, hjson, ?_⟩
    rw [hkept] at hread
    exact hread

/-! ## Libraries that do so -/

/-- The absolute value of a whole float, and 0 for the others. -/
def wholePart (bits : UInt32) : Nat :=
  let exponent := bits.toNat / 2 ^ 23 % 256
  let significand := bits.toNat % 2 ^ 23 + 2 ^ 23
  if exponent = 0 then 0
  else if 150 ≤ exponent then significand * 2 ^ (exponent - 150)
  else if significand % 2 ^ (150 - exponent) = 0 then significand / 2 ^ (150 - exponent)
  else 0

/-- A number as an integer of 64 bits, and 0 for those that are none. -/
def readInt : Number → Int
  | .int i => if -2 ^ 63 ≤ i ∧ i < 2 ^ 63 then i else 0
  | .float bits =>
      if 2 ^ 63 < wholePart bits then 0
      else if bits.toNat < 2 ^ 31 then wholePart bits else -wholePart bits

theorem readsInts_readInt : ReadsInts readInt := fun _ hlow hhigh => if_pos ⟨hlow, hhigh⟩

def codec : JsonLibraries where
  marshal x := .ok (encode Protos.schema (.message .device) x)
  unmarshal j :=
    match decode Protos.schema (.message .device) j with
    | some x => .ok x
    | none => .error "not a device"
  getInt := readInt

theorem codec_marshals : codec.Marshals :=
  fun x h => ⟨_, rfl, encodes_encode Protos.schema _ schema_sound.names _ x h⟩

theorem codec_unmarshals : codec.Unmarshals := by
  intro x j _ h
  simp only [codec, h.decode schema_sound trivial]

def labelled (text : String) : Device where
  data := .message [("slot", .scalar (.int 1)), ("params", .map [("label", .message
    [("type", .scalar (.enum 7)),
     ("value", .message [("string_value", .scalar (.string text))])])])]
  hasType := by
    simp [HasType, HasFields, HasEntries, fieldOf, Protos.schema, Protos.plain, Protos.kind,
      ScalarType.Has, IsInt32, IsUInt32, ProtoField.isUnset, Scalar.isDefault]

theorem deviceJson_roundTrip_iff_kept_label : codec.RoundTrips (labelled "on") :=
  (deviceJson_roundTrip_iff_kept codec codec_marshals codec_unmarshals readsInts_readInt
    (labelled "on")).mpr rfl

/-- The parameter has a value, an empty text, and the one that is read back has none. -/
theorem emptyLabel_lost :
    (codec.Marshals ∧ codec.Unmarshals ∧ ReadsInts codec.getInt) ∧
    (∃ j, codec.marshalDeviceJSON (some (labelled "")) = .ok (some j) ∧
      codec.unmarshal j = .ok (.message [("slot", .scalar (.int 1)),
        ("params", .map [("label", .message [("type", .scalar (.enum 7))])])])) ∧
    ¬codec.RoundTrips (labelled "") := by
  refine ⟨⟨codec_marshals, codec_unmarshals, readsInts_readInt⟩, ⟨_, rfl, rfl⟩, ?_⟩
  rintro ⟨j, hj, hback⟩
  obtain rfl := Option.some.inj (Except.ok.inj hj)
  cases hback

end Catena.Go
