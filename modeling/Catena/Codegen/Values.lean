import Catena.Codegen.CppGen
import Catena.Framework.Map
import Catena.Framework.Throws

/-!
# Generated initial values

What an initializer should say about a value: the text of each string, each element, each field of
a struct in the order of the type, the alternative of a variant. The generator looks at the param
itself or at its template. It does not look at the template of that template, and it writes strings
as they are.
-/

namespace Catena.Codegen

open Catena.Framework

/-! ## String literals -/

def simpleEscapes : List (Char × Char) :=
  [('\'', '\''), ('"', '"'), ('?', '?'), ('\\', '\\'), ('a', '\x07'), ('b', '\x08'),
    ('f', '\x0c'), ('n', '\n'), ('r', '\r'), ('t', '\t'), ('v', '\x0b')]

def digitValue (c : Char) : Option Nat :=
  if c.isDigit then some (c.toNat - 48)
  else if 'a' ≤ c ∧ c ≤ 'f' then some (c.toNat - 87)
  else if 'A' ≤ c ∧ c ≤ 'F' then some (c.toNat - 55)
  else none

def digitsValue (base : Nat) (digits : List Char) : Option Nat :=
  digits.foldl (fun acc c => do
    let n ← acc
    let d ← digitValue c
    if d < base then some (n * base + d) else none) (some 0)

/-- What follows the backslash of an escape sequence, with the character that it denotes. -/
inductive EscapeSequence : List Char → Char → Prop
  | simple {c d : Char} (h : (c, d) ∈ simpleEscapes) : EscapeSequence [c] d
  | octal {digits : List Char} {n : Nat} (hlen : 1 ≤ digits.length ∧ digits.length ≤ 3)
      (h : digitsValue 8 digits = some n) : EscapeSequence digits (Char.ofNat n)
  | hexadecimal {digits : List Char} {n : Nat} (hlen : 1 ≤ digits.length)
      (h : digitsValue 16 digits = some n) : EscapeSequence ('x' :: digits) (Char.ofNat n)
  | universal {digits : List Char} {n : Nat} (hlen : digits.length = 4)
      (h : digitsValue 16 digits = some n) : EscapeSequence ('u' :: digits) (Char.ofNat n)
  | universalLong {digits : List Char} {n : Nat} (hlen : digits.length = 8)
      (h : digitsValue 16 digits = some n) : EscapeSequence ('U' :: digits) (Char.ofNat n)

/-- A character that stands for itself in a string literal. -/
def PlainChar (c : Char) : Prop := c ≠ '"' ∧ c ≠ '\\' ∧ c ≠ '\n' ∧ c ≠ '\r'

/-- The string that a literal with this text between the quotation marks denotes. An escape
sequence is as long as possible. -/
inductive LiteralDenotes : List Char → List Char → Prop
  | nil : LiteralDenotes [] []
  | plain {c : Char} {text s : List Char} (hc : PlainChar c) (h : LiteralDenotes text s) :
      LiteralDenotes (c :: text) (c :: s)
  | escape {seq text s : List Char} {c : Char} (hseq : EscapeSequence seq c)
      (hlongest : ∀ seq' c', EscapeSequence seq' c' → seq' <+: seq ++ text →
        seq'.length ≤ seq.length)
      (h : LiteralDenotes text s) : LiteralDenotes ('\\' :: (seq ++ text)) (c :: s)

theorem EscapeSequence.ne_nil {seq : List Char} {c : Char} (h : EscapeSequence seq c) :
    1 ≤ seq.length := by
  cases h with
  | simple _ => exact Nat.le_refl 1
  | octal hlen _ => exact hlen.1
  | hexadecimal _ _ => exact Nat.le_add_left 1 _
  | universal _ _ => exact Nat.le_add_left 1 _
  | universalLong _ _ => exact Nat.le_add_left 1 _

/-- A literal is at least as long as its string, and longer if it has an escape sequence. -/
theorem LiteralDenotes.length_le {text s : List Char} (h : LiteralDenotes text s) :
    s.length ≤ text.length := by
  induction h with
  | nil => exact Nat.le_refl 0
  | plain _ _ ih => exact Nat.succ_le_succ ih
  | escape hseq _ _ ih =>
    rw [List.length_cons, List.length_cons, List.length_append]
    omega

theorem LiteralDenotes.plain_of_length_le {text s : List Char} (h : LiteralDenotes text s)
    (hlen : text.length ≤ s.length) : ∀ c ∈ s, PlainChar c := by
  induction h with
  | nil => exact fun c hc => nomatch hc
  | plain hc _ ih =>
    intro d hd
    rcases List.mem_cons.mp hd with rfl | hd
    · exact hc
    · exact ih (Nat.le_of_succ_le_succ hlen) d hd
  | escape hseq _ h _ =>
    have hle := h.length_le
    have hpos := hseq.ne_nil
    rw [List.length_cons, List.length_cons, List.length_append] at hlen
    omega

theorem literalDenotes_self_iff {s : List Char} : LiteralDenotes s s ↔ ∀ c ∈ s, PlainChar c := by
  constructor
  · intro h
    exact h.plain_of_length_le (Nat.le_refl _)
  · intro h
    induction s with
    | nil => exact LiteralDenotes.nil
    | cons c s ih =>
      apply LiteralDenotes.plain (h c List.mem_cons_self)
      exact ih fun d hd => h d (List.mem_cons_of_mem _ hd)

/-! ## What an initializer should say -/

/-- The param that defines the type: the end of the chain of templates. -/
def Param.resolved : Param → Param
  | { oid, namespaceName, type, value, isCommand, constraint, template_param, subParams } =>
      match template_param with
      | none => { oid, namespaceName, type, value, isCommand, constraint, template_param, subParams }
      | some template => template.resolved

/-- The fields of a value, in the order of the type. -/
def Param.fieldsIn {α : Type} (param : Param) (fields : List (String × α)) : List String :=
  param.keys.filter fun name => (fields.lookup name).isSome

mutual

/-- The initializer says the value, for a param with this definition. -/
inductive Describes : Param → JsValue → Init → Prop
  | undefined {d : Param} : Describes d .undefined (.braces [])
  | empty_value {d : Param} : Describes d .empty_value (.braces [])
  | string_value {d : Param} {s text : String} (h : LiteralDenotes text.toList s.toList) :
      Describes d (.string_value s) (.braces [.literal text])
  | int32_value {d : Param} {n : Int} :
      Describes d (.int32_value n) (.braces [.number (toString n)])
  | float32_value {d : Param} {x : String} : Describes d (.float32_value x) (.braces [.number x])
  | string_array_values {d : Param} {strings texts : List String}
      (h : List.Forall₂ (fun s text => LiteralDenotes text.toList s.toList) strings texts) :
      Describes d (.string_array_values strings) (.braces (texts.map .literal))
  | int32_array_values {d : Param} {ints : List Int} :
      Describes d (.int32_array_values ints) (.braces (ints.map fun n => .number (toString n)))
  | float32_array_values {d : Param} {floats : List String} :
      Describes d (.float32_array_values floats) (.braces (floats.map .number))
  | struct_value {d : Param} {fields : List (String × JsValue)} {items : List Init}
      (h : DescribesStruct d fields items) : Describes d (.struct_value (some fields)) (.braces items)
  | struct_array_values {d : Param} {values : List (Option (List (String × JsValue)))}
      {items : List Init} (h : DescribesStructs d values items) :
      Describes d (.struct_array_values values) (.braces items)
  | struct_variant_value {d : Param} {alternative : String} {value : JsValue} {init : Init}
      (h : DescribesVariant d alternative value init) :
      Describes d (.struct_variant_value (some alternative) (some value)) (.braces [init])
  | struct_variants {d : Param} {alternative : String} {value : JsValue} {init : Init}
      (h : DescribesVariant d alternative value init) :
      Describes d (.struct_variants (some (some alternative, some value)))
        (.braces [.braces [init]])
  | struct_variant_array_values {d : Param}
      {values : List (Option (Option String × Option JsValue))} {items : List Init}
      (h : DescribesVariants d values items) :
      Describes d (.struct_variant_array_values values) (.braces items)

/-- Every field of the value is one of the type, and the fields are said in the order of the type. -/
inductive DescribesStruct : Param → List (String × JsValue) → List Init → Prop
  | intro {d : Param} {fields : List (String × JsValue)} {items : List Init}
      (hall : ∀ name ∈ fields.map Prod.fst, name ∈ d.keys)
      (h : DescribesFields d fields (d.fieldsIn fields) items) : DescribesStruct d fields items

/-- A field is named by its C++ identifier, which no other field of the type has. -/
inductive DescribesFields : Param → List (String × JsValue) → List String → List Init → Prop
  | nil {d : Param} {fields : List (String × JsValue)} : DescribesFields d fields [] []
  | cons {d subParam : Param} {fields : List (String × JsValue)} {name : String} {value : JsValue}
      {names : List String} {init : Init} {items : List Init}
      (hvalue : fields.lookup name = some value) (hsub : d.getParam [name] = some subParam)
      (hunique : ∀ other ∈ d.keys, getCppIdentifier other = getCppIdentifier name → other = name)
      (h : Describes subParam.resolved value init) (hrest : DescribesFields d fields names items) :
      DescribesFields d fields (name :: names) (.field (getCppIdentifier name) init :: items)

inductive DescribesStructs :
    Param → List (Option (List (String × JsValue))) → List Init → Prop
  | nil {d : Param} : DescribesStructs d [] []
  | cons {d : Param} {fields : List (String × JsValue)}
      {values : List (Option (List (String × JsValue)))} {items rest : List Init}
      (h : DescribesStruct d fields items) (hrest : DescribesStructs d values rest) :
      DescribesStructs d (some fields :: values) (.braces items :: rest)

/-- An alternative is named by its C++ type, which no other alternative has. -/
inductive DescribesVariant : Param → String → JsValue → Init → Prop
  | intro {d subParam : Param} {alternative type : String} {value : JsValue} {init : Init}
      (hsub : d.getParam [alternative] = some subParam)
      (htype : subParam.objectNamespaceType = .ok type)
      (hunique : ∀ other ∈ d.subParams, other.objectNamespaceType = .ok type →
        other.oid = alternative)
      (h : Describes subParam.resolved value init) :
      DescribesVariant d alternative value (.typed type init)

inductive DescribesVariants :
    Param → List (Option (Option String × Option JsValue)) → List Init → Prop
  | nil {d : Param} : DescribesVariants d [] []
  | cons {d : Param} {alternative : String} {value : JsValue}
      {values : List (Option (Option String × Option JsValue))} {init : Init} {rest : List Init}
      (h : DescribesVariant d alternative value init) (hrest : DescribesVariants d values rest) :
      DescribesVariants d (some (some alternative, some value) :: values) (.braces [init] :: rest)

end

/-! ## Where the generator gets it right -/

/-- Between the text of a string and its literal nothing happens. -/
def PlainString (s : String) : Prop := ∀ c ∈ s.toList, PlainChar c

mutual

/-- The definition that the generator consults says about the value what the one of the type
does. -/
inductive Agrees : Param → Param → JsValue → Prop
  | undefined {q d : Param} : Agrees q d .undefined
  | empty_value {q d : Param} : Agrees q d .empty_value
  | string_value {q d : Param} {s : String} (h : PlainString s) : Agrees q d (.string_value s)
  | int32_value {q d : Param} {n : Int} : Agrees q d (.int32_value n)
  | float32_value {q d : Param} {x : String} : Agrees q d (.float32_value x)
  | string_array_values {q d : Param} {strings : List String} (h : ∀ s ∈ strings, PlainString s) :
      Agrees q d (.string_array_values strings)
  | int32_array_values {q d : Param} {ints : List Int} : Agrees q d (.int32_array_values ints)
  | float32_array_values {q d : Param} {floats : List String} :
      Agrees q d (.float32_array_values floats)
  | struct_value {q d : Param} {fields : List (String × JsValue)} (h : AgreesStruct q d fields) :
      Agrees q d (.struct_value (some fields))
  | struct_array_values {q d : Param} {values : List (Option (List (String × JsValue)))}
      (h : ∀ fields, some fields ∈ values → AgreesStruct q d fields) :
      Agrees q d (.struct_array_values values)
  | struct_variant_value {q d : Param} {alternative : String} {value : JsValue}
      (h : AgreesVariant q d alternative value) :
      Agrees q d (.struct_variant_value (some alternative) (some value))
  | struct_variants {q d : Param} {alternative : String} {value : JsValue}
      (h : AgreesVariant q d alternative value) :
      Agrees q d (.struct_variants (some (some alternative, some value)))
  | struct_variant_array_values {q d : Param}
      {values : List (Option (Option String × Option JsValue))}
      (h : ∀ alternative value, some (some alternative, some value) ∈ values →
        AgreesVariant q d alternative value) :
      Agrees q d (.struct_variant_array_values values)

/-- Both definitions have the fields of the value in the same order, and no field has a name that
every object has. -/
inductive AgreesStruct : Param → Param → List (String × JsValue) → Prop
  | intro {q d : Param} {fields : List (String × JsValue)}
      (hall : ∀ name ∈ fields.map Prod.fst, name ∈ d.keys)
      (horder : q.keys.filter (inObject · fields) = d.fieldsIn fields)
      (hunique : ∀ name ∈ d.fieldsIn fields, ∀ other ∈ d.keys,
        getCppIdentifier other = getCppIdentifier name → other = name)
      (h : ∀ name value subParam subParam', fields.lookup name = some value →
        q.getParam [name] = some subParam → d.getParam [name] = some subParam' →
        Agrees subParam.definition subParam'.resolved value) : AgreesStruct q d fields

inductive AgreesVariant : Param → Param → String → JsValue → Prop
  | intro {q d subParam subParam' : Param} {alternative type : String} {value : JsValue}
      (hsub : q.getParam [alternative] = some subParam)
      (hsub' : d.getParam [alternative] = some subParam')
      (htype : subParam.definition.objectNamespaceType = .ok type)
      (htype' : subParam'.objectNamespaceType = .ok type)
      (hunique : ∀ other ∈ d.subParams, other.objectNamespaceType = .ok type →
        other.oid = alternative)
      (h : Agrees subParam.definition subParam'.resolved value) :
      AgreesVariant q d alternative value

end

/-! ## One struct -/

/-- What is said of a value is right exactly where the definitions agree. -/
def Exact (value : JsValue) : Prop :=
  ∀ ⦃q d type init⦄, value.initializer type q = .ok init →
    (Describes d value init ↔ Agrees q d value)

theorem getParam_oid {param subParam : Param} {name : String}
    (h : param.getParam [name] = some subParam) : subParam.oid = name := by
  unfold Param.getParam getParamIn at h
  split at h
  · exact nomatch h
  · rename_i found hfound
    obtain rfl := Option.some.inj h
    have hoid := List.find?_some hfound
    exact of_decide_eq_true hoid

theorem exists_getParam {param : Param} {name : String} (h : name ∈ param.keys) :
    ∃ subParam, param.getParam [name] = some subParam := by
  obtain ⟨p, hp, hname⟩ := List.mem_map.mp h
  unfold Param.getParam getParamIn
  cases hfound : param.subParams.find? (·.oid = name) with
  | none => exact absurd (decide_eq_true hname) (List.find?_eq_none.mp hfound p hp)
  | some found => exact ⟨found, rfl⟩

theorem namedFields_lookup {fields : List (String × JsValue)} {name : String} :
    (JsValue.namedFields fields).lookup name =
      (fields.lookup name).map JsValue.initializer := by
  induction fields with
  | nil => rfl
  | cons field fields ih =>
    obtain ⟨name', value⟩ := field
    rw [JsValue.namedFields, List.lookup_cons, List.lookup_cons, ih]
    split <;> rfl

theorem inObject_namedFields {fields : List (String × JsValue)} {name : String} :
    inObject name (JsValue.namedFields fields) = inObject name fields := by
  unfold inObject
  rw [namedFields_lookup, Option.isSome_map]

theorem fieldInit_ok {fields : List (String × JsValue)} {q : Param} {name : String} {item : Init}
    (h : fieldInit (JsValue.namedFields fields) q name = .ok item) :
    ∃ subParam init, q.getParam [name] = some subParam ∧
      item = .field (getCppIdentifier name) init ∧
      ∀ value, fields.lookup name = some value →
        value.initializer subParam.type subParam.definition = .ok init := by
  unfold fieldInit at h
  split at h
  · cases h
  · rename_i subParam hsub
    obtain ⟨init, hinit, h⟩ := bind_eq_ok_iff.mp h
    refine ⟨subParam, init, hsub, ?_, ?_⟩
    · rw [← getParam_oid hsub]
      exact (Except.ok.inj h).symm
    · intro value hvalue
      rw [namedFields_lookup, hvalue] at hinit
      exact hinit

theorem getCppIdentifier_objectPrototype :
    ∀ name ∈ objectPrototype, name ∉ CPP_KEYWORDS ∧ ∀ keyword ∈ CPP_KEYWORDS,
      keyword ++ "_" ≠ name := by
  decide

/-- A field of the value is found under the identifier that only it has in the type. -/
theorem name_eq_of_identifier {d : Param} {fields : List (String × JsValue)} {name other : String}
    (hall : ∀ name ∈ fields.map Prod.fst, name ∈ d.keys)
    (hunique : ∀ other ∈ d.keys, getCppIdentifier other = getCppIdentifier name → other = name)
    (hother : inObject other fields) (hid : getCppIdentifier other = getCppIdentifier name) :
    other = name := by
  cases hown : fields.lookup other with
  | some value =>
    have hmem : other ∈ fields.map Prod.fst := List.mem_map_of_mem (mem_of_lookup hown)
    exact hunique other (hall other hmem) hid
  | none =>
    have hproto : other ∈ objectPrototype := by simpa [inObject, hown] using hother
    obtain ⟨hkeyword, hescaped⟩ := getCppIdentifier_objectPrototype other hproto
    unfold getCppIdentifier at hid
    rw [if_neg hkeyword] at hid
    split at hid
    · exact absurd hid.symm (hescaped name (by assumption))
    · exact hid

theorem fields_agree_of_describes {q d : Param} {fields : List (String × JsValue)}
    (ih : ∀ name value, fields.lookup name = some value → Exact value)
    (hall : ∀ name ∈ fields.map Prod.fst, name ∈ d.keys) {names names' : List String}
    {items : List Init} (hnames : ∀ name ∈ names, inObject name fields)
    (hitems : List.Forall₂
      (fun name item => fieldInit (JsValue.namedFields fields) q name = .ok item) names items)
    (h : DescribesFields d fields names' items) :
    names = names' ∧ ∀ name ∈ names',
      (∀ other ∈ d.keys, getCppIdentifier other = getCppIdentifier name → other = name) ∧
      ∀ value subParam subParam', fields.lookup name = some value →
        q.getParam [name] = some subParam → d.getParam [name] = some subParam' →
        Agrees subParam.definition subParam'.resolved value := by
  induction hitems generalizing names' with
  | nil =>
    cases h
    exact ⟨rfl, fun name hname => nomatch hname⟩
  | cons hitem hitems ihs =>
    obtain ⟨subParam, init, hsub, rfl, hinit⟩ := fieldInit_ok hitem
    generalize hfield : Init.field _ init = item at h
    cases h with
    | @cons _ subParam' _ name' value _ init' _ hvalue hsub' hunique hdescribes hrest =>
      obtain ⟨hid, rfl⟩ := Init.field.inj hfield
      obtain rfl := name_eq_of_identifier hall hunique (hnames _ List.mem_cons_self) hid
      obtain ⟨rfl, hagrees⟩ := ihs (fun name hname => hnames name (List.mem_cons_of_mem _ hname))
        hrest
      refine ⟨rfl, ?_⟩
      intro name hname
      rcases List.mem_cons.mp hname with rfl | hname
      · refine ⟨hunique, ?_⟩
        intro value₁ subParam₁ subParam₁' hvalue₁ hsub₁ hsub₁'
        obtain rfl := Option.some.inj (hvalue.symm.trans hvalue₁)
        obtain rfl := Option.some.inj (hsub.symm.trans hsub₁)
        obtain rfl := Option.some.inj (hsub'.symm.trans hsub₁')
        exact (ih name value hvalue (hinit value hvalue)).mp hdescribes
      · exact hagrees name hname

theorem fields_describe_of_agrees {q d : Param} {fields : List (String × JsValue)}
    (ih : ∀ name value, fields.lookup name = some value → Exact value) {names : List String}
    {items : List Init} (hnames : ∀ name ∈ names, name ∈ d.keys ∧ (fields.lookup name).isSome)
    (hunique : ∀ name ∈ names, ∀ other ∈ d.keys,
      getCppIdentifier other = getCppIdentifier name → other = name)
    (hagrees : ∀ name value subParam subParam', fields.lookup name = some value →
      q.getParam [name] = some subParam → d.getParam [name] = some subParam' →
      Agrees subParam.definition subParam'.resolved value)
    (hitems : List.Forall₂
      (fun name item => fieldInit (JsValue.namedFields fields) q name = .ok item) names items) :
    DescribesFields d fields names items := by
  induction hitems with
  | nil => exact DescribesFields.nil
  | @cons name item names items hitem hitems ihs =>
    obtain ⟨subParam, init, hsub, rfl, hinit⟩ := fieldInit_ok hitem
    obtain ⟨hkey, hown⟩ := hnames name List.mem_cons_self
    obtain ⟨value, hvalue⟩ := Option.isSome_iff_exists.mp hown
    obtain ⟨subParam', hsub'⟩ := exists_getParam hkey
    apply DescribesFields.cons hvalue hsub' (hunique name List.mem_cons_self)
    · apply (ih name value hvalue (hinit value hvalue)).mpr
      exact hagrees name value subParam subParam' hvalue hsub hsub'
    · apply ihs
      · exact fun name hname => hnames name (List.mem_cons_of_mem _ hname)
      · exact fun name hname => hunique name (List.mem_cons_of_mem _ hname)

theorem struct_value_exact {q d : Param} {fields : List (String × JsValue)} {items : List Init}
    (ih : ∀ name value, fields.lookup name = some value → Exact value)
    (h : struct_value (some (JsValue.namedFields fields)) q = .ok items) :
    DescribesStruct d fields items ↔ AgreesStruct q d fields := by
  have hkeys : q.keys.filter (inObject · (JsValue.namedFields fields)) =
      q.keys.filter (inObject · fields) :=
    List.filter_congr fun name _ => inObject_namedFields
  have hitems := mapM_ok h
  rw [hkeys] at hitems
  constructor
  · rintro ⟨hall, hfields⟩
    have hnames : ∀ name ∈ q.keys.filter (inObject · fields), inObject name fields :=
      fun name hname => (List.mem_filter.mp hname).2
    obtain ⟨horder, hagrees⟩ := fields_agree_of_describes ih hall hnames hitems hfields
    refine ⟨hall, horder, fun name hname => (hagrees name hname).1, ?_⟩
    intro name value subParam subParam' hvalue
    have hkey : name ∈ d.keys := hall name (List.mem_map_of_mem (mem_of_lookup hvalue))
    have hmem : name ∈ d.fieldsIn fields := by
      apply List.mem_filter.mpr
      rw [hvalue]
      exact ⟨hkey, rfl⟩
    exact (hagrees name hmem).2 value subParam subParam' hvalue
  · rintro ⟨hall, horder, hunique, hagrees⟩
    rw [horder] at hitems
    refine ⟨hall, ?_⟩
    apply fields_describe_of_agrees ih _ hunique hagrees hitems
    exact fun name hname => List.mem_filter.mp hname

theorem structs_exact {q d : Param} {values : List (Option (List (String × JsValue)))}
    {items : List Init}
    (ih : ∀ fields, some fields ∈ values → ∀ name value, fields.lookup name = some value →
      Exact value)
    (h : List.Forall₂ (fun value item => ∃ fields, struct_value value q = .ok fields ∧
      item = .braces fields) (JsValue.structs values) items) :
    DescribesStructs d values items ↔
      ∀ fields, some fields ∈ values → AgreesStruct q d fields := by
  induction values generalizing items with
  | nil =>
    cases h
    exact ⟨fun _ fields hfields => (nomatch hfields), fun _ => DescribesStructs.nil⟩
  | cons value values ihs =>
    cases h with
    | cons hitem hrest =>
      obtain ⟨fields', hfields, rfl⟩ := hitem
      cases value with
      | none => exact nomatch hfields
      | some fields =>
        have hhead : DescribesStruct d fields fields' ↔ AgreesStruct q d fields :=
          struct_value_exact (ih fields List.mem_cons_self) hfields
        have htail := ihs (fun other hother => ih other (List.mem_cons_of_mem _ hother)) hrest
        constructor
        · intro h other hother
          cases h with
          | cons h hrest =>
            rcases List.mem_cons.mp hother with heq | hother
            · obtain rfl := Option.some.inj heq
              exact hhead.mp h
            · exact htail.mp hrest other hother
        · intro h
          apply DescribesStructs.cons
          · exact hhead.mpr (h fields List.mem_cons_self)
          · exact htail.mpr fun other hother => h other (List.mem_cons_of_mem _ hother)

/-! ## One variant -/

theorem struct_variant_value_ok {q : Param} {alternative : Option String}
    {value : Option JsValue} {init : Init}
    (h : struct_variant_value (alternative, JsValue.optional value) q = .ok init) :
    ∃ name v subParam type init', alternative = some name ∧ value = some v ∧
      q.getParam [name] = some subParam ∧
      subParam.definition.objectNamespaceType = .ok type ∧
      v.initializer subParam.type subParam.definition = .ok init' ∧ init = .typed type init' := by
  cases alternative with
  | none => cases h
  | some name =>
    unfold struct_variant_value at h
    simp only at h
    split at h
    · cases h
    · rename_i subParam hsub
      cases value with
      | none => cases h
      | some v =>
        obtain ⟨type, htype, h⟩ := bind_eq_ok_iff.mp h
        obtain ⟨init', hinit, h⟩ := bind_eq_ok_iff.mp h
        exact ⟨name, v, subParam, type, init', rfl, rfl, hsub, htype, hinit,
          (Except.ok.inj h).symm⟩

theorem variant_exact {q d subParam : Param} {name type : String} {value : JsValue} {init : Init}
    (ih : Exact value) (hsub : q.getParam [name] = some subParam)
    (htype : subParam.definition.objectNamespaceType = .ok type)
    (hinit : value.initializer subParam.type subParam.definition = .ok init) :
    DescribesVariant d name value (.typed type init) ↔ AgreesVariant q d name value := by
  constructor
  · intro h
    cases h with
    | intro hsub' htype' hunique h =>
      exact AgreesVariant.intro hsub hsub' htype htype' hunique ((ih hinit).mp h)
  · intro h
    cases h with
    | intro hsub₁ hsub' htype₁ htype' hunique h =>
      obtain rfl := Option.some.inj (hsub.symm.trans hsub₁)
      obtain rfl := Except.ok.inj (htype.symm.trans htype₁)
      exact DescribesVariant.intro hsub' htype' hunique ((ih hinit).mpr h)

theorem struct_variants_ok {q : Param} {value : Option (Option String × Option JsValue)}
    {init : Init} (h : struct_variants (JsValue.optionalVariant value) q = .ok init) :
    ∃ name v subParam type init', value = some (some name, some v) ∧
      q.getParam [name] = some subParam ∧
      subParam.definition.objectNamespaceType = .ok type ∧
      v.initializer subParam.type subParam.definition = .ok init' ∧
      init = .braces [.typed type init'] := by
  cases value with
  | none => exact nomatch h
  | some value =>
    obtain ⟨alternative, value⟩ := value
    obtain ⟨typed, htyped, h⟩ := bind_eq_ok_iff.mp h
    obtain rfl := Except.ok.inj h
    obtain ⟨name, v, subParam, type, init, rfl, rfl, hsub, htype, hinit, rfl⟩ :=
      struct_variant_value_ok htyped
    exact ⟨name, v, subParam, type, init, rfl, hsub, htype, hinit, rfl⟩

theorem variants_exact {q d : Param} {values : List (Option (Option String × Option JsValue))}
    {items : List Init}
    (ih : ∀ name value, some (some name, some value) ∈ values → Exact value)
    (h : List.Forall₂ (fun value item => struct_variants value q = .ok item)
      (JsValue.variants values) items) :
    DescribesVariants d values items ↔
      ∀ name value, some (some name, some value) ∈ values → AgreesVariant q d name value := by
  induction values generalizing items with
  | nil =>
    cases h
    exact ⟨fun _ name value hvalue => (nomatch hvalue), fun _ => DescribesVariants.nil⟩
  | cons value values ihs =>
    cases h with
    | cons hitem hrest =>
      obtain ⟨name, v, subParam, type, init, rfl, hsub, htype, hinit, rfl⟩ :=
        struct_variants_ok hitem
      have hhead := variant_exact (d := d) (ih name v List.mem_cons_self) hsub htype hinit
      have htail := ihs (fun name' v' hv' => ih name' v' (List.mem_cons_of_mem _ hv')) hrest
      constructor
      · intro h name' v' hv'
        cases h with
        | cons h hrest =>
          rcases List.mem_cons.mp hv' with heq | hv'
          · obtain ⟨hname, hv⟩ := Prod.mk.inj (Option.some.inj heq)
            obtain rfl := Option.some.inj hname
            obtain rfl := Option.some.inj hv
            exact hhead.mp h
          · exact htail.mp hrest name' v' hv'
      · intro h
        apply DescribesVariants.cons
        · exact hhead.mpr (h name v List.mem_cons_self)
        · exact htail.mpr fun name' v' hv' => h name' v' (List.mem_cons_of_mem _ hv')

/-! ## All values -/

theorem keyed_ok {key type : String} {value : Param → Except JsError (List Init)} {q : Param}
    {init : Init} (h : keyed key value type q = .ok init) :
    ∃ items, value q = .ok items ∧ init = .braces items := by
  unfold keyed at h
  obtain ⟨expected, _, h⟩ := bind_eq_ok_iff.mp h
  split at h
  · exact nomatch h
  · obtain ⟨items, hitems, h⟩ := bind_eq_ok_iff.mp h
    exact ⟨items, hitems, (Except.ok.inj h).symm⟩

theorem string_array_exact {q d : Param} {strings : List String} :
    Describes d (.string_array_values strings) (.braces (strings.map .literal)) ↔
      Agrees q d (.string_array_values strings) := by
  constructor
  · intro h
    generalize hinit : Init.braces (strings.map Init.literal) = init at h
    cases h with
    | @string_array_values _ _ texts h =>
      have htexts : strings = texts :=
        List.map_injective_iff.mpr (fun _ _ => Init.literal.inj) (Init.braces.inj hinit)
      subst htexts
      apply Agrees.string_array_values
      intro s hs
      exact literalDenotes_self_iff.mp (List.forall₂_same.mp h s hs)
  · intro h
    cases h with
    | string_array_values h =>
      apply Describes.string_array_values
      exact List.forall₂_same.mpr fun s hs => literalDenotes_self_iff.mpr (h s hs)

theorem string_exact {q d : Param} {s : String} :
    Describes d (.string_value s) (.braces [.literal s]) ↔ Agrees q d (.string_value s) := by
  constructor
  · intro h
    cases h with
    | string_value h => exact Agrees.string_value (literalDenotes_self_iff.mp h)
  · intro h
    cases h with
    | string_value h => exact Describes.string_value (literalDenotes_self_iff.mpr h)

theorem exact_of_items {value : JsValue} {key : String} {items : List Init}
    (hvalue : value.initializer = keyed key fun _ => .ok items)
    (h : ∀ {q d : Param}, Describes d value (.braces items) ↔ Agrees q d value) : Exact value := by
  intro q d type init hinit
  rw [hvalue] at hinit
  obtain ⟨items', hitems, rfl⟩ := keyed_ok hinit
  obtain rfl := Except.ok.inj hitems
  exact h

theorem sizeOf_lookup {fields : List (String × JsValue)} {name : String} {value : JsValue}
    (h : fields.lookup name = some value) : sizeOf value < sizeOf fields := by
  have hmem := List.sizeOf_lt_of_mem (mem_of_lookup h)
  rw [Prod.mk.sizeOf_spec] at hmem
  omega

theorem sizeOf_struct {values : List (Option (List (String × JsValue)))}
    {fields : List (String × JsValue)} {name : String} {value : JsValue}
    (hfields : some fields ∈ values) (h : fields.lookup name = some value) :
    sizeOf value < sizeOf values := by
  have hmem := List.sizeOf_lt_of_mem hfields
  have hlookup := sizeOf_lookup h
  rw [Option.some.sizeOf_spec] at hmem
  omega

theorem sizeOf_variant {values : List (Option (Option String × Option JsValue))} {name : String}
    {value : JsValue} (h : some (some name, some value) ∈ values) :
    sizeOf value < sizeOf values := by
  have hmem := List.sizeOf_lt_of_mem h
  rw [Option.some.sizeOf_spec, Prod.mk.sizeOf_spec, Option.some.sizeOf_spec value] at hmem
  omega

namespace JsValue

/-- The step of the induction: the values inside are smaller. -/
theorem exact_of_smaller {value : JsValue}
    (ih : ∀ v : JsValue, sizeOf v < sizeOf value → Exact v) : Exact value := by
  cases value with
  | undefined =>
    intro q d type init h
    obtain rfl := Except.ok.inj h
    exact ⟨fun _ => Agrees.undefined, fun _ => Describes.undefined⟩
  | empty_value =>
    apply exact_of_items (by rw [initializer])
    exact ⟨fun _ => Agrees.empty_value, fun _ => Describes.empty_value⟩
  | string_value s => exact exact_of_items (by rw [initializer]) string_exact
  | int32_value n =>
    apply exact_of_items (by rw [initializer])
    exact ⟨fun _ => Agrees.int32_value, fun _ => Describes.int32_value⟩
  | float32_value x =>
    apply exact_of_items (by rw [initializer])
    exact ⟨fun _ => Agrees.float32_value, fun _ => Describes.float32_value⟩
  | string_array_values strings =>
    exact exact_of_items (by rw [initializer]) string_array_exact
  | int32_array_values ints =>
    apply exact_of_items (by rw [initializer])
    exact ⟨fun _ => Agrees.int32_array_values, fun _ => Describes.int32_array_values⟩
  | float32_array_values floats =>
    apply exact_of_items (by rw [initializer])
    exact ⟨fun _ => Agrees.float32_array_values, fun _ => Describes.float32_array_values⟩
  | struct_value fields =>
    intro q d type init h
    rw [initializer] at h
    obtain ⟨items, hitems, rfl⟩ := keyed_ok h
    cases fields with
    | none => exact nomatch hitems
    | some fields =>
      have hstruct : DescribesStruct d fields items ↔ AgreesStruct q d fields := by
        apply struct_value_exact _ hitems
        intro name value hvalue
        apply ih value
        have := sizeOf_lookup hvalue
        rw [struct_value.sizeOf_spec, Option.some.sizeOf_spec]
        omega
      constructor
      · intro h
        cases h with
        | struct_value h => exact Agrees.struct_value (hstruct.mp h)
      · intro h
        cases h with
        | struct_value h => exact Describes.struct_value (hstruct.mpr h)
  | struct_array_values values =>
    intro q d type init h
    rw [initializer] at h
    obtain ⟨items, hitems, rfl⟩ := keyed_ok h
    have hpairs := mapM_ok hitems
    have hstructs : DescribesStructs d values items ↔
        ∀ fields, some fields ∈ values → AgreesStruct q d fields := by
      apply structs_exact
      · intro fields hfields name value hvalue
        apply ih value
        have := sizeOf_struct hfields hvalue
        rw [struct_array_values.sizeOf_spec]
        omega
      · apply hpairs.imp
        intro value item h
        obtain ⟨fields, hfields, h⟩ := bind_eq_ok_iff.mp h
        exact ⟨fields, hfields, (Except.ok.inj h).symm⟩
    constructor
    · intro h
      cases h with
      | struct_array_values h => exact Agrees.struct_array_values (hstructs.mp h)
    · intro h
      cases h with
      | struct_array_values h => exact Describes.struct_array_values (hstructs.mpr h)
  | struct_variant_value alternative value =>
    intro q d type init h
    rw [initializer] at h
    obtain ⟨items, hitems, rfl⟩ := keyed_ok h
    obtain ⟨item, hitem, hitems⟩ := bind_eq_ok_iff.mp hitems
    obtain rfl := Except.ok.inj hitems
    obtain ⟨name, v, subParam, type, init, rfl, rfl, hsub, htype, hinit, rfl⟩ :=
      struct_variant_value_ok hitem
    have hsmaller : sizeOf v < sizeOf (struct_variant_value (some name) (some v)) := by
      rw [struct_variant_value.sizeOf_spec, Option.some.sizeOf_spec v]
      omega
    have hvariant : DescribesVariant d name v (.typed type init) ↔ AgreesVariant q d name v :=
      variant_exact (ih v hsmaller) hsub htype hinit
    constructor
    · intro h
      cases h with
      | struct_variant_value h => exact Agrees.struct_variant_value (hvariant.mp h)
    · intro h
      cases h with
      | struct_variant_value h => exact Describes.struct_variant_value (hvariant.mpr h)
  | struct_variants value =>
    intro q d type init h
    rw [initializer] at h
    obtain ⟨items, hitems, rfl⟩ := keyed_ok h
    obtain ⟨item, hitem, hitems⟩ := bind_eq_ok_iff.mp hitems
    obtain rfl := Except.ok.inj hitems
    obtain ⟨name, v, subParam, type, init, rfl, hsub, htype, hinit, rfl⟩ :=
      struct_variants_ok hitem
    have hsmaller : sizeOf v < sizeOf (struct_variants (some (some name, some v))) := by
      rw [struct_variants.sizeOf_spec, Option.some.sizeOf_spec, Prod.mk.sizeOf_spec,
        Option.some.sizeOf_spec v]
      omega
    have hvariant : DescribesVariant d name v (.typed type init) ↔ AgreesVariant q d name v :=
      variant_exact (ih v hsmaller) hsub htype hinit
    constructor
    · intro h
      cases h with
      | struct_variants h => exact Agrees.struct_variants (hvariant.mp h)
    · intro h
      cases h with
      | struct_variants h => exact Describes.struct_variants (hvariant.mpr h)
  | struct_variant_array_values values =>
    intro q d type init h
    rw [initializer] at h
    obtain ⟨items, hitems, rfl⟩ := keyed_ok h
    have hvariants : DescribesVariants d values items ↔
        ∀ name value, some (some name, some value) ∈ values → AgreesVariant q d name value := by
      apply variants_exact _ (mapM_ok hitems)
      intro name value hvalue
      apply ih value
      have := sizeOf_variant hvalue
      rw [struct_variant_array_values.sizeOf_spec]
      omega
    constructor
    · intro h
      cases h with
      | struct_variant_array_values h =>
        exact Agrees.struct_variant_array_values (hvariants.mp h)
    · intro h
      cases h with
      | struct_variant_array_values h =>
        exact Describes.struct_variant_array_values (hvariants.mpr h)

theorem exact_initializer (value : JsValue) : Exact value := by
  induction hn : sizeOf value using Nat.strongRecOn generalizing value with
  | ind n ih =>
    apply exact_of_smaller
    intro v hv
    exact ih (sizeOf v) (hn ▸ hv) v rfl

end JsValue

/-- The initializer of a param says the value of the param exactly where the definition that is
consulted agrees with the one of the type. -/
theorem Param.initializeValue_describes_iff {param : Param} {value : JsValue} {decl : ValueDecl}
    (hvalue : param.value = some value) (h : param.initializeValue = .ok decl) :
    ∃ init, decl.init = some init ∧
      (Describes param.resolved value init ↔ Agrees param.definition param.resolved value) := by
  unfold Param.initializeValue at h
  obtain ⟨type, _, h⟩ := bind_eq_ok_iff.mp h
  rw [hvalue] at h
  obtain ⟨init, hinit, h⟩ := bind_eq_ok_iff.mp h
  obtain rfl := Except.ok.inj h
  exact ⟨init, rfl, value.exact_initializer hinit⟩

/-- A struct with the field `x`. -/
def point : Param where
  oid := "point"
  namespaceName := "test"
  type := "STRUCT"
  value := none
  isCommand := false
  constraint := none
  template_param := none
  subParams := [⟨"x", "test::Point", "INT32", none, false, none, none, []⟩]

def pointValue : JsValue := .struct_value (some [("x", .int32_value 1)])

def pointInit : Init := .braces [.field "x" (.braces [.number "1"])]

/-- A param with that value and template. -/
def templatedOn (template : Param) (oid : String) : Param where
  oid := oid
  namespaceName := "test"
  type := "STRUCT"
  value := some pointValue
  isCommand := false
  constraint := none
  template_param := some template
  subParams := []

theorem agrees_point : Agrees point point pointValue := by
  apply Agrees.struct_value
  refine ⟨by decide, by decide, by decide, ?_⟩
  intro name value subParam subParam' hvalue hsub hsub'
  rw [List.lookup_cons] at hvalue
  split at hvalue
  · obtain rfl := Option.some.inj hvalue
    exact Agrees.int32_value
  · exact nomatch hvalue

theorem initializeValue_describes_iff_point : Describes point pointValue pointInit := by
  have hvalue : (templatedOn point "origin").value = some pointValue := rfl
  have hinit : (templatedOn point "origin").initializeValue =
      .ok ⟨"Point", "origin", some pointInit⟩ := rfl
  obtain ⟨init, hsome, hiff⟩ := Param.initializeValue_describes_iff hvalue hinit
  obtain rfl := Option.some.inj hsome
  exact hiff.mpr agrees_point

/-- A struct, a param that is templated on it, and one that is templated on that. -/
def twiceTemplated : DeviceDesc where
  namespaceName := "test"
  constraints := []
  params := [("point", ⟨"STRUCT", none, none, none,
      some [("x", ⟨"INT32", none, none, none, none⟩)]⟩),
    ("origin", ⟨"STRUCT", some pointValue, none, some "/point", none⟩),
    ("target", ⟨"STRUCT", some pointValue, none, some "/origin", none⟩)]
  commands := []
  constraints_nodup := List.nodup_nil

/-- The value of a param whose template is templated loses all its fields. -/
theorem templated_template_dropped :
    ¬ ∀ (desc : DeviceDesc) (gen : CppGen), generate desc = .ok gen →
      ∀ param ∈ gen.device.params, ∀ value decl, param.value = some value →
        param.initializeValue = .ok decl →
        ∃ init, decl.init = some init ∧ Describes param.resolved value init := by
  intro hclaim
  have hparams : (generate twiceTemplated).map (fun gen => gen.device.params) =
      .ok [point, templatedOn point "origin", templatedOn (templatedOn point "origin") "target"] :=
    rfl
  cases hgen : generate twiceTemplated with
  | error e =>
    rw [hgen] at hparams
    exact nomatch hparams
  | ok gen =>
    rw [hgen] at hparams
    have hmem : templatedOn (templatedOn point "origin") "target" ∈ gen.device.params := by
      have hlist : gen.device.params = _ := Except.ok.inj hparams
      rw [hlist]
      exact List.mem_cons_of_mem _ (List.mem_cons_of_mem _ List.mem_cons_self)
    obtain ⟨init, hsome, h⟩ := hclaim twiceTemplated gen hgen _ hmem pointValue
      ⟨"Point", "target", some (.braces [])⟩ rfl rfl
    obtain rfl := Option.some.inj hsome
    have hempty : ∀ {items}, Describes point pointValue (.braces items) → items ≠ [] := by
      intro items h
      cases h with
      | struct_value h =>
        obtain ⟨_, h⟩ := h
        cases h with
        | cons => exact List.cons_ne_nil _ _
    exact hempty h rfl

end Catena.Codegen
