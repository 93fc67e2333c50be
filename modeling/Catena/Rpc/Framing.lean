import Mathlib.Data.List.Perm.Basic
import Catena.Rpc.SocketReader

/-!
# The framing of a REST request

The headers of a request are a set: what each of them says depends neither on its place nor on
the letter case of its name, as long as no name occurs twice. The body is what follows the blank
line, as many bytes as the headers declare, wherever the socket cut it.
-/

namespace Catena.Rpc

open Store Catena.Framework

/-! ## What headers say -/

def sameLetters (a b : Text) : Prop := a.map Char.toLower = b.map Char.toLower

/-- The names that the reader looks for. -/
inductive HeaderName where
  | authorization
  | origin
  | detailLevel
  | requestStart
  | contentLength
  | contentType
  deriving DecidableEq

def HeaderName.text : HeaderName → Text
  | .authorization => "authorization".toList
  | .origin => "origin".toList
  | .detailLevel => "detail-level".toList
  | .requestStart => "request-start".toList
  | .contentLength => "content-length".toList
  | .contentType => "content-type".toList

/-- The value of a header line if it has this name, in any letter case. -/
def valueIn (name : HeaderName) (header : Text) : Option Text :=
  match splitHeader header with
  | none => none
  | some (name', value) => if name'.map Char.toLower = name.text then some value else none

/-- The values of the header lines with this name. -/
def valuesOf (name : HeaderName) (headers : List Text) : List Text :=
  headers.filterMap (valueIn name)

/-- Each recognised header name occurs at most once. -/
def Once (headers : List Text) : Prop := ∀ name, (valuesOf name headers).length ≤ 1

def Declares (value : Text) (n : Nat) : Prop :=
  ∃ spaces sign digits, value = spaces ++ sign ++ digits ∧ (∀ c ∈ spaces, isSpace c = true) ∧
    (sign = [] ∨ sign = ['+'] ∨ sign = ['-'] ∧ n = 0) ∧ IsDigits digits ∧
    Nat.ofDigitChars 10 digits 0 = n

/-- `application/json` in any letter case, alone or directly followed by a semicolon. -/
def IsJson (value : Text) : Prop :=
  ∃ mime params, value = mime ++ params ∧ sameLetters mime "application/json".toList ∧
    (params = [] ∨ params.head? = some ';')

/-- The number of bytes that the headers declare. -/
def DeclaredLength (headers : List Text) (n : Nat) : Prop :=
  valuesOf .contentLength headers = [] ∧ n = 0 ∨
    ∃ value, valuesOf .contentLength headers = [value] ∧ Declares value n

/-- Two header lines that differ in the letter case of their names. -/
def SameHeader (header header' : Text) : Prop :=
  header = header' ∨ ∃ name name' value, header = name ++ ':' :: value ∧
    header' = name' ++ ':' :: value ∧ ':' ∉ name ∧ ':' ∉ name' ∧ sameLetters name name'

/-- The same headers in another order and with other letter cases of their names. -/
def SameHeaders (headers headers' : List Text) : Prop :=
  ∃ between, List.Forall₂ SameHeader headers between ∧ between.Perm headers'

def crlf : Text := ['\r', '\n']

/-- A request before its body: the request line, the header lines and the blank line. -/
def requestHead (requestLine : Text) (headers : List Text) : Text :=
  requestLine ++ crlf ++ headers.flatMap (· ++ crlf) ++ crlf

/-- The request arrives with `k` bytes of its body, more bytes may follow it. -/
def arrivalOf (requestLine : Text) (headers : List Text) (body : Text) (k : Nat) (more : Text)
    (ending : SocketEnd) : Arrival :=
  ⟨requestHead requestLine headers ++ body.take k, body.drop k ++ more, ending⟩

/-- A request as it should be, apart from the type of a body that is empty. -/
structure WellFormed (service : Service) (requestLine : Text) (headers : List Text)
    (body : Text) : Prop where
  accepted : ∃ target, readRequestLine service (requestLine ++ ['\r']) = .ok target
  oneLine : '\n' ∉ requestLine
  lines : ∀ header ∈ headers, header ≠ [] ∧ '\n' ∉ header
  once : Once headers
  length : valuesOf .contentLength headers = [] ∧ body = [] ∨
    ∃ value, valuesOf .contentLength headers = [value] ∧ IsDigits value ∧
      Nat.ofDigitChars 10 value 0 = body.length
  short : body.length < 2 ^ 31
  json : body ≠ [] → ∃ value ∈ valuesOf .contentType headers, IsJson value

/-- No header line says that the body is something else than JSON. -/
def OnlyJson (headers : List Text) : Prop :=
  ∀ value ∈ valuesOf .contentType headers, IsJson value

/-- What has been received, line by line up to the blank line. -/
structure Framed (received requestLine : Text) (lines : List Text) (rest : Text) : Prop where
  text : received = requestLine ++ '\n' :: (lines.flatMap (· ++ ['\n']) ++ (crlf ++ rest))
  oneLine : '\n' ∉ requestLine
  lines : ∀ line ∈ lines, line ≠ ['\r'] ∧ '\n' ∉ line

/-! ## Lines -/

theorem getline_line {line rest : Text} (h : '\n' ∉ line) :
    getline (line ++ '\n' :: rest) = some (line, rest) := by
  have hall : ∀ c ∈ line, decide (c ≠ '\n') = true := by
    intro c hc
    exact decide_eq_true fun heq => h (heq ▸ hc)
  have hget : getline (line ++ '\n' :: rest) =
      some ((line ++ '\n' :: rest).takeWhile (· ≠ '\n'),
        ((line ++ '\n' :: rest).dropWhile (· ≠ '\n')).tail) := by
    cases line with
    | nil => rfl
    | cons c line => rfl
  rw [hget, List.takeWhile_append_of_pos hall, List.dropWhile_append_of_pos hall]
  simp

theorem readHeaders_blank (auth : Bool) (seen : Headers) (rest : Text) :
    readHeaders auth seen (crlf ++ rest) = .ok (seen, rest) := by
  have hcr : getline (['\r'] ++ '\n' :: rest) = some (['\r'], rest) := getline_line (by decide)
  have hline : getline (crlf ++ rest) = some (['\r'], rest) := hcr
  rw [readHeaders]
  split
  · rename_i hend
    rw [hline] at hend
    cases hend
  · rename_i header rest' hget
    rw [hline] at hget
    cases hget
    rw [if_pos rfl]

/-- The loop goes through the lines in order and stops at the blank line. -/
theorem readHeaders_lines (auth : Bool) {lines : List Text}
    (h : ∀ line ∈ lines, line ≠ ['\r'] ∧ '\n' ∉ line) (seen : Headers) (rest : Text) :
    readHeaders auth seen (lines.flatMap (· ++ ['\n']) ++ (crlf ++ rest)) =
      (lines.foldlM (readHeader auth) seen).map fun seen => (seen, rest) := by
  induction lines generalizing seen with
  | nil => exact readHeaders_blank auth seen rest
  | cons line lines ih =>
    obtain ⟨hblank, hline⟩ := h line List.mem_cons_self
    have hrest := fun seen => ih (fun line hmem => h line (List.mem_cons_of_mem _ hmem)) seen
    have hget : getline ((line :: lines).flatMap (· ++ ['\n']) ++ (crlf ++ rest)) =
        some (line, lines.flatMap (· ++ ['\n']) ++ (crlf ++ rest)) := by
      rw [List.flatMap_cons, List.append_assoc, List.append_assoc]
      exact getline_line hline
    rw [readHeaders, List.foldlM_cons]
    split
    · rename_i hend
      rw [hget] at hend
      cases hend
    · rename_i header rest' hget'
      rw [hget] at hget'
      cases hget'
      rw [if_neg hblank]
      cases hread : readHeader auth seen line with
      | error why => rfl
      | ok seen' => exact hrest seen'

theorem blank_behind {line text : Text} (hline : '\n' ∉ line)
    (h : '\n' :: crlf <:+: line ++ '\n' :: text) : crlf <+: text ∨ '\n' :: crlf <:+: text := by
  induction line with
  | nil =>
    rcases List.infix_cons_iff.mp h with hstart | hlater
    · exact .inl (List.cons_prefix_cons.mp hstart).2
    · exact .inr hlater
  | cons c line ih =>
    rw [List.mem_cons, not_or] at hline
    rcases List.infix_cons_iff.mp h with hstart | hlater
    · exact absurd (List.cons_prefix_cons.mp hstart).1 hline.1
    · exact ih hline.2 hlater

theorem exists_line {text : Text} (h : '\n' ∈ text) :
    ∃ line rest, text = line ++ '\n' :: rest ∧ '\n' ∉ line := by
  obtain ⟨line, rest, htext, hline⟩ := List.eq_append_cons_of_mem h
  exact ⟨line, rest, htext, hline⟩

theorem exists_lines (text : Text) (h : crlf <+: text ∨ '\n' :: crlf <:+: text) :
    ∃ (lines : List Text) (rest : Text),
      text = lines.flatMap (· ++ ['\n']) ++ (crlf ++ rest) ∧
      ∀ line ∈ lines, line ≠ ['\r'] ∧ '\n' ∉ line := by
  have hbreak : '\n' ∈ text := by
    rcases h with hstart | hlater
    · exact hstart.subset (by decide)
    · exact hlater.subset List.mem_cons_self
  obtain ⟨line, after, htext, hline⟩ := exists_line hbreak
  by_cases hblank : line = ['\r']
  · refine ⟨[], after, ?_, nofun⟩
    rw [htext, hblank]
    rfl
  · have hafter : after.length < text.length := by
      rw [htext, List.length_append, List.length_cons]
      omega
    have hnext : crlf <+: after ∨ '\n' :: crlf <:+: after := by
      rcases h with ⟨rest, hstart⟩ | hlater
      · -- the first line would be the blank one
        have hfirst : getline (line ++ '\n' :: after) = some (line, after) := getline_line hline
        rw [← htext, ← hstart] at hfirst
        have hcr : getline (['\r'] ++ '\n' :: rest) = some (['\r'], rest) :=
          getline_line (by decide)
        rw [show getline (crlf ++ rest) = _ from hcr] at hfirst
        exact absurd (Prod.mk.inj (Option.some.inj hfirst)).1.symm hblank
      · rw [htext] at hlater
        exact blank_behind hline hlater
    obtain ⟨lines, rest, hrest, hlines⟩ := exists_lines after hnext
    refine ⟨line :: lines, rest, ?_, ?_⟩
    · rw [htext, hrest, List.flatMap_cons]
      simp
    · intro l hl
      rcases List.mem_cons.mp hl with rfl | hl
      · exact ⟨hblank, hline⟩
      · exact hlines l hl
termination_by text.length

/-- Whatever holds a blank line consists of lines up to the first one. -/
theorem exists_framed {received : Text} (h : ['\r', '\n', '\r', '\n'] <:+: received) :
    ∃ requestLine lines rest, Framed received requestLine lines rest := by
  have hlater : '\n' :: crlf <:+: received :=
    List.IsInfix.trans (List.suffix_cons '\r' ('\n' :: crlf)).isInfix h
  obtain ⟨requestLine, after, htext, hline⟩ := exists_line (hlater.subset List.mem_cons_self)
  have hnext := blank_behind hline (htext ▸ hlater)
  obtain ⟨lines, rest, hrest, hlines⟩ := exists_lines after hnext
  exact ⟨requestLine, lines, rest, ⟨by rw [htext, hrest], hline, hlines⟩⟩

/-! ## Names and values -/

theorem toLower_of_upper {c : Char} (h : 65 ≤ c.toNat ∧ c.toNat ≤ 90) :
    Char.ofNat (c.toNat ||| 0x20) = c.toLower := by
  have hletters : ∀ n < 26, Char.ofNat ((65 + n) ||| 0x20) = (Char.ofNat (65 + n)).toLower := by
    decide
  have hc := hletters (c.toNat - 65) (by omega)
  rwa [Nat.add_sub_cancel' h.1, Char.ofNat_toNat] at hc

theorem toLower_of_not_upper {c : Char} (h : ¬(65 ≤ c.toNat ∧ c.toNat ≤ 90)) : c.toLower = c :=
  dif_neg h

theorem isUpper_iff (c : Char) : ('A' ≤ c ∧ c ≤ 'Z') ↔ 65 ≤ c.toNat ∧ c.toNat ≤ 90 := Iff.rfl

theorem foldsTo_iff {ca cb : Char} (h : cb.toLower = cb) :
    foldsTo ca cb = true ↔ ca.toLower = cb := by
  rw [foldsTo, Bool.or_eq_true, Bool.and_eq_true, Bool.and_eq_true]
  simp only [decide_eq_true_eq]
  rw [isUpper_iff]
  by_cases hupper : 65 ≤ ca.toNat ∧ ca.toNat ≤ 90
  · rw [toLower_of_upper hupper]
    constructor
    · rintro (rfl | ⟨-, heq⟩)
      · exact h
      · exact heq
    · intro heq
      exact .inr ⟨hupper, heq⟩
  · rw [toLower_of_not_upper hupper]
    exact ⟨fun h => h.resolve_right fun h => hupper h.1, .inl⟩

theorem all_foldsTo_iff {a b : Text} (hb : b.map Char.toLower = b) (hle : b.length ≤ a.length) :
    ((a.zip b).all fun (ca, cb) => foldsTo ca cb) = true ↔
      (a.take b.length).map Char.toLower = b := by
  induction b generalizing a with
  | nil => simp
  | cons cb b ih =>
    cases a with
    | nil => exact absurd hle (Nat.not_succ_le_zero _)
    | cons ca a =>
      obtain ⟨hcb, hb⟩ := List.cons.inj hb
      rw [List.zip_cons_cons, List.all_cons, Bool.and_eq_true, foldsTo_iff hcb,
        ih hb (Nat.le_of_succ_le_succ hle), List.length_cons, List.take_succ_cons, List.map_cons,
        List.cons.injEq]

theorem iequalsHeaderName_iff {a b : Text} (hb : b.map Char.toLower = b) :
    iequalsHeaderName a b = true ↔ a.map Char.toLower = b := by
  rw [iequalsHeaderName, Bool.and_eq_true, decide_eq_true_eq]
  constructor
  · rintro ⟨hlen, hall⟩
    rwa [all_foldsTo_iff hb hlen.ge, ← hlen, List.take_length] at hall
  · intro h
    have hlen : a.length = b.length := by rw [← h, List.length_map]
    refine ⟨hlen, ?_⟩
    rwa [all_foldsTo_iff hb hlen.ge, ← hlen, List.take_length]

theorem validContentType_iff (value : Text) :
    validContentType value "application/json".toList = true ↔ IsJson value := by
  have hlower : "application/json".toList.map Char.toLower = "application/json".toList := by decide
  rw [validContentType, Bool.and_eq_true, Bool.and_eq_true, decide_eq_true_eq]
  constructor
  · rintro ⟨⟨hle, hall⟩, hend⟩
    rw [all_foldsTo_iff hlower hle] at hall
    refine ⟨value.take 16, value.drop 16, (List.take_append_drop 16 value).symm, ?_, ?_⟩
    · exact hall.trans hlower.symm
    · rw [Bool.or_eq_true, decide_eq_true_eq, decide_eq_true_eq] at hend
      rcases hend with hlen | hsemi
      · exact .inl (List.drop_eq_nil_of_le hlen.le)
      · exact .inr (by rw [List.head?_drop]; exact hsemi)
  · rintro ⟨mime, params, rfl, hmime, hparams⟩
    have hlen : mime.length = 16 := by
      have hcount := congrArg List.length hmime
      simpa using hcount
    have hle : "application/json".toList.length ≤ (mime ++ params).length := by
      rw [List.length_append, hlen]
      exact Nat.le_add_right 16 _
    refine ⟨⟨hle, ?_⟩, ?_⟩
    · rw [all_foldsTo_iff hlower hle]
      have htake : (mime ++ params).take "application/json".toList.length = mime :=
        List.take_left' hlen
      rw [htake]
      exact hmime.trans hlower
    · rw [Bool.or_eq_true, decide_eq_true_eq, decide_eq_true_eq]
      rcases hparams with rfl | hsemi
      · exact .inl (by rw [List.append_nil]; exact hlen)
      · right
        have hat : (mime ++ params)["application/json".toList.length]? = params[0]? := by
          refine (List.getElem?_append_right hlen.le).trans ?_
          rw [hlen]
        rw [hat, ← List.head?_eq_getElem?]
        exact hsemi

theorem splitHeader_colon {name : Text} (value : Text) (h : ':' ∉ name) :
    splitHeader (name ++ ':' :: value) = some (name, trim value) := by
  have hall : ∀ c ∈ name, decide (c ≠ ':') = true := by
    intro c hc
    exact decide_eq_true fun heq => h (heq ▸ hc)
  rw [splitHeader, List.span_eq_takeWhile_dropWhile, List.takeWhile_append_of_pos hall,
    List.dropWhile_append_of_pos hall]
  simp

theorem splitHeader_none {header : Text} (h : ':' ∉ header) : splitHeader header = none := by
  have hall : ∀ c ∈ header, decide (c ≠ ':') = true := by
    intro c hc
    exact decide_eq_true fun heq => h (heq ▸ hc)
  rw [splitHeader, List.span_eq_takeWhile_dropWhile, List.dropWhile_eq_nil_iff.mpr hall]

theorem trim_cr (value : Text) : trim (value ++ ['\r']) = trim value := by
  rw [trim, trim]
  by_cases hblank : ∀ c ∈ value, isBlank c = true
  · rw [List.dropWhile_append_of_pos hblank, List.dropWhile_eq_nil_iff.mpr hblank]
    rfl
  · have hne : value.dropWhile isBlank ≠ [] := fun h => hblank (List.dropWhile_eq_nil_iff.mp h)
    rw [List.dropWhile_append, if_neg (by rwa [List.isEmpty_iff]),
      List.rdropWhile_concat_pos _ _ _ (by rfl)]

theorem splitHeader_cr (header : Text) : splitHeader (header ++ ['\r']) = splitHeader header := by
  by_cases hcolon : ':' ∈ header
  · obtain ⟨name, value, rfl, hname⟩ := List.eq_append_cons_of_mem hcolon
    rw [List.append_assoc, List.cons_append, splitHeader_colon _ hname,
      splitHeader_colon _ hname, trim_cr]
  · rw [splitHeader_none hcolon, splitHeader_none]
    rw [List.mem_append, not_or]
    exact ⟨hcolon, by decide⟩

theorem valuesOf_append (name : HeaderName) (headers headers' : List Text) :
    valuesOf name (headers ++ headers') = valuesOf name headers ++ valuesOf name headers' :=
  List.filterMap_append

theorem valuesOf_cr (name : HeaderName) (headers : List Text) :
    valuesOf name (headers.map (· ++ ['\r'])) = valuesOf name headers := by
  rw [valuesOf, valuesOf, List.filterMap_map]
  congr 1
  funext header
  rw [Function.comp_apply, valueIn, valueIn, splitHeader_cr]

theorem SameHeader.value_eq {header header' : Text} (h : SameHeader header header')
    (name : HeaderName) :
    valueIn name header = valueIn name header' := by
  rcases h with rfl | ⟨name₁, name₂, value, rfl, rfl, hname₁, hname₂, hsame⟩
  · rfl
  · rw [valueIn, valueIn, splitHeader_colon _ hname₁, splitHeader_colon _ hname₂]
    simp only
    rw [show name₁.map Char.toLower = name₂.map Char.toLower from hsame]

theorem SameHeaders.values_perm {headers headers' : List Text} (h : SameHeaders headers headers')
    (name : HeaderName) : (valuesOf name headers).Perm (valuesOf name headers') := by
  obtain ⟨between, hsame, hperm⟩ := h
  have hvalues : valuesOf name headers = valuesOf name between := by
    clear hperm
    induction hsame with
    | nil => rfl
    | cons hhead _ hrest =>
      rw [valuesOf, valuesOf, List.filterMap_cons, List.filterMap_cons,
        hhead.value_eq name]
      rw [valuesOf, valuesOf] at hrest
      rw [hrest]
  rw [hvalues]
  exact hperm.filterMap _

theorem SameHeaders.values_eq {headers headers' : List Text} (h : SameHeaders headers headers')
    {name : HeaderName} (honce : (valuesOf name headers).length ≤ 1) :
    valuesOf name headers = valuesOf name headers' := by
  have hperm := h.values_perm name
  generalize valuesOf name headers = values at hperm honce
  rcases values with _ | ⟨value, _ | ⟨value', values⟩⟩
  · exact (List.Perm.nil_eq hperm)
  · exact (List.perm_singleton.mp hperm.symm).symm
  · exact absurd honce (by simp)

/-! ## The members that the headers determine -/

def tokenOf (value : Text) : Text :=
  if kBearerPrefix <+: value then value.drop kBearerPrefix.length else []

def levelOf (value : Text) : DetailLevel := (DetailLevel.reverseMap.lookup value).getD .unset

def contentLengthOf (value : Text) : Nat :=
  match readContentLength value with
  | .ok n => n
  | .error _ => 0

def headersOf (auth : Bool) (headers : List Text) : Headers where
  jwsToken :=
    if auth then (valuesOf .authorization headers).head?.elim [] tokenOf else []
  origin := (valuesOf .origin headers).head?.getD []
  detailLevel := (valuesOf .detailLevel headers).head?.elim .unset levelOf
  requestStart := (valuesOf .requestStart headers).head?.elim 0 (readTimestamp · 0)
  contentLength := (valuesOf .contentLength headers).head?.elim 0 contentLengthOf
  hasContentType := (valuesOf .contentType headers).head?.isSome

theorem headersOf_congr (auth : Bool) {headers headers' : List Text}
    (h : ∀ name, valuesOf name headers = valuesOf name headers') :
    headersOf auth headers = headersOf auth headers' := by
  simp only [headersOf, h]

theorem HeaderName.text_injective {name name' : HeaderName} (h : name.text = name'.text) :
    name = name' := by
  cases name <;> cases name' <;> first | rfl | exact absurd h (by decide)

theorem HeaderName.text_lower (name : HeaderName) : name.text.map Char.toLower = name.text := by
  cases name <;> decide

theorem iequals_text {name : Text} {known : HeaderName}
    (h : name.map Char.toLower = known.text) (other : HeaderName) :
    iequalsHeaderName name other.text = decide (known = other) := by
  rw [Bool.eq_iff_iff, decide_eq_true_eq, iequalsHeaderName_iff other.text_lower, h]
  exact ⟨HeaderName.text_injective, congrArg _⟩

/-- What the header with a recognised name does. -/
def HeaderName.put (known : HeaderName) (auth : Bool) (seen : Headers) (value : Text) :
    Except ReadFailure Headers :=
  match known with
  | .authorization =>
      .ok (if auth ∧ seen.jwsToken = [] ∧ kBearerPrefix <+: value then
        { seen with jwsToken := value.drop kBearerPrefix.length } else seen)
  | .origin => .ok (if seen.origin = [] then { seen with origin := value } else seen)
  | .detailLevel =>
      .ok (if seen.detailLevel = .unset then { seen with detailLevel := levelOf value } else seen)
  | .requestStart =>
      .ok (if seen.requestStart = 0 then
        { seen with requestStart := readTimestamp value 0 } else seen)
  | .contentLength =>
      if seen.contentLength = 0 then
        (readContentLength value).map fun contentLength => { seen with contentLength }
      else .ok seen
  | .contentType =>
      if validContentType value "application/json".toList then
        .ok { seen with hasContentType := true }
      else .error (.withStatus ⟨"Invalid Content-Type", .invalidArgument⟩)

/-- The chain of comparisons finds the header by its name, whatever was seen before. -/
theorem readHeader_known (auth : Bool) (seen : Headers) {header name value : Text}
    {known : HeaderName} (hsplit : splitHeader header = some (name, value))
    (h : name.map Char.toLower = known.text) :
    readHeader auth seen header = known.put auth seen value := by
  have h₁ : iequalsHeaderName name "authorization".toList = _ := iequals_text h .authorization
  have h₂ : iequalsHeaderName name "origin".toList = _ := iequals_text h .origin
  have h₃ : iequalsHeaderName name "detail-level".toList = _ := iequals_text h .detailLevel
  have h₄ : iequalsHeaderName name "request-start".toList = _ := iequals_text h .requestStart
  have h₅ : iequalsHeaderName name "content-length".toList = _ := iequals_text h .contentLength
  have h₆ : iequalsHeaderName name "content-type".toList = _ := iequals_text h .contentType
  simp only [readHeader, hsplit, h₁, h₂, h₃, h₄, h₅, h₆]
  cases known with
  | authorization =>
    by_cases hfirst : auth = true ∧ seen.jwsToken = []
    · simp [HeaderName.put, hfirst]
    · simp [HeaderName.put, ← and_assoc, hfirst]
  | origin => by_cases hfirst : seen.origin = [] <;> simp [HeaderName.put, hfirst]
  | detailLevel =>
    by_cases hfirst : seen.detailLevel = .unset <;> simp [HeaderName.put, hfirst, levelOf]
  | requestStart => by_cases hfirst : seen.requestStart = 0 <;> simp [HeaderName.put, hfirst]
  | contentLength =>
    simp only [reduceCtorEq, decide_false, Bool.false_eq_true, and_false, if_false, decide_true,
      and_true, HeaderName.put]
    cases readContentLength value with
    | error why => rfl
    | ok n => rfl
  | contentType =>
    simp only [reduceCtorEq, decide_false, Bool.false_eq_true, and_false, if_false, decide_true,
      HeaderName.put, if_true]

theorem readHeader_unknown (auth : Bool) (seen : Headers) {header name value : Text}
    (hsplit : splitHeader header = some (name, value))
    (h : ∀ known : HeaderName, name.map Char.toLower ≠ known.text) :
    readHeader auth seen header = .ok seen := by
  have hother : ∀ known : HeaderName, iequalsHeaderName name known.text = false := by
    intro known
    rw [Bool.eq_false_iff, ne_eq, iequalsHeaderName_iff known.text_lower]
    exact h known
  have h₁ : iequalsHeaderName name "authorization".toList = false := hother .authorization
  have h₂ : iequalsHeaderName name "origin".toList = false := hother .origin
  have h₃ : iequalsHeaderName name "detail-level".toList = false := hother .detailLevel
  have h₄ : iequalsHeaderName name "request-start".toList = false := hother .requestStart
  have h₅ : iequalsHeaderName name "content-length".toList = false := hother .contentLength
  have h₆ : iequalsHeaderName name "content-type".toList = false := hother .contentType
  simp only [readHeader, hsplit, h₁, h₂, h₃, h₄, h₅, h₆, Bool.false_eq_true, and_false, if_false]

/-- A header line is passed over, or has one of the names. -/
theorem readHeader_cases (auth : Bool) (header : Text) :
    ((∀ seen, readHeader auth seen header = .ok seen) ∧ ∀ name, valueIn name header = none) ∨
    ∃ known value, (∀ seen, readHeader auth seen header = known.put auth seen value) ∧
      ∀ name, valueIn name header = if name = known then some value else none := by
  cases hsplit : splitHeader header with
  | none =>
    left
    constructor
    · intro seen
      simp only [readHeader, hsplit]
    · intro name
      simp only [valueIn, hsplit]
  | some line =>
    obtain ⟨name, value⟩ := line
    by_cases hknown : ∃ known : HeaderName, name.map Char.toLower = known.text
    · right
      obtain ⟨known, hname⟩ := hknown
      refine ⟨known, value, fun seen => readHeader_known auth seen hsplit hname, ?_⟩
      intro other
      simp only [valueIn, hsplit, hname]
      by_cases heq : other = known
      · rw [heq, if_pos rfl, if_pos rfl]
      · rw [if_neg heq, if_neg fun h => heq (HeaderName.text_injective h).symm]
    · left
      rw [not_exists] at hknown
      refine ⟨fun seen => readHeader_unknown auth seen hsplit hknown, ?_⟩
      intro other
      simp only [valueIn, hsplit, if_neg (hknown other)]

/-- One header more, when it is the first with its name and says something sound. -/
theorem readHeader_headersOf (auth : Bool) {headers : List Text} {header : Text}
    (honce : Once (headers ++ [header]))
    (hlength : ∀ value, valueIn .contentLength header = some value →
      ∃ n, readContentLength value = .ok n)
    (hjson : ∀ value, valueIn .contentType header = some value → IsJson value) :
    readHeader auth (headersOf auth headers) header =
      .ok (headersOf auth (headers ++ [header])) := by
  have hlast : ∀ name, valuesOf name (headers ++ [header]) =
      valuesOf name headers ++ (valueIn name header).toList := by
    intro name
    rw [valuesOf_append]
    congr 1
  rcases readHeader_cases auth header with ⟨hread, hnone⟩ | ⟨known, value, hread, hvalue⟩
  · have hsame : headersOf auth (headers ++ [header]) = headersOf auth headers := by
      apply headersOf_congr
      intro name
      rw [hlast, hnone, Option.toList_none, List.append_nil]
    rw [hread, hsame]
  · have hfirst : valuesOf known headers = [] := by
      have hone := honce known
      rw [hlast, hvalue, if_pos rfl, List.length_append, Option.toList_some,
        List.length_singleton] at hone
      exact List.length_eq_zero_iff.mp (by omega)
    rw [hread]
    cases known with
    | authorization =>
      cases auth with
      | false => simp [HeaderName.put, headersOf, hlast, hvalue]
      | true =>
        by_cases hbearer : kBearerPrefix <+: value <;>
          simp [HeaderName.put, headersOf, hlast, hvalue, hfirst, tokenOf, hbearer]
    | origin => simp [HeaderName.put, headersOf, hlast, hvalue, hfirst]
    | detailLevel => simp [HeaderName.put, headersOf, hlast, hvalue, hfirst]
    | requestStart => simp [HeaderName.put, headersOf, hlast, hvalue, hfirst]
    | contentLength =>
      obtain ⟨n, hn⟩ := hlength value (by rw [hvalue, if_pos rfl])
      simp [HeaderName.put, headersOf, hlast, hvalue, hfirst, hn, contentLengthOf, Except.map]
    | contentType =>
      have hvalid := (validContentType_iff value).mpr (hjson value (by rw [hvalue, if_pos rfl]))
      simp only [HeaderName.put, hvalid]
      simp [headersOf, hlast, hvalue, hfirst]

/-! ## The declared length -/

theorem takeWhile_eq_of_length {p : Char → Bool} {text : Text}
    (h : text.length ≤ (text.takeWhile p).length) : text.takeWhile p = text :=
  (List.takeWhile_sublist p).eq_of_length_le h

def Signed (text sign rest : Text) : Prop :=
  text = sign ++ rest ∧ (sign = ['-'] ∨ sign = ['+'] ∨
    sign = [] ∧ rest.head? ≠ some '-' ∧ rest.head? ≠ some '+')

theorem exists_signed (text : Text) : ∃ sign rest, Signed text sign rest := by
  cases text with
  | nil => exact ⟨[], [], rfl, .inr (.inr ⟨rfl, nofun, nofun⟩)⟩
  | cons c text =>
    by_cases hminus : c = '-'
    · exact ⟨['-'], text, by rw [hminus]; rfl, .inl rfl⟩
    by_cases hplus : c = '+'
    · exact ⟨['+'], text, by rw [hplus]; rfl, .inr (.inl rfl)⟩
    · refine ⟨[], c :: text, rfl, .inr (.inr ⟨rfl, ?_, ?_⟩)⟩
      · exact fun h => hminus (Option.some.inj h)
      · exact fun h => hplus (Option.some.inj h)

def magnitude (digits : Text) : Int :=
  digits.foldl (fun n c => 10 * n + (c.toNat - '0'.toNat)) 0

theorem magnitude_eq {digits : Text} (h : ∀ c ∈ digits, c.isDigit = true) :
    magnitude digits = Nat.ofDigitChars 10 digits 0 :=
  foldl_digits h 0

def signedBy (sign : Text) (n : Int) : Int := if sign = ['-'] then -n else n

theorem stoiProcessed_signed {text sign rest : Text}
    (h : Signed (text.dropWhile isSpace) sign rest) :
    stoiProcessed text =
      if rest.takeWhile Char.isDigit = [] ∨
          signedBy sign (magnitude (rest.takeWhile Char.isDigit)) < -2 ^ 31 ∨
          2 ^ 31 ≤ signedBy sign (magnitude (rest.takeWhile Char.isDigit)) then none
      else some (signedBy sign (magnitude (rest.takeWhile Char.isDigit)),
        (text.takeWhile isSpace).length + sign.length + (rest.takeWhile Char.isDigit).length) := by
  obtain ⟨htext, hsign⟩ := h
  rw [stoiProcessed, stoi, htext]
  rcases hsign with rfl | rfl | ⟨rfl, hminus, hplus⟩
  · simp only [List.cons_append, List.nil_append, List.head?_cons, true_or, if_true,
      List.tail_cons, List.drop_succ_cons, List.drop_zero, List.length_singleton, magnitude,
      signedBy]
    split <;> rfl
  · simp only [List.cons_append, List.nil_append, List.head?_cons, or_true, if_true,
      List.tail_cons, List.drop_succ_cons, List.drop_zero, List.length_singleton, magnitude,
      signedBy, show ¬some '+' = some '-' by decide, show ¬['+'] = ['-'] by decide, if_false]
    split <;> rfl
  · simp only [List.nil_append, hminus, hplus, or_self, if_false, List.drop_zero,
      List.length_nil, magnitude, signedBy, show ¬([] : Text) = ['-'] by decide]
    split <;> rfl

/-- What `std::stoi` reads when it reads all of a text. -/
theorem stoiProcessed_whole {text : Text} {number : Int} {processed : Nat}
    (h : stoiProcessed text = some (number, processed)) (hall : text.length ≤ processed) :
    ∃ spaces sign digits, text = spaces ++ sign ++ digits ∧ (∀ c ∈ spaces, isSpace c = true) ∧
      (sign = [] ∨ sign = ['+'] ∨ sign = ['-']) ∧ IsDigits digits ∧
      number = signedBy sign (Nat.ofDigitChars 10 digits 0) ∧ -2 ^ 31 ≤ number ∧
      number < 2 ^ 31 := by
  obtain ⟨sign, rest, hsigned⟩ := exists_signed (text.dropWhile isSpace)
  rw [stoiProcessed_signed hsigned] at h
  split at h
  · cases h
  rename_i hrange
  simp only [not_or] at hrange
  obtain ⟨hnumber, hprocessed⟩ := Prod.mk.inj (Option.some.inj h)
  have hsplit := (List.takeWhile_append_dropWhile (p := isSpace) (l := text)).symm
  rw [hsigned.1] at hsplit
  have hlength := congrArg List.length hsplit
  rw [List.length_append, List.length_append] at hlength
  have hwhole : rest.takeWhile Char.isDigit = rest := takeWhile_eq_of_length (by omega)
  have hdigits : ∀ c ∈ rest, c.isDigit = true := List.takeWhile_eq_self_iff.mp hwhole
  rw [hwhole, magnitude_eq hdigits] at hnumber hrange
  refine ⟨text.takeWhile isSpace, sign, rest, ?_, ?_, ?_, ⟨hrange.1, hdigits⟩, hnumber.symm, ?_⟩
  · rw [List.append_assoc]
    exact hsplit
  · exact fun c hc => List.mem_takeWhile_imp hc
  · rcases hsigned.2 with hminus | hplus | ⟨hnone, -⟩
    · exact .inr (.inr hminus)
    · exact .inr (.inl hplus)
    · exact .inl hnone
  · rw [← hnumber]
    exact ⟨Int.not_lt.mp hrange.2.1, Int.not_le.mp hrange.2.2⟩

/-- What a `Content-Length` says when it is accepted. -/
theorem declares_of_readContentLength {value : Text} {n : Nat}
    (h : readContentLength value = .ok n) : Declares value n ∨ maxSize < n := by
  simp only [readContentLength] at h
  split at h
  · cases h
  split at h
  · cases h
  rename_i number processed hstoi
  split at h
  · cases h
  rename_i hall
  obtain rfl := Except.ok.inj h
  obtain ⟨spaces, sign, digits, htext, hspaces, hsign, hdigits, hnumber, hlow, hhigh⟩ :=
    stoiProcessed_whole hstoi (Nat.le_of_not_lt hall)
  by_cases hnegative : number < 0
  · right
    rw [maxSize]
    omega
  · left
    refine ⟨spaces, sign, digits, htext, hspaces, ?_, hdigits, ?_⟩
    · rcases hsign with hnone | hplus | hminus
      · exact .inl hnone
      · exact .inr (.inl hplus)
      · rw [signedBy, if_pos hminus] at hnumber
        exact .inr (.inr ⟨hminus, by omega⟩)
    · have habs : number = Nat.ofDigitChars 10 digits 0 := by
        rw [signedBy] at hnumber
        split at hnumber
        · omega
        · exact hnumber
      omega

/-- Decimal digits that fit are accepted. -/
theorem readContentLength_of_isDigits {value : Text} (h : IsDigits value)
    (hfits : Nat.ofDigitChars 10 value 0 < 2 ^ 31) :
    readContentLength value = .ok (Nat.ofDigitChars 10 value 0) := by
  have hspaces : ∀ c ∈ value, isSpace c = false := fun c hc => isSpace_of_isDigit (h.2 c hc)
  have hrest : value.dropWhile isSpace = value ∧ value.takeWhile isSpace = [] := by
    cases value with
    | nil => exact ⟨rfl, rfl⟩
    | cons c value =>
      have hc : ¬isSpace c = true := by
        rw [hspaces c List.mem_cons_self]
        decide
      exact ⟨List.dropWhile_cons_of_neg hc, List.takeWhile_cons_of_neg hc⟩
  have hhead : ∀ c, value.head? = some c → c.isDigit = true := by
    intro c hc
    exact h.2 c (List.mem_of_head? hc)
  have hminus : value.head? ≠ some '-' := fun hc => absurd (hhead _ hc) (by decide)
  have hplus : value.head? ≠ some '+' := fun hc => absurd (hhead _ hc) (by decide)
  have hsigned : Signed (value.dropWhile isSpace) [] value :=
    ⟨hrest.1, .inr (.inr ⟨rfl, hminus, hplus⟩)⟩
  have hall : value.takeWhile Char.isDigit = value := List.takeWhile_eq_self_iff.mpr h.2
  have hstoi : stoiProcessed value =
      some ((Nat.ofDigitChars 10 value 0 : Int), value.length) := by
    have hplain : signedBy [] (Nat.ofDigitChars 10 value 0) = Nat.ofDigitChars 10 value 0 :=
      if_neg (by decide)
    rw [stoiProcessed_signed hsigned, hall, magnitude_eq h.2, hplain, hrest.2, if_neg]
    · simp
    · rw [not_or]
      exact ⟨h.1, by omega⟩
  simp only [readContentLength, h.1, hminus, or_self, if_false, hstoi, Nat.lt_irrefl]
  have hsize : ((Nat.ofDigitChars 10 value 0 : Int) % 2 ^ 64).toNat =
      Nat.ofDigitChars 10 value 0 := by
    omega
  rw [hsize]

/-- A header line changes the declared length only by its own value. -/
theorem readHeader_contentLength {auth : Bool} {seen seen' : Headers} {header : Text}
    (h : readHeader auth seen header = .ok seen') :
    match valueIn .contentLength header with
    | none => seen'.contentLength = seen.contentLength
    | some value => seen.contentLength = 0 → readContentLength value = .ok seen'.contentLength := by
  rcases readHeader_cases auth header with ⟨hread, hnone⟩ | ⟨known, value, hread, hvalue⟩
  · rw [hread] at h
    rw [hnone, ← Except.ok.inj h]
  · rw [hread] at h
    rw [hvalue]
    cases known with
    | authorization =>
      obtain rfl := Except.ok.inj h
      simp only [reduceCtorEq, if_false]
      split <;> rfl
    | origin =>
      obtain rfl := Except.ok.inj h
      simp only [reduceCtorEq, if_false]
      split <;> rfl
    | detailLevel =>
      obtain rfl := Except.ok.inj h
      simp only [reduceCtorEq, if_false]
      split <;> rfl
    | requestStart =>
      obtain rfl := Except.ok.inj h
      simp only [reduceCtorEq, if_false]
      split <;> rfl
    | contentLength =>
      simp only [if_true]
      intro hzero
      simp only [HeaderName.put, hzero, if_true] at h
      cases hn : readContentLength value with
      | error why =>
        rw [hn] at h
        cases h
      | ok n =>
        rw [hn] at h
        rw [← Except.ok.inj h]
    | contentType =>
      simp only [reduceCtorEq, if_false]
      simp only [HeaderName.put] at h
      split at h
      · rw [← Except.ok.inj h]
      · cases h

/-- After all header lines the declared length is that of the only one that declares it. -/
theorem contentLength_of_run {auth : Bool} {lines : List Text} {seen seen' : Headers}
    (h : lines.foldlM (readHeader auth) seen = .ok seen') :
    (valuesOf .contentLength lines = [] → seen'.contentLength = seen.contentLength) ∧
    ∀ value, valuesOf .contentLength lines = [value] → seen.contentLength = 0 →
      readContentLength value = .ok seen'.contentLength := by
  induction lines generalizing seen with
  | nil =>
    obtain rfl := Except.ok.inj h
    exact ⟨fun _ => rfl, nofun⟩
  | cons line lines ih =>
    obtain ⟨seen₁, hline, hlines⟩ := foldlM_cons_ok h
    obtain ⟨hnone, hone⟩ := ih hlines
    have hstep := readHeader_contentLength hline
    cases hvalue : valueIn .contentLength line with
    | none =>
      have hvalues : valuesOf .contentLength (line :: lines) = valuesOf .contentLength lines := by
        rw [valuesOf, List.filterMap_cons, hvalue]
        rfl
      rw [hvalue] at hstep
      simp only at hstep
      rw [hvalues]
      refine ⟨fun hnil => (hnone hnil).trans hstep, ?_⟩
      intro value hsingle hzero
      exact hone value hsingle (hstep.trans hzero)
    | some value =>
      have hvalues : valuesOf .contentLength (line :: lines) =
          value :: valuesOf .contentLength lines := by
        rw [valuesOf, List.filterMap_cons, hvalue]
        rfl
      rw [hvalue] at hstep
      rw [hvalues]
      refine ⟨nofun, ?_⟩
      intro value' hsingle hzero
      obtain ⟨rfl, hrest⟩ := List.cons.inj hsingle
      rw [hstep hzero, hnone hrest]

/-! ## The body -/

/-- When the body is read it has the declared length, and it is what follows the blank line. -/
theorem readBody_ok {arrival : Arrival} {seen : Headers} {rest body : Text}
    (h : readBody arrival seen rest = .ok body) :
    body = (rest ++ arrival.later).take seen.contentLength ∧
      seen.contentLength ≤ (rest ++ arrival.later).length ∧ seen.contentLength ≤ maxSize := by
  simp only [readBody] at h
  split at h
  · cases h
  rename_i hfits
  split at h
  · cases h
  rename_i hempty
  rw [List.length_append]
  split at h
  · split at h
    · cases h
    split at h
    · rename_i hshort
      simp only [Arrival.read] at h
      split at h
      · cases h
      · rename_i more hmore
        split at hmore
        · rename_i henough
          obtain rfl := Except.ok.inj hmore
          split at h
          · cases h
          · rename_i hlong
            obtain rfl := Except.ok.inj h
            rw [List.length_append, List.length_take] at hlong
            refine ⟨?_, by omega, by omega⟩
            rw [List.take_append, List.take_of_length_le (l := rest) hshort.le]
        · cases hmore
    · split at h
      · cases h
      · obtain rfl := Except.ok.inj h
        refine ⟨?_, by omega, by omega⟩
        rw [List.take_left' (by omega)]
  · obtain rfl := Except.ok.inj h
    have hzero : seen.contentLength = 0 := by omega
    have hnil : rest = [] := List.length_eq_zero_iff.mp (by omega)
    refine ⟨?_, by omega, by omega⟩
    rw [hzero, hnil, List.take_zero]

/-- The body is put together wherever it was cut. -/
theorem readBody_take (received : Text) (body more : Text) (k : Nat) (ending : SocketEnd)
    {seen : Headers} (hlength : seen.contentLength = body.length) (hfits : body.length ≤ maxSize)
    (htype : body ≠ [] → seen.hasContentType = true) :
    readBody ⟨received, body.drop k ++ more, ending⟩ seen (body.take k) = .ok body := by
  have htake : (body.take k).length ≤ body.length := List.length_take_le' k body
  by_cases hnil : body = []
  · subst hnil
    simp [readBody, hlength]
  · have hpos := List.length_pos_iff.mpr hnil
    simp only [readBody, hlength]
    rw [if_neg (by omega), if_neg (by omega), if_pos hpos, htype hnil,
      if_neg (by decide)]
    by_cases hk : k < body.length
    · have hmissing : body.length - (body.take k).length = (body.drop k).length := by
        rw [List.length_take, List.length_drop]
        omega
      have hread : Arrival.read ⟨received, body.drop k ++ more, ending⟩ (body.drop k).length =
          .ok (body.drop k) := by
        rw [Arrival.read, if_pos (by rw [List.length_append]; omega), List.take_left]
      have hshort : (body.take k).length < body.length := by
        rw [List.length_take]
        omega
      rw [if_pos hshort, hmissing, hread]
      simp only [List.take_append_drop]
      rw [if_neg (by omega)]
    · rw [List.take_of_length_le (Nat.le_of_not_lt hk), if_neg (Nat.lt_irrefl _),
        if_neg (Nat.lt_irrefl _)]

/-! ## Reading a request -/

theorem Once.append_left {headers headers' : List Text} (h : Once (headers ++ headers')) :
    Once headers := by
  intro name
  have hall := h name
  rw [valuesOf_append, List.length_append] at hall
  omega

/-- The loop over sound headers collects what they say. -/
theorem foldlM_headersOf (auth : Bool) {seen headers : List Text} (honce : Once (seen ++ headers))
    (hlength : ∀ value ∈ valuesOf .contentLength headers, ∃ n, readContentLength value = .ok n)
    (hjson : OnlyJson headers) :
    headers.foldlM (readHeader auth) (headersOf auth seen) =
      .ok (headersOf auth (seen ++ headers)) := by
  induction headers generalizing seen with
  | nil =>
    rw [List.append_nil]
    rfl
  | cons header headers ih =>
    have hassoc : seen ++ header :: headers = (seen ++ [header]) ++ headers := by simp
    rw [hassoc] at honce ⊢
    have hmem : ∀ {name value}, valueIn name header = some value →
        value ∈ valuesOf name (header :: headers) := by
      intro name value hvalue
      exact List.mem_filterMap.mpr ⟨header, List.mem_cons_self, hvalue⟩
    have htail : ∀ {name value}, value ∈ valuesOf name headers →
        value ∈ valuesOf name (header :: headers) := by
      intro name value hvalue
      obtain ⟨header', hmem', heq⟩ := List.mem_filterMap.mp hvalue
      exact List.mem_filterMap.mpr ⟨header', List.mem_cons_of_mem _ hmem', heq⟩
    have hread := readHeader_headersOf auth honce.append_left
      (fun value hvalue => hlength value (hmem hvalue))
      (fun value hvalue => hjson value (hmem hvalue))
    rw [List.foldlM_cons, hread]
    exact ih honce (fun value hvalue => hlength value (htail hvalue))
      fun value hvalue => hjson value (htail hvalue)

/-- The members after a request has been read. -/
def requestOf (auth : Bool) (target : RESTMethod × SocketReader × List (Text × Text))
    (fields : List (Text × Text)) (now : Int) (headers : List Text) (body : Text) :
    SocketReader.Request :=
  let seen := headersOf auth headers
  { target.2.1 with
    method := target.1
    fields := target.2.2.foldl (fun fields param => setEntry fields param.1 param.2) fields
    origin := seen.origin
    detailLevel := if seen.detailLevel = .unset then .none else seen.detailLevel
    jwsToken := seen.jwsToken
    jsonBody := body
    requestStart := seen.requestStart
    requestReceived := now }

theorem Framed.read_eq {arrival : Arrival} {requestLine rest : Text} {lines : List Text}
    (h : Framed arrival.received requestLine lines rest)
    (hblank : ['\r', '\n', '\r', '\n'] <:+: arrival.received) (service : Service)
    (fields : List (Text × Text)) (now : Int) :
    SocketReader.read service fields now arrival = do
      let target ← readRequestLine service requestLine
      let seen ← lines.foldlM (readHeader service.authorizationEnabled) {}
      let body ← readBody arrival seen rest
      return { target.2.1 with
        method := target.1
        fields := target.2.2.foldl (fun fields param => setEntry fields param.1 param.2) fields
        origin := seen.origin
        detailLevel := if seen.detailLevel = .unset then .none else seen.detailLevel
        jwsToken := seen.jwsToken
        jsonBody := body
        requestStart := seen.requestStart
        requestReceived := now } := by
  have hfirst : getline arrival.received =
      some (requestLine, lines.flatMap (· ++ ['\n']) ++ (crlf ++ rest)) := by
    rw [h.text]
    exact getline_line h.oneLine
  have hbuffer : arrival.readUntil ['\r', '\n', '\r', '\n'] = .ok arrival.received := if_pos hblank
  rw [SocketReader.read, hbuffer]
  simp only [bind, Except.bind, hfirst, Option.getD_some, readHeaders_lines _ h.lines]
  cases readRequestLine service requestLine with
  | error why => rfl
  | ok target =>
    cases lines.foldlM (readHeader service.authorizationEnabled) {} with
    | error why => rfl
    | ok seen => rfl

theorem ends_with_crlf (requestLine : Text) (headers : List Text) :
    crlf <:+ requestLine ++ crlf ++ headers.flatMap (· ++ crlf) := by
  induction headers using List.reverseRecOn with
  | nil =>
    rw [List.flatMap_nil, List.append_nil]
    exact List.suffix_append requestLine crlf
  | append_singleton headers header _ =>
    rw [List.flatMap_append, List.flatMap_singleton, ← List.append_assoc, ← List.append_assoc]
    exact List.suffix_append _ crlf

theorem framed_arrivalOf {requestLine : Text} {headers : List Text} (hline : '\n' ∉ requestLine)
    (hlines : ∀ header ∈ headers, header ≠ [] ∧ '\n' ∉ header) (body : Text) (k : Nat)
    (more : Text) (ending : SocketEnd) :
    Framed (arrivalOf requestLine headers body k more ending).received (requestLine ++ ['\r'])
      (headers.map (· ++ ['\r'])) (body.take k) := by
  refine ⟨?_, ?_, ?_⟩
  · rw [List.flatMap_map]
    simp [arrivalOf, requestHead, crlf]
  · rw [List.mem_append, not_or]
    exact ⟨hline, by decide⟩
  · intro line hmem
    obtain ⟨header, hheader, rfl⟩ := List.mem_map.mp hmem
    obtain ⟨hne, hbreak⟩ := hlines header hheader
    constructor
    · intro heq
      exact hne (List.append_left_eq_self.mp heq)
    · rw [List.mem_append, not_or]
      exact ⟨hbreak, by decide⟩

theorem blank_arrivalOf (requestLine : Text) (headers : List Text) (body : Text) (k : Nat)
    (more : Text) (ending : SocketEnd) :
    ['\r', '\n', '\r', '\n'] <:+: (arrivalOf requestLine headers body k more ending).received := by
  obtain ⟨before, hbefore⟩ := ends_with_crlf requestLine headers
  refine ⟨before, body.take k, ?_⟩
  rw [arrivalOf, requestHead, ← hbefore]
  simp [crlf]

/-- A request is read to its members, wherever its body was cut. -/
theorem WellFormed.read_eq {service : Service} {requestLine : Text} {headers : List Text}
    {body : Text} (h : WellFormed service requestLine headers body) (hjson : OnlyJson headers)
    {target : RESTMethod × SocketReader × List (Text × Text)}
    (htarget : readRequestLine service (requestLine ++ ['\r']) = .ok target)
    (fields : List (Text × Text)) (now : Int) (k : Nat) (more : Text) (ending : SocketEnd) :
    SocketReader.read service fields now (arrivalOf requestLine headers body k more ending) =
      .ok (requestOf service.authorizationEnabled target fields now headers body) := by
  have hframed := framed_arrivalOf h.oneLine h.lines body k more ending
  have hblank := blank_arrivalOf requestLine headers body k more ending
  have hvalues : ∀ name, valuesOf name (headers.map (· ++ ['\r'])) = valuesOf name headers :=
    fun name => valuesOf_cr name headers
  have hlength : ∀ value ∈ valuesOf .contentLength headers,
      readContentLength value = .ok body.length := by
    intro value hvalue
    rcases h.length with ⟨hnone, -⟩ | ⟨value', hone, hdigits, hcount⟩
    · rw [hnone] at hvalue
      cases hvalue
    · rw [hone, List.mem_singleton] at hvalue
      rw [hvalue, readContentLength_of_isDigits hdigits (hcount ▸ h.short), hcount]
  have hrun : (headers.map (· ++ ['\r'])).foldlM (readHeader service.authorizationEnabled) {} =
      .ok (headersOf service.authorizationEnabled headers) := by
    have honce : Once ([] ++ headers.map (· ++ ['\r'])) := by
      intro name
      rw [List.nil_append, hvalues]
      exact h.once name
    have hall := foldlM_headersOf service.authorizationEnabled honce
      (by intro value hvalue; rw [hvalues] at hvalue; exact ⟨_, hlength value hvalue⟩)
      (by intro value hvalue; rw [hvalues] at hvalue; exact hjson value hvalue)
    rw [List.nil_append, headersOf_congr _ hvalues] at hall
    have hempty : headersOf service.authorizationEnabled [] = {} := by
      cases hauth : service.authorizationEnabled <;> rfl
    rwa [hempty] at hall
  have hdeclared : (headersOf service.authorizationEnabled headers).contentLength =
      body.length := by
    rcases h.length with ⟨hnone, rfl⟩ | ⟨value, hone, -, -⟩
    · rw [headersOf, hnone]
      rfl
    · have hread := hlength value (by rw [hone]; exact List.mem_singleton_self value)
      simp only [headersOf, hone, List.head?_cons, Option.elim_some, contentLengthOf, hread]
  have htype : body ≠ [] →
      (headersOf service.authorizationEnabled headers).hasContentType = true := by
    intro hne
    obtain ⟨value, hvalue, -⟩ := h.json hne
    have hne' := List.ne_nil_of_mem hvalue
    rwa [headersOf, List.isSome_head?]
  have hshort : body.length ≤ maxSize := by
    have hbound := h.short
    rw [maxSize]
    omega
  have hbody := readBody_take (requestHead requestLine headers ++ body.take k) body more k ending
    hdeclared hshort htype
  rw [hframed.read_eq hblank, htarget]
  simp only [bind, Except.bind, hrun]
  rw [arrivalOf, hbody]
  rfl

theorem toLower_eq_lineBreak {c : Char} (h : c.toLower = '\n') : c = '\n' := by
  by_cases hupper : 65 ≤ c.toNat ∧ c.toNat ≤ 90
  · have hletters : ∀ n < 26, (Char.ofNat (65 + n)).toLower ≠ '\n' := by decide
    have hc := hletters (c.toNat - 65) (by omega)
    rw [Nat.add_sub_cancel' hupper.1, Char.ofNat_toNat] at hc
    exact absurd h hc
  · rwa [toLower_of_not_upper hupper] at h

theorem SameHeader.lines {header header' : Text} (h : SameHeader header header')
    (hline : header ≠ [] ∧ '\n' ∉ header) : header' ≠ [] ∧ '\n' ∉ header' := by
  rcases h with rfl | ⟨name, name', value, rfl, rfl, -, -, hsame⟩
  · exact hline
  · refine ⟨List.append_ne_nil_of_right_ne_nil _ (List.cons_ne_nil _ _), ?_⟩
    intro hmem
    rcases List.mem_append.mp hmem with hname | hvalue
    · -- the other name has the line break too
      have hlower : '\n' ∈ name.map Char.toLower := by
        rw [show name.map Char.toLower = name'.map Char.toLower from hsame]
        exact List.mem_map.mpr ⟨'\n', hname, rfl⟩
      obtain ⟨c, hc, hbreak⟩ := List.mem_map.mp hlower
      rw [toLower_eq_lineBreak hbreak] at hc
      exact hline.2 (List.mem_append_left _ hc)
    · exact hline.2 (List.mem_append_right _ hvalue)

theorem SameHeaders.lines {headers headers' : List Text} (h : SameHeaders headers headers')
    (hlines : ∀ header ∈ headers, header ≠ [] ∧ '\n' ∉ header) :
    ∀ header ∈ headers', header ≠ [] ∧ '\n' ∉ header := by
  obtain ⟨between, hsame, hperm⟩ := h
  intro header hmem
  have hbetween := hperm.mem_iff.mpr hmem
  clear hperm hmem
  induction hsame with
  | nil => cases hbetween
  | cons hhead _ ih =>
    rcases List.mem_cons.mp hbetween with rfl | hmem
    · exact hhead.lines (hlines _ List.mem_cons_self)
    · exact ih (fun header hmem => hlines header (List.mem_cons_of_mem _ hmem)) hmem

theorem SameHeaders.wellFormed {service : Service} {requestLine : Text}
    {headers headers' : List Text} {body : Text} (hsame : SameHeaders headers headers')
    (h : WellFormed service requestLine headers body) :
    WellFormed service requestLine headers' body := by
  have hvalues : ∀ name, valuesOf name headers = valuesOf name headers' :=
    fun name => hsame.values_eq (h.once name)
  refine ⟨h.accepted, h.oneLine, hsame.lines h.lines, ?_, ?_, h.short, ?_⟩
  · intro name
    rw [← hvalues]
    exact h.once name
  · rw [← hvalues]
    exact h.length
  · rw [← hvalues]
    exact h.json

theorem blank_of_read {service : Service} {fields : List (Text × Text)} {now : Int}
    {arrival : Arrival} {request : SocketReader.Request}
    (h : SocketReader.read service fields now arrival = .ok request) :
    ['\r', '\n', '\r', '\n'] <:+: arrival.received := by
  by_contra hnot
  have hfails : arrival.readUntil ['\r', '\n', '\r', '\n'] = .error arrival.ending.error :=
    if_neg hnot
  rw [SocketReader.read, hfails] at h
  cases h

/-- A read that succeeds takes the declared number of bytes. -/
theorem Framed.declared {service : Service} {fields : List (Text × Text)} {now : Int}
    {arrival : Arrival} {request : SocketReader.Request} {requestLine rest : Text}
    {lines : List Text} (h : Framed arrival.received requestLine lines rest)
    (hread : SocketReader.read service fields now arrival = .ok request)
    (honce : (valuesOf .contentLength lines).length ≤ 1) :
    ∃ n, DeclaredLength lines n ∧ n ≤ (rest ++ arrival.later).length ∧
      request.jsonBody = (rest ++ arrival.later).take n := by
  have hblank := blank_of_read hread
  rw [h.read_eq hblank] at hread
  obtain ⟨target, -, hread⟩ := bind_eq_ok_iff.mp hread
  obtain ⟨seen, hseen, hread⟩ := bind_eq_ok_iff.mp hread
  obtain ⟨body, hbody, hread⟩ := bind_eq_ok_iff.mp hread
  obtain rfl := Except.ok.inj hread
  obtain ⟨htake, henough, hfits⟩ := readBody_ok hbody
  refine ⟨seen.contentLength, ?_, henough, htake⟩
  obtain ⟨hnone, hone⟩ := contentLength_of_run hseen
  rcases hvalues : valuesOf .contentLength lines with _ | ⟨value, _ | ⟨value', values⟩⟩
  · exact .inl ⟨hvalues, hnone hvalues⟩
  · have hdeclared := declares_of_readContentLength (hone value hvalues rfl)
    exact .inr ⟨value, hvalues, hdeclared.resolve_right (Nat.not_lt.mpr hfits)⟩
  · rw [hvalues] at honce
    exact absurd honce (by simp)

/-- A request whose `Content-Type`, if it has one, is the JSON one is read to the same members
wherever its body was cut, and in whatever order and spelling its headers come; and whatever is
read has the body that its headers declare. -/
theorem read_framing (service : Service) (fields : List (Text × Text)) :
    (∀ requestLine headers headers' body k k' more more' ending ending' now now',
      WellFormed service requestLine headers body → OnlyJson headers →
      SameHeaders headers headers' →
      ∃ request request',
        SocketReader.read service fields now
            (arrivalOf requestLine headers body k more ending) = .ok request ∧
        SocketReader.read service fields now'
            (arrivalOf requestLine headers' body k' more' ending') = .ok request' ∧
        request.jsonBody = body ∧ request'.jsonBody = body ∧
        request'.jwsToken = request.jwsToken ∧ request'.origin = request.origin ∧
        request'.detailLevel = request.detailLevel) ∧
    ∀ arrival request now, SocketReader.read service fields now arrival = .ok request →
      (∃ requestLine lines rest, Framed arrival.received requestLine lines rest) ∧
      ∀ requestLine lines rest, Framed arrival.received requestLine lines rest →
        (valuesOf .contentLength lines).length ≤ 1 →
        ∃ n, DeclaredLength lines n ∧ n ≤ (rest ++ arrival.later).length ∧
          request.jsonBody = (rest ++ arrival.later).take n := by
  constructor
  · intro requestLine headers headers' body k k' more more' ending ending' now now' h hjson hsame
    obtain ⟨target, htarget⟩ := h.accepted
    have hvalues : ∀ name, valuesOf name headers = valuesOf name headers' :=
      fun name => hsame.values_eq (h.once name)
    have hjson' : OnlyJson headers' := by
      rw [OnlyJson, ← hvalues]
      exact hjson
    have hread := h.read_eq hjson htarget fields now k more ending
    have hread' := (hsame.wellFormed h).read_eq hjson' htarget fields now' k' more' ending'
    refine ⟨_, _, hread, hread', rfl, rfl, ?_⟩
    have hheaders := headersOf_congr service.authorizationEnabled hvalues
    simp only [requestOf, hheaders, and_self]
  · intro arrival request now hread
    exact ⟨exists_framed (blank_of_read hread),
      fun requestLine lines rest h honce => h.declared hread honce⟩

/-- A service whose URLs have nothing to decode. -/
def plainService : Service := ⟨"v1".toList, true, fun url => some (url, [])⟩

def putValue : Text := "PUT /st2138-api/v1/1/value/a HTTP/1.1".toList

theorem isJson_plain : IsJson "application/json".toList :=
  ⟨"application/json".toList, [], (List.append_nil _).symm, rfl, .inl rfl⟩

/-- A value is set by a request that is cut in its body, and by one whose body comes later. -/
theorem read_framing_put :
    WellFormed plainService putValue
        ["Content-Length: 2".toList, "content-type: application/json".toList] "42".toList ∧
      OnlyJson ["Content-Length: 2".toList, "content-type: application/json".toList] ∧
      SameHeaders ["Content-Length: 2".toList, "content-type: application/json".toList]
        ["CONTENT-TYPE: application/json".toList, "Content-Length: 2".toList] ∧
      ∃ request request',
        SocketReader.read plainService [] 0 (arrivalOf putValue
          ["Content-Length: 2".toList, "content-type: application/json".toList] "42".toList 1 []
          .failed) = .ok request ∧
        SocketReader.read plainService [] 1 (arrivalOf putValue
          ["CONTENT-TYPE: application/json".toList, "Content-Length: 2".toList] "42".toList 0 []
          .timedOut) = .ok request' ∧
        request.jsonBody = "42".toList ∧ request'.jsonBody = "42".toList ∧
        ∃ n, DeclaredLength (["Content-Length: 2".toList,
            "content-type: application/json".toList].map (· ++ ['\r'])) n ∧ n ≤ 2 ∧
          request.jsonBody = "42".toList.take n := by
  have hformed : WellFormed plainService putValue
      ["Content-Length: 2".toList, "content-type: application/json".toList] "42".toList := by
    refine ⟨⟨_, rfl⟩, by decide, by decide, ?_, .inr ⟨"2".toList, rfl, ?_, rfl⟩, by decide, ?_⟩
    · intro name
      cases name <;> decide
    · exact ⟨by decide, by simp⟩
    · exact fun _ => ⟨"application/json".toList, by decide, isJson_plain⟩
  have hjson : OnlyJson ["Content-Length: 2".toList, "content-type: application/json".toList] := by
    intro value hvalue
    obtain rfl : value = "application/json".toList := List.mem_singleton.mp hvalue
    exact isJson_plain
  have hsame : SameHeaders ["Content-Length: 2".toList, "content-type: application/json".toList]
      ["CONTENT-TYPE: application/json".toList, "Content-Length: 2".toList] := by
    refine ⟨["Content-Length: 2".toList, "CONTENT-TYPE: application/json".toList], ?_,
      List.Perm.swap _ _ _⟩
    refine .cons (.inl rfl) (.cons (.inr ?_) .nil)
    exact ⟨"content-type".toList, "CONTENT-TYPE".toList, " application/json".toList, by decide,
      by decide, by decide, by decide, by rw [sameLetters]; decide⟩
  obtain ⟨request, request', hread, hread', hbody, hbody', -⟩ :=
    (read_framing plainService []).1 putValue _ _ "42".toList 1 0 [] [] .failed .timedOut 0 1
      hformed hjson hsame
  obtain ⟨n, hdeclared, hle, htake⟩ := ((read_framing plainService []).2 _ _ 0 hread).2 _ _ _
    (framed_arrivalOf hformed.oneLine hformed.lines "42".toList 1 [] .failed) (by decide)
  exact ⟨hformed, hjson, hsame, request, request', hread, hread', hbody, hbody', n, hdeclared,
    hle, htake⟩

/-- Without a body, too, a `Content-Type` other than the JSON one is rejected. -/
theorem content_type_without_body_rejected :
    WellFormed plainService "GET /st2138-api/v1/1/value/a HTTP/1.1".toList
        ["Content-Type: text/plain".toList] [] ∧
      ∀ fields now k more ending, SocketReader.read plainService fields now
          (arrivalOf "GET /st2138-api/v1/1/value/a HTTP/1.1".toList
            ["Content-Type: text/plain".toList] [] k more ending) =
        .error (.withStatus ⟨"Invalid Content-Type", .invalidArgument⟩) := by
  have hformed : WellFormed plainService "GET /st2138-api/v1/1/value/a HTTP/1.1".toList
      ["Content-Type: text/plain".toList] [] := by
    refine ⟨⟨_, rfl⟩, by decide, by decide, ?_, .inl ⟨rfl, rfl⟩, by decide, ?_⟩
    · intro name
      cases name <;> decide
    · exact fun hne => absurd rfl hne
  refine ⟨hformed, ?_⟩
  intro fields now k more ending
  have hframed := framed_arrivalOf hformed.oneLine hformed.lines [] k more ending
  rw [hframed.read_eq (blank_arrivalOf _ _ _ _ _ _)]
  rfl

end Catena.Rpc
