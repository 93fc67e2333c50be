import Catena.Rest.Writer

/-!
# What a client of the REST service reads

The bytes that a writer writes in the course of a request are one response. A client reads its
status and its body, which for an event stream are the messages one by one. The origin that is
written back is one that has been read from a header line, and so it cannot end the line.
-/

namespace Catena.Rest

open Store Rpc Grpc Framework

/-- An origin that can be written into a header line. -/
def GoodOrigin (origin : Text) : Prop :=
  '\n' ∉ origin ∧ origin.head?.all (!Http.isBlank ·) ∧
    origin.getLast?.all fun c => !(Http.isBlank c || decide (c = '\r'))

theorem goodOrigin_nil : GoodOrigin [] := ⟨List.not_mem_nil, rfl, rfl⟩

theorem goodOrigin_any : GoodOrigin ['*'] := ⟨by decide, rfl, rfl⟩

theorem goodOrigin_trim {value : Text} (h : '\n' ∉ value) : GoodOrigin (trim value) := by
  have hkept := List.rdropWhile_prefix (fun c => decide (c = '\r') || Rpc.isBlank c)
    (value.dropWhile Rpc.isBlank)
  have hsub : ∀ c ∈ trim value, c ∈ value := fun c hc =>
    (List.dropWhile_suffix _).subset (hkept.subset hc)
  refine ⟨fun hc => h (hsub _ hc), ?_, ?_⟩
  · cases hhead : (trim value).head? with
    | none => rfl
    | some c =>
      have hfirst : (value.dropWhile Rpc.isBlank).head? = some c := by
        rw [← List.singleton_prefix_iff_head?_eq_some] at hhead ⊢
        exact hhead.trans hkept
      have hnot := List.head?_dropWhile_not Rpc.isBlank value
      rw [hfirst] at hnot
      have hblank : Http.isBlank c = false := hnot
      simp [hblank]
  · cases hlast : (trim value).getLast? with
    | none => rfl
    | some c =>
      have hne : trim value ≠ [] := by
        intro hnil
        rw [hnil] at hlast
        cases hlast
      have hnot := List.rdropWhile_last_not (fun c => decide (c = '\r') || Rpc.isBlank c)
        (value.dropWhile Rpc.isBlank) hne
      have hget : (trim value).getLast hne = c :=
        Option.some.inj ((List.getLast?_eq_some_getLast hne).symm.trans hlast)
      have hneither : ¬(decide (c = '\r') || Http.isBlank c) = true := hget ▸ hnot
      simp only [Bool.or_eq_true, not_or, Bool.not_eq_true] at hneither
      simp [hneither.1, hneither.2]

theorem goodOrigin_valueIn {name : HeaderName} {header value : Text} (hheader : '\n' ∉ header)
    (h : valueIn name header = some value) : GoodOrigin value := by
  cases hsplit : splitHeader header with
  | none =>
    simp only [valueIn, hsplit] at h
    cases h
  | some found =>
    simp only [valueIn, hsplit] at h
    obtain rfl := Option.some.inj (Option.ite_none_right_eq_some.mp h).2
    rw [splitHeader, List.span_eq_takeWhile_dropWhile] at hsplit
    cases hdrop : header.dropWhile (· ≠ ':') with
    | nil =>
      rw [hdrop] at hsplit
      cases hsplit
    | cons c rest =>
      rw [hdrop] at hsplit
      obtain rfl := Option.some.inj hsplit
      apply goodOrigin_trim
      intro hrest
      have hmem : '\n' ∈ header.dropWhile (· ≠ ':') := hdrop ▸ List.mem_cons_of_mem c hrest
      exact hheader ((List.dropWhile_suffix _).subset hmem)

/-- A header changes the origin if it is the one with that name. -/
theorem origin_put {known : HeaderName} {auth : Bool} {seen seen' : Headers} {value : Text}
    (h : known.put auth seen value = .ok seen') :
    seen'.origin = seen.origin ∨ known = .origin ∧ seen'.origin = value := by
  cases known with
  | authorization =>
    obtain rfl := Except.ok.inj h
    split <;> exact Or.inl rfl
  | origin =>
    obtain rfl := Except.ok.inj h
    split
    · exact Or.inr ⟨rfl, rfl⟩
    · exact Or.inl rfl
  | detailLevel =>
    obtain rfl := Except.ok.inj h
    split <;> exact Or.inl rfl
  | requestStart =>
    obtain rfl := Except.ok.inj h
    split <;> exact Or.inl rfl
  | contentLength =>
    simp only [HeaderName.put] at h
    split at h
    · cases hlength : readContentLength value with
      | error why =>
        rw [hlength] at h
        cases h
      | ok n =>
        rw [hlength] at h
        obtain rfl := Except.ok.inj h
        exact Or.inl rfl
    · obtain rfl := Except.ok.inj h
      exact Or.inl rfl
  | contentType =>
    simp only [HeaderName.put] at h
    split at h
    · obtain rfl := Except.ok.inj h
      exact Or.inl rfl
    · cases h

theorem goodOrigin_readHeader {auth : Bool} {seen seen' : Headers} {header : Text}
    (hheader : '\n' ∉ header) (hseen : GoodOrigin seen.origin)
    (h : readHeader auth seen header = .ok seen') : GoodOrigin seen'.origin := by
  rcases readHeader_cases auth header with ⟨hread, _⟩ | ⟨known, value, hread, hvalue⟩
  · rw [hread] at h
    obtain rfl := Except.ok.inj h
    exact hseen
  · rw [hread] at h
    rcases origin_put h with hsame | ⟨rfl, hnew⟩
    · rw [hsame]
      exact hseen
    · rw [hnew]
      exact goodOrigin_valueIn hheader ((hvalue .origin).trans (if_pos rfl))

theorem goodOrigin_readHeaders {auth : Bool} (seen : Headers) (stream : Text)
    {seen' : Headers} {rest : Text} (hseen : GoodOrigin seen.origin)
    (h : readHeaders auth seen stream = .ok (seen', rest)) : GoodOrigin seen'.origin := by
  fun_induction readHeaders auth seen stream with
  | case1 =>
    obtain ⟨rfl, _⟩ := Prod.mk.inj (Except.ok.inj h)
    exact hseen
  | case2 =>
    obtain ⟨rfl, _⟩ := Prod.mk.inj (Except.ok.inj h)
    exact hseen
  | case3 => cases h
  | case4 seen stream header rest' hget hblank seen₁ hread ih =>
    have hheader : '\n' ∉ header := by
      cases stream with
      | nil => cases hget
      | cons c stream =>
        obtain ⟨rfl, _⟩ := Prod.mk.inj (Option.some.inj hget)
        intro hmem
        simpa using List.mem_takeWhile_imp hmem
    exact ih (goodOrigin_readHeader hheader hseen hread) h

theorem goodOrigin_read {service : Service} {fields : List (Text × Text)} {now : Int}
    {arrival : Arrival} {r : SocketReader.Request}
    (h : SocketReader.read service fields now arrival = .ok r) : GoodOrigin r.origin := by
  rw [SocketReader.read] at h
  obtain ⟨buffer, _, h⟩ := bind_eq_ok_iff.mp h
  obtain ⟨target, _, h⟩ := bind_eq_ok_iff.mp h
  obtain ⟨seen, hseen, h⟩ := bind_eq_ok_iff.mp h
  obtain ⟨body, _, h⟩ := bind_eq_ok_iff.mp h
  obtain rfl := Except.ok.inj h
  exact goodOrigin_readHeaders {} _ goodOrigin_nil hseen

/-! ## One response -/

theorem ofDigitChars_toString (n : Nat) : Nat.ofDigitChars 10 (toString n).toList 0 = n := by
  rw [Nat.toString_eq_ofList_toDigits, String.toList_ofList, Nat.ofDigitChars_ten_toDigits]

theorem isLine_statusLine (c : StatusCode) : Http.IsLine (statusLine (codeMap c)) := by
  cases c <;> exact ⟨by decide, by decide, by decide⟩

theorem isHeader_origin {origin : Text} (h : GoodOrigin origin) :
    Http.IsHeader ("Access-Control-Allow-Origin".toList, origin) := by
  have hcolon : ':' ∉ "Access-Control-Allow-Origin".toList := by decide
  have hlf : '\n' ∉ "Access-Control-Allow-Origin".toList := by decide
  exact ⟨hcolon, hlf, h⟩

theorem isHeader_length (n : Nat) :
    Http.IsHeader ("Content-Length".toList, (toString n).toList) := by
  have hdigit : ∀ c ∈ (toString n).toList, c.isDigit = true := fun c hc => mem_toString hc
  have hblank (c : Char) (hc : c.isDigit = true) :
      Http.isBlank c = false ∧ decide (c = '\r') = false ∧ c ≠ '\n' := by
    refine ⟨?_, ?_, ?_⟩
    · by_contra h
      simp only [Http.isBlank, Bool.not_eq_false, Bool.or_eq_true, decide_eq_true_eq] at h
      rcases h with rfl | rfl <;> cases hc
    · apply decide_eq_false
      rintro rfl
      cases hc
    · rintro rfl
      cases hc
  have hcolon : ':' ∉ "Content-Length".toList := by decide
  have hlf : '\n' ∉ "Content-Length".toList := by decide
  refine ⟨hcolon, hlf, fun h => (hblank _ (hdigit _ h)).2.2 rfl, ?_, ?_⟩
  · cases hhead : (toString n).toList.head? with
    | none => rfl
    | some c => simp [(hblank c (hdigit c (List.mem_of_head? hhead))).1]
  · cases hlast : (toString n).toList.getLast? with
    | none => rfl
    | some c =>
      obtain ⟨h₁, h₂, _⟩ := hblank c (hdigit c (List.mem_of_getLast? hlast))
      simp [h₁, h₂]

theorem isHeader_accessHeaders {origin : Text} (h : GoodOrigin origin) :
    ∀ x ∈ accessHeaders origin, Http.IsHeader x := by
  simp only [accessHeaders, List.forall_mem_cons]
  exact ⟨isHeader_origin h, by decide, by decide, by decide, fun _ h => by cases h⟩

theorem readable_unaryResponse (c : StatusCode) {origin : Text} (h : GoodOrigin origin)
    (jsonBody : Text) : (unaryResponse (codeMap c) origin jsonBody).Readable := by
  refine ⟨isLine_statusLine c, ?_⟩
  simp only [unaryResponse, List.cons_append, List.nil_append, List.forall_mem_cons]
  exact ⟨by decide, by decide, isHeader_length _, isHeader_accessHeaders h⟩

theorem readable_streamResponse (c : StatusCode) {origin : Text} (h : GoodOrigin origin)
    (body : Text) : ({ streamResponse (codeMap c) origin with body } : Http.Message).Readable := by
  refine ⟨isLine_statusLine c, ?_⟩
  simp only [streamResponse, List.cons_append, List.nil_append, List.forall_mem_cons]
  exact ⟨by decide, by decide, by decide, isHeader_accessHeaders h⟩

theorem declared_unaryResponse (httpStatus : Nat × String) (origin jsonBody : Text) :
    Http.declared (unaryResponse httpStatus origin jsonBody).headers = some jsonBody.length := by
  have hlookup : (unaryResponse httpStatus origin jsonBody).headers.lookup
      "Content-Length".toList = some (toString jsonBody.length).toList := rfl
  rw [Http.declared, hlookup, Option.map_some, ofDigitChars_toString]

theorem read_unaryResponse (c : StatusCode) {origin : Text} (h : GoodOrigin origin)
    (jsonBody : Text) : Http.read (unaryResponse (codeMap c) origin jsonBody).text =
      { messages := [unaryResponse (codeMap c) origin jsonBody] } :=
  Http.foldl_text (readable_unaryResponse c h jsonBody) (declared_unaryResponse _ _ _) []

theorem read_streamResponse (c : StatusCode) {origin : Text} (h : GoodOrigin origin)
    (body : Text) : Http.read ((streamResponse (codeMap c) origin).text ++ body) =
      { phase := .body { streamResponse (codeMap c) origin with body } none } := by
  have htext : (streamResponse (codeMap c) origin).text ++ body =
      ({ streamResponse (codeMap c) origin with body } : Http.Message).text := by
    simp [Http.Message.text, Http.Message.lines, streamResponse]
  rw [htext]
  exact Http.read_open (readable_streamResponse c h body) rfl

/-! ## The events of a stream -/

/-- The events that a client has got out of the bytes of a response. -/
def events (received : Text) : List Text :=
  match (Http.read received).phase with
  | .body message none => EventStream.decode message.body
  | _ => []

theorem phase_append {s : Http.Client} {m : Http.Message} (h : s.phase = .body m none)
    (more : Text) :
    (more.foldl Http.Client.feed s).phase = .body { m with body := m.body ++ more } none := by
  cases s with
  | mk messages phase =>
    obtain rfl : phase = .body m none := h
    rw [Http.Client.foldl_open]

theorem events_prefix {received whole : Text} (h : received <+: whole) {m : Http.Message}
    (hopen : (Http.read whole).phase = .body m none) :
    events received <+: EventStream.decode m.body := by
  obtain ⟨more, rfl⟩ := h
  rw [events]
  split
  · rename_i m' hphase
    have hwhole := phase_append hphase more
    rw [← Http.read_append, hopen] at hwhole
    obtain ⟨rfl, _⟩ := Http.Phase.body.inj hwhole
    exact EventStream.decode_prefix (List.prefix_append _ _)
  · exact List.nil_prefix

/-! ## All messages of a request -/

/-- What is written in the course of a request: a response for each message, and at the end one
with the status. -/
def Writer.sends (print : Printer) (fin : StatusCode) : List Message → Writer → List Text
  | [], w => [(w.sendResponse print fin .empty).1]
  | m :: ms, w =>
      let sent := w.sendResponse print .ok m
      sent.1 :: Writer.sends print fin ms sent.2

def Prints (print : Printer) (ms : List Message) (js : List Text) : Prop :=
  List.Forall₂ (fun m j => m.isEmpty = false ∧ ∃ json, print m = .ok json ∧ json.1 = j) ms js

/-- The body of a response to which messages have been added. -/
def dataBody (js : List Text) : Text :=
  if js = [] then [] else SocketWriter.wrap ([','].intercalate js)

theorem intercalate_eq_nil {js : List Text} (h : ∀ j ∈ js, j ≠ []) :
    [','].intercalate js = [] ↔ js = [] := by
  cases js with
  | nil => simp
  | cons first js =>
    have hfirst := h first List.mem_cons_self
    cases js with
    | nil => simpa using hfirst
    | cons second js => simp [List.intercalate_cons_cons]

theorem addJson_intercalate (w : SocketWriter) {js : List Text} (h : ∀ j ∈ js, j ≠ [])
    (j : Text) (hbody : w.jsonBody = [','].intercalate js) :
    w.addJson j = { w with jsonBody := [','].intercalate (js ++ [j]) } := by
  by_cases hjs : js = []
  · subst hjs
    have hnil : w.jsonBody = [] := hbody
    simp [SocketWriter.addJson, hnil]
  · have hne : w.jsonBody ≠ [] := by
      rw [hbody]
      exact fun hnil => hjs ((intercalate_eq_nil h).mp hnil)
    rw [SocketWriter.addJson, if_neg hne, hbody, intercalate_append hjs (List.cons_ne_nil j [])]
    simp

theorem sendResponse_empty (print : Printer) (w : SocketWriter) (err : StatusCode) :
    w.sendResponse print err .empty = w.respond (codeMap err) := by
  simp [SocketWriter.sendResponse, Message.isEmpty]

theorem sendResponse_buffered {print : Printer} {w : SocketWriter} (hbuffer : w.buffer = true)
    {m : Message} {json : JsonText} (hm : m.isEmpty = false) (hjson : print m = .ok json) :
    w.sendResponse print .ok m = ([], w.addJson json.1) := by
  have hguard : (codeMap .ok).1 < 300 ∧ (!m.isEmpty) = true := ⟨by decide, by simp [hm]⟩
  simp only [SocketWriter.sendResponse, if_pos hguard, hjson]
  rw [if_pos]
  exact hbuffer

/-- A buffered response is one response with all messages, or an error. -/
theorem flatten_sends_socket {print : Printer} (fin : StatusCode) {ms : List Message}
    {js : List Text} (h : Prints print ms js) {w : SocketWriter} (hbuffer : w.buffer = true)
    {before : List Text} (hbefore : ∀ j ∈ before, j ≠ [])
    (hbody : w.jsonBody = [','].intercalate before) :
    (Writer.sends print fin ms (.socket w)).flatten =
      (unaryResponse (codeMap fin) w.origin
        (if 300 ≤ (codeMap fin).1 then [] else dataBody (before ++ js))).text := by
  induction h generalizing w before with
  | nil =>
    have hnil := intercalate_eq_nil hbefore
    simp only [Writer.sends, Writer.sendResponse, sendResponse_empty, SocketWriter.respond,
      hbuffer, hbody, List.append_nil, dataBody, ne_eq, true_and, Prod.map_fst, id_eq,
      List.flatten_cons, List.flatten_nil]
    by_cases herror : 300 ≤ (codeMap fin).1
    · simp only [if_pos herror, not_true_eq_false, if_false]
    · simp only [if_neg herror, hnil]
      by_cases hjs : before = []
      · simp [hjs]
      · simp [hjs]
  | @cons m j ms js hm _ ih =>
    obtain ⟨hempty, json, hjson, rfl⟩ := hm
    have hnext := addJson_intercalate w hbefore json.1 hbody
    have hbefore' : ∀ j ∈ before ++ [json.1], j ≠ [] := by
      intro j hj
      rcases List.mem_append.mp hj with hj | hj
      · exact hbefore j hj
      · obtain rfl := List.mem_singleton.mp hj
        exact json.2.1
    have hrest := ih (w := w.addJson json.1) (by rw [hnext]; exact hbuffer) hbefore'
      (by rw [hnext])
    simp only [Writer.sends, Writer.sendResponse, sendResponse_buffered hbuffer hempty hjson,
      Prod.map_fst, Prod.map_snd, id_eq, List.flatten_cons, List.nil_append]
    rw [hrest, hnext, List.append_assoc]
    rfl

/-- Once the head is written, a stream has an event for each message, whatever the status is. -/
theorem flatten_sends_sent {print : Printer} (fin : StatusCode) {ms : List Message}
    {js : List Text} (h : Prints print ms js) {w : SSEWriter} (hsent : w.headersSent = true) :
    (Writer.sends print fin ms (.sse w)).flatten = js.flatMap EventStream.event := by
  induction h generalizing w with
  | nil =>
    simp [Writer.sends, Writer.sendResponse, SSEWriter.sendResponse, Message.isEmpty,
      SSEWriter.respond, hsent]
  | @cons m j ms js hm _ ih =>
    obtain ⟨hempty, json, hjson, rfl⟩ := hm
    have hsend : w.sendResponse print .ok m =
        (EventStream.event json.1, { w with headersSent := true }) := by
      simp [SSEWriter.sendResponse, hempty, hjson, SSEWriter.respond, hsent, codeMap, json.2.1]
    have hrest := ih (w := { w with headersSent := true }) rfl
    simp only [Writer.sends, Writer.sendResponse, hsend, Prod.map_fst, Prod.map_snd, id_eq,
      List.flatten_cons, List.flatMap_cons]
    rw [hrest]

/-- The status with which a stream begins: an error if there is no message. -/
def firstStatus (fin : StatusCode) : List Message → StatusCode
  | [] => fin
  | _ :: _ => .ok

/-- A stream is a head and an event for each message. -/
theorem flatten_sends_sse {print : Printer} (fin : StatusCode) {ms : List Message}
    {js : List Text} (h : Prints print ms js) (origin : Text) :
    (Writer.sends print fin ms (.sse { origin })).flatten =
      (streamResponse (codeMap (firstStatus fin ms)) origin).text ++
        js.flatMap EventStream.event := by
  cases h with
  | nil =>
    simp [Writer.sends, Writer.sendResponse, SSEWriter.sendResponse, Message.isEmpty,
      SSEWriter.respond, firstStatus]
  | @cons m j ms js hm hms =>
    obtain ⟨hempty, json, hjson, rfl⟩ := hm
    have hsend : ({ origin } : SSEWriter).sendResponse print .ok m =
        ((streamResponse (codeMap .ok) origin).text ++ EventStream.event json.1,
          { origin, headersSent := true }) := by
      simp [SSEWriter.sendResponse, hempty, hjson, SSEWriter.respond, codeMap, json.2.1]
    simp only [Writer.sends, Writer.sendResponse, hsend, Prod.map_fst, Prod.map_snd, id_eq,
      List.flatten_cons, List.flatMap_cons, firstStatus, List.append_assoc]
    rw [flatten_sends_sent fin hms rfl]

end Catena.Rest
