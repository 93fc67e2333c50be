import Mathlib.Data.List.Infix
import Catena.Store.Path

/-!
# Json pointers as texts

A json pointer is read body by body: each body between two solidi stands for one segment. What
one text says about another one that continues it, and that a printed path is read back.
-/

namespace Catena.Store

namespace Path

def bodySegment (body : List Char) : Option Segment :=
  (matchBody body).bind fun m => (segmentOf m).toOption

theorem toOption_eq_some_iff {m : Match} {segment : Segment} :
    (segmentOf m).toOption = some segment ↔ segmentOf m = .ok segment := by
  cases segmentOf m <;> simp [Except.toOption]

theorem segmentsOf_ok_iff {ms : List Match} {path : List Segment} :
    segmentsOf ms = .ok path ↔ ms.map (fun m => (segmentOf m).toOption) = path.map some := by
  induction ms generalizing path with
  | nil => cases path <;> simp [segmentsOf]
  | cons m ms ih =>
    cases path with
    | nil =>
      simp only [segmentsOf, List.map_cons, List.map_nil, reduceCtorEq, iff_false]
      cases segmentOf m <;> cases segmentsOf ms <;>
        simp [bind, Except.bind, pure, Except.pure]
    | cons segment path =>
      rw [List.map_cons, List.map_cons, List.cons.injEq, toOption_eq_some_iff, ← ih, segmentsOf]
      cases segmentOf m <;> cases segmentsOf ms <;>
        simp [bind, Except.bind, pure, Except.pure]

theorem mapM_matchBody_iff {rest : List (List Char)} {ms : List Match} :
    rest.mapM matchBody = some ms ↔ rest.map matchBody = ms.map some := by
  induction rest generalizing ms with
  | nil => cases ms <;> simp
  | cons body rest ih => cases ms <;> simp [List.mapM_cons, Option.bind_eq_some_iff, ih]

/-- The segments of bodies, all of which match, are those that the bodies stand for. -/
theorem map_bodySegment_iff {rest : List (List Char)} {path : List Segment} :
    rest.map bodySegment = path.map some ↔
      ∃ ms : List Match, rest.map matchBody = ms.map some ∧
        ms.map (fun m => (segmentOf m).toOption) = path.map some := by
  induction rest generalizing path with
  | nil => cases path <;> simp
  | cons body rest ih =>
    cases path with
    | nil =>
      simp only [List.map_cons, List.map_nil, reduceCtorEq, false_iff, not_exists, not_and]
      intro ms hms hpath
      rw [List.map_eq_nil_iff.mp hpath] at hms
      cases hms
    | cons segment path =>
      rw [List.map_cons, List.map_cons, List.cons.injEq, ih, bodySegment]
      cases hbody : matchBody body with
      | none =>
        simp only [Option.bind_none, reduceCtorEq, false_and, false_iff, not_exists, not_and]
        intro ms hms hpath
        cases ms with
        | nil => cases hms
        | cons m ms => simp [hbody] at hms
      | some m =>
        rw [Option.bind_some]
        constructor
        · rintro ⟨hm, ms, hms, hpath⟩
          exact ⟨m :: ms, by simp [hbody, hms], by simp [hm, hpath]⟩
        · rintro ⟨ms, hms, hpath⟩
          cases ms with
          | nil => cases hms
          | cons m' ms =>
            simp only [List.map_cons, List.cons.injEq, hbody, Option.some.injEq] at hms hpath
            obtain ⟨rfl, hms⟩ := hms
            exact ⟨hpath.1, ms, hms, hpath.2⟩

/-- A text is read as a path exactly if it starts with a solidus, or is empty, and each of its
bodies stands for the segment in its place. -/
theorem parse_ok_iff {jptr : String} {path : List Segment} :
    parse jptr = .ok path ↔
      ∃ rest, bodies jptr.toList = [] :: rest ∧ rest.map bodySegment = path.map some := by
  rw [parse]
  split
  · rename_i rest hbodies
    simp only [hbodies, List.cons.injEq, true_and, exists_eq_left', map_bodySegment_iff,
      ← mapM_matchBody_iff, ← segmentsOf_ok_iff]
    cases rest.mapM matchBody <;> simp
  · rename_i hbodies
    simp only [reduceCtorEq, false_iff, not_exists, not_and]
    intro rest h
    exact absurd h (hbodies rest)

/-! ## The bodies of a text that continues another one -/

theorem bodies_ne_nil (text : List Char) : bodies text ≠ [] := by
  cases text with
  | nil => simp [bodies]
  | cons c text =>
    rw [bodies]
    split
    · simp
    · split <;> simp

/-- The text is its bodies with a solidus between them. -/
theorem text_of_bodies {text b : List Char} {rest : List (List Char)}
    (h : bodies text = b :: rest) : text = b ++ rest.flatMap fun body => '/' :: body := by
  induction text generalizing b rest with
  | nil =>
    obtain ⟨rfl, rfl⟩ := List.cons.inj h
    rfl
  | cons c text ih =>
    rw [bodies] at h
    split at h
    · rename_i hc
      obtain ⟨rfl, rfl⟩ := List.cons.inj h
      cases hbodies : bodies text with
      | nil => exact absurd hbodies (bodies_ne_nil text)
      | cons b' rest' =>
        rw [hc, ih hbodies]
        simp
    · split at h
      · rename_i hbodies
        exact absurd hbodies (bodies_ne_nil text)
      · rename_i b' rest' hbodies
        obtain ⟨rfl, rfl⟩ := List.cons.inj h
        rw [ih hbodies, List.cons_append]

theorem bodies_append_solidus (x y : List Char) :
    bodies (x ++ '/' :: y) = bodies x ++ bodies y := by
  induction x with
  | nil => simp [bodies]
  | cons c x ih =>
    rw [List.cons_append, bodies, bodies, ih]
    split
    · rfl
    · cases hx : bodies x with
      | nil => exact absurd hx (bodies_ne_nil x)
      | cons b bs => rfl

theorem bodies_append_inside (x y : List Char) {c : Char} (hc : c ≠ '/') :
    ∃ init last ext rest, bodies x = init ++ [last] ∧
      bodies (x ++ c :: y) = init ++ (last ++ c :: ext) :: rest := by
  induction x with
  | nil =>
    cases hy : bodies y with
    | nil => exact absurd hy (bodies_ne_nil y)
    | cons b bs => exact ⟨[], [], b, bs, rfl, by simp [bodies, hc, hy]⟩
  | cons a x ih =>
    obtain ⟨init, last, ext, rest, hx, hxy⟩ := ih
    rw [List.cons_append, bodies, bodies, hx, hxy]
    split
    · exact ⟨[] :: init, last, ext, rest, rfl, rfl⟩
    · cases init with
      | nil => exact ⟨[], a :: last, ext, rest, rfl, rfl⟩
      | cons b init => exact ⟨(a :: b) :: init, last, ext, rest, rfl, rfl⟩

/-! ## Bodies of one segment -/

theorem stoul_eq {digits : List Char} {i : Nat} (h : stoul digits = .ok i) :
    Nat.ofDigitChars 10 digits 0 = i := by
  simp only [stoul] at h
  split at h
  · rw [Nat.ofDigitChars_eq_foldl]
    exact Except.ok.inj h
  · cases h

theorem ofDigitChars_ge (digits : List Char) (n : Nat) : n ≤ Nat.ofDigitChars 10 digits n := by
  rw [Nat.ofDigitChars_eq_ofDigitChars_zero]
  have hpow : 1 ≤ 10 ^ digits.length := Nat.one_le_pow _ _ (by decide)
  have hmul : 1 * n ≤ 10 ^ digits.length * n := Nat.mul_le_mul_right n hpow
  omega

theorem ofDigitChars_append_eq {digits ext : List Char} {c : Char}
    (h : Nat.ofDigitChars 10 (digits ++ c :: ext) 0 = Nat.ofDigitChars 10 digits 0) :
    Nat.ofDigitChars 10 digits 0 = 0 := by
  rw [Nat.ofDigitChars_append, Nat.ofDigitChars_cons] at h
  have hge := ofDigitChars_ge ext
    (10 * Nat.ofDigitChars 10 digits 0 + (c.toNat - '0'.toNat))
  omega

/-- A body is a name, a number or the end mark. -/
theorem bodySegment_cases {body : List Char} {segment : Segment}
    (h : bodySegment body = some segment) :
    segment = .name (String.ofList body) ∨
      (body.all Char.isDigit = true ∧ segment = .index (Nat.ofDigitChars 10 body 0)) ∨
      (body = ['-'] ∧ segment = .index kEnd) := by
  obtain ⟨m, hm, hsegment⟩ := Option.bind_eq_some_iff.mp h
  rw [toOption_eq_some_iff] at hsegment
  cases body with
  | nil => cases hm
  | cons c cs =>
    rw [matchBody] at hm
    split at hm
    · obtain rfl := Option.some.inj hm
      exact Or.inl (Except.ok.inj hsegment).symm
    · split at hm
      · rename_i hdigits
        obtain rfl := Option.some.inj hm
        rw [segmentOf] at hsegment
        cases hstoul : stoul (c :: cs) with
        | error why =>
          rw [hstoul] at hsegment
          cases hsegment
        | ok i =>
          rw [hstoul] at hsegment
          rw [stoul_eq hstoul]
          exact Or.inr (Or.inl ⟨hdigits, (Except.ok.inj hsegment).symm⟩)
      · split at hm
        · rename_i hend
          obtain rfl := Option.some.inj hm
          exact Or.inr (Or.inr ⟨hend, (Except.ok.inj hsegment).symm⟩)
        · cases hm

/-- A body that goes on stands for another segment, unless both are spellings of zero. -/
theorem bodySegment_continued {body ext : List Char} {c : Char} {segment : Segment}
    (h : bodySegment body = some segment) (h' : bodySegment (body ++ c :: ext) = some segment) :
    segment = .index 0 := by
  have hne : body ≠ [] := by
    rintro rfl
    cases h
  rcases bodySegment_cases h with hname | ⟨hdigits, hindex⟩ | ⟨hend, hindex⟩
  · rcases bodySegment_cases h' with hname' | ⟨-, hindex'⟩ | ⟨-, hindex'⟩
    · have htext := String.ofList_injective (Segment.name.inj (hname.symm.trans hname'))
      simp at htext
    · exact absurd (hname.symm.trans hindex') (by simp)
    · exact absurd (hname.symm.trans hindex') (by simp)
  · rcases bodySegment_cases h' with hname' | ⟨-, hindex'⟩ | ⟨hend', -⟩
    · exact absurd (hindex.symm.trans hname') (by simp)
    · have hvalue := Segment.index.inj (hindex'.symm.trans hindex)
      rw [hindex, ofDigitChars_append_eq hvalue]
    · cases body with
      | nil => exact absurd rfl hne
      | cons b body => simp at hend'
  · rcases bodySegment_cases h' with hname' | ⟨hdigits', -⟩ | ⟨hend', -⟩
    · exact absurd (hindex.symm.trans hname') (by simp)
    · rw [hend] at hdigits'
      simp at hdigits'
    · rw [hend] at hend'
      simp at hend'

theorem bodySegment_respelled {body body' : List Char} {segment : Segment}
    (h : bodySegment body = some segment) (h' : bodySegment body' = some segment)
    (hne : body ≠ body') : ∃ i, segment = .index i := by
  rcases bodySegment_cases h with hname | ⟨-, hindex⟩ | ⟨-, hindex⟩
  · rcases bodySegment_cases h' with hname' | ⟨-, hindex'⟩ | ⟨-, hindex'⟩
    · have htext := Segment.name.inj (hname.symm.trans hname')
      exact absurd (String.ofList_injective htext) hne
    · exact ⟨_, hindex'⟩
    · exact ⟨_, hindex'⟩
  · exact ⟨_, hindex⟩
  · exact ⟨_, hindex⟩

/-- Lists of bodies of which one is not the start of the other, while their segments are, spell
an index in two ways. -/
theorem exists_respelled {rest rest' : List (List Char)} {path below : List Segment}
    (h : rest.map bodySegment = path.map some)
    (h' : rest'.map bodySegment = (path ++ below).map some) (hne : ¬rest <+: rest') :
    ∃ body ∈ rest, ∃ body' ∈ rest', body ≠ body' ∧
      ∃ i, bodySegment body = some (.index i) ∧ bodySegment body' = some (.index i) := by
  induction rest generalizing rest' path with
  | nil => exact absurd (List.nil_prefix) hne
  | cons body rest ih =>
    cases path with
    | nil => cases h
    | cons segment path =>
      cases rest' with
      | nil => cases h'
      | cons body' rest' =>
        obtain ⟨hsegment, hrest⟩ := List.cons.inj h
        obtain ⟨hsegment', hrest'⟩ := List.cons.inj h'
        by_cases hbody : body = body'
        · have hne' : ¬rest <+: rest' := by
            intro hprefix
            apply hne
            rw [hbody]
            exact List.prefix_cons_inj body' |>.mpr hprefix
          obtain ⟨b, hb, b', hb', hrespelled⟩ := ih hrest hrest' hne'
          exact ⟨b, List.mem_cons_of_mem _ hb, b', List.mem_cons_of_mem _ hb', hrespelled⟩
        · obtain ⟨i, rfl⟩ := bodySegment_respelled hsegment hsegment' hbody
          exact ⟨body, List.mem_cons_self, body', List.mem_cons_self, hbody, i, hsegment,
            hsegment'⟩

/-! ## The path of a text that continues another one -/

theorem map_some_inj {xs ys : List Segment} (h : xs.map some = ys.map some) : xs = ys :=
  List.map_injective_iff.mpr (fun _ _ h => Option.some.inj h) h

theorem parse_below {jptr next : String} {path path' : List Segment} {y : List Char}
    (h : parse jptr = .ok path) (h' : parse next = .ok path')
    (hnext : next.toList = jptr.toList ++ '/' :: y) :
    ∃ segment below, path' = path ++ segment :: below := by
  obtain ⟨rest, hbodies, hrest⟩ := parse_ok_iff.mp h
  obtain ⟨rest', hbodies', hrest'⟩ := parse_ok_iff.mp h'
  rw [hnext, bodies_append_solidus, hbodies, List.cons_append, List.cons.injEq] at hbodies'
  rw [← hbodies'.2, List.map_append, hrest] at hrest'
  obtain ⟨path₁, path₂, hsplit, hpath₁, hpath₂⟩ := List.map_eq_append_iff.mp hrest'.symm
  rw [map_some_inj hpath₁] at hsplit
  cases path₂ with
  | nil =>
    have hy := List.map_eq_nil_iff.mp hpath₂.symm
    exact absurd hy (bodies_ne_nil y)
  | cons segment below => exact ⟨segment, below, hsplit⟩

/-- A text that goes on inside its last body leaves the path at the last segment, unless that
is zero. -/
theorem parse_inside {jptr next : String} {path path' : List Segment} {c : Char} {y : List Char}
    (h : parse jptr = .ok path) (h' : parse next = .ok path')
    (hnext : next.toList = jptr.toList ++ c :: y) (hc : c ≠ '/') :
    ∃ init segment segment' below, path = init ++ [segment] ∧
      path' = init ++ segment' :: below ∧ (segment = segment' → segment = .index 0) := by
  obtain ⟨rest, hbodies, hrest⟩ := parse_ok_iff.mp h
  obtain ⟨rest', hbodies', hrest'⟩ := parse_ok_iff.mp h'
  obtain ⟨init, last, ext, more, hx, hxy⟩ := bodies_append_inside jptr.toList y hc
  rw [hnext, hxy] at hbodies'
  rw [hbodies] at hx
  cases init with
  | nil =>
    -- the empty text can only go on with a solidus
    obtain ⟨rfl, -⟩ := List.cons.inj hx
    simp at hbodies'
  | cons b init =>
    rw [List.cons_append, List.cons.injEq] at hx hbodies'
    rw [hx.2, List.map_append, List.map_singleton] at hrest
    rw [← hbodies'.2] at hrest'
    obtain ⟨path₁, path₂, rfl, hpath₁, hpath₂⟩ := List.map_eq_append_iff.mp hrest.symm
    rw [List.map_append, ← hpath₁, List.map_cons] at hrest'
    obtain ⟨path₁', path₂', rfl, hpath₁', hpath₂'⟩ := List.map_eq_append_iff.mp hrest'.symm
    obtain rfl := map_some_inj hpath₁'
    cases path₂ with
    | nil => cases hpath₂
    | cons segment path₂ =>
      obtain rfl : path₂ = [] := by simpa using (List.cons.inj hpath₂).2
      cases path₂' with
      | nil => cases hpath₂'
      | cons segment' below =>
        refine ⟨path₁', segment, segment', below, rfl, rfl, ?_⟩
        rintro rfl
        exact bodySegment_continued (List.cons.inj hpath₂).1.symm (List.cons.inj hpath₂').1.symm

/-- The end mark cannot go on. -/
theorem parse_end_continued {jptr : String} {path : List Segment} {x y : List Char} {c : Char}
    (h : parse jptr = .ok path) (hc : c ≠ '/') : jptr.toList ≠ x ++ '/' :: '-' :: c :: y := by
  intro htext
  obtain ⟨rest, hbodies, hrest⟩ := parse_ok_iff.mp h
  obtain ⟨init, last, ext, more, hx, hxy⟩ := bodies_append_inside ['-'] y hc
  have hlast : init = [] ∧ last = ['-'] := by
    cases init with
    | nil => exact ⟨rfl, (List.cons.inj hx).1.symm⟩
    | cons b init => simp [bodies] at hx
  obtain ⟨rfl, rfl⟩ := hlast
  have hmem : '-' :: c :: ext ∈ rest := by
    rw [htext, bodies_append_solidus, ← List.singleton_append, hxy] at hbodies
    cases hbx : bodies x with
    | nil => exact absurd hbx (bodies_ne_nil x)
    | cons b bs =>
      rw [hbx, List.cons_append, List.cons.injEq] at hbodies
      rw [← hbodies.2]
      simp
  have hsome : ∃ segment, bodySegment ('-' :: c :: ext) = some segment := by
    have hmem' := List.mem_map_of_mem (f := bodySegment) hmem
    rw [hrest, List.mem_map] at hmem'
    obtain ⟨segment, -, hsegment⟩ := hmem'
    exact ⟨segment, hsegment.symm⟩
  obtain ⟨segment, hsegment⟩ := hsome
  have hnone : bodySegment ('-' :: c :: ext) = none := by
    simp [bodySegment, matchBody, isWordStart]
  rw [hnone] at hsegment
  cases hsegment

/-! ## Printed paths -/

/-- A name as `kSegmentRegex` wants it. -/
def isIdentifier (name : String) : Bool :=
  match name.toList with
  | [] => false
  | c :: cs => isWordStart c && cs.all isWordChar

def Printable : Segment → Prop
  | .name oid => isIdentifier oid = true
  | .index i => i < 2 ^ 64

/-- A printed path is the one that is read from it. -/
def Canonical (oid : String) (path : List Segment) : Prop :=
  parse oid = .ok path ∧ fqoid path = oid

theorem toList_fqoid (path : List Segment) :
    (fqoid path).toList = path.flatMap fun segment => '/' :: (segmentText segment).toList := by
  induction path with
  | nil => rfl
  | cons segment path ih =>
    rw [fqoid, String.toList_join] at ih ⊢
    rw [List.map_cons, List.flatMap_cons, ih, List.flatMap_cons, String.toList_append]
    rfl

theorem fqoid_append (path path' : List Segment) :
    fqoid (path ++ path') = fqoid path ++ fqoid path' := by
  apply String.toList_inj.mp
  rw [String.toList_append, toList_fqoid, toList_fqoid, toList_fqoid, List.flatMap_append]

theorem fqoid_singleton (segment : Segment) : fqoid [segment] = "/" ++ segmentText segment := by
  apply String.toList_inj.mp
  rw [toList_fqoid, String.toList_append]
  simp

theorem bodies_of_not_mem {body : List Char} (h : '/' ∉ body) : bodies body = [body] := by
  induction body with
  | nil => rfl
  | cons c body ih =>
    rw [List.mem_cons, not_or] at h
    rw [bodies, if_neg (Ne.symm h.1), ih h.2]

theorem bodies_flatMap {rest : List (List Char)} (h : ∀ body ∈ rest, '/' ∉ body) :
    bodies (rest.flatMap ('/' :: ·)) = [] :: rest := by
  induction rest with
  | nil => rfl
  | cons body rest ih =>
    have hrest := ih fun b hb => h b (List.mem_cons_of_mem _ hb)
    have hbody := bodies_of_not_mem (h body List.mem_cons_self)
    rw [List.flatMap_cons, List.cons_append, bodies, if_pos rfl, List.cons.injEq]
    refine ⟨rfl, ?_⟩
    cases rest with
    | nil => simpa using hbody
    | cons body' rest =>
      rw [List.flatMap_cons, List.cons_append, bodies, if_pos rfl, List.cons.injEq] at hrest
      rw [List.flatMap_cons, List.cons_append, bodies_append_solidus, hbody, hrest.2,
        List.singleton_append]


theorem bodySegment_name {oid : String} (h : isIdentifier oid = true) :
    bodySegment oid.toList = some (.name oid) ∧ '/' ∉ oid.toList := by
  unfold isIdentifier at h
  cases hoid : oid.toList with
  | nil =>
    rw [hoid] at h
    cases h
  | cons c cs =>
    simp only [hoid] at h
    constructor
    · have hname : String.ofList (c :: cs) = oid := by rw [← hoid, String.ofList_toList]
      rw [bodySegment, matchBody, if_pos h, hname]
      rfl
    · rw [Bool.and_eq_true, List.all_eq_true] at h
      intro hmem
      rcases List.mem_cons.mp hmem with rfl | hmem
      · exact absurd h.1 (by decide)
      · exact absurd (h.2 _ hmem) (by decide)

theorem isDigit_not_wordStart {c : Char} (h : c.isDigit = true) : isWordStart c = false := by
  rw [isWordStart, Bool.or_eq_false_iff]
  simp only [Char.isDigit, Bool.and_eq_true, decide_eq_true_eq, ge_iff_le,
    UInt32.le_iff_toNat_le] at h
  constructor
  · have hupper : c.isUpper = false := by
      refine decide_eq_false fun hupper => ?_
      have hle := UInt32.le_iff_toNat_le.mp hupper.1
      simp at h hle
      omega
    have hlower : c.isLower = false := by
      refine Bool.and_eq_false_iff.mpr (.inl (decide_eq_false fun hlower => ?_))
      have hle := UInt32.le_iff_toNat_le.mp hlower
      simp at h hle
      omega
    exact Bool.or_eq_false_iff.mpr ⟨hupper, hlower⟩
  · rw [decide_eq_false_iff_not]
    rintro rfl
    simp at h

theorem bodySegment_index {i : Nat} (hi : i < 2 ^ 64) :
    bodySegment (toString i).toList = some (.index i) ∧ '/' ∉ (toString i).toList := by
  have htext : (toString i).toList = Nat.toDigits 10 i := by
    rw [Nat.toString_eq_ofList_toDigits, String.toList_ofList]
  have hdigits : ∀ c ∈ Nat.toDigits 10 i, c.isDigit = true := fun c hc =>
    Nat.isDigit_of_mem_toDigits (by decide) (by decide) hc
  rw [htext]
  constructor
  · cases hlist : Nat.toDigits 10 i with
    | nil => exact absurd hlist Nat.toDigits_ne_nil
    | cons c cs =>
      rw [hlist] at hdigits
      have hstart := isDigit_not_wordStart (hdigits c List.mem_cons_self)
      have hall : (c :: cs).all Char.isDigit = true := List.all_eq_true.mpr hdigits
      have hstoul : stoul (c :: cs) = .ok i := by
        rw [stoul, ← Nat.ofDigitChars_eq_foldl, ← hlist, Nat.ofDigitChars_ten_toDigits]
        exact if_pos hi
      rw [bodySegment, matchBody, hstart, Bool.false_and, if_neg Bool.false_ne_true, if_pos hall,
        Option.bind_some, segmentOf, hstoul]
      rfl
  · intro h
    exact absurd (hdigits _ h) (by decide)

theorem bodySegment_text {segment : Segment} (h : Printable segment) :
    bodySegment (segmentText segment).toList = some segment ∧
      '/' ∉ (segmentText segment).toList := by
  cases segment with
  | name oid => exact bodySegment_name h
  | index i =>
    by_cases hend : i = kEnd
    · rw [segmentText, if_pos hend, hend]
      decide
    · rw [segmentText, if_neg hend]
      exact bodySegment_index h

theorem parse_fqoid {path : List Segment} (h : ∀ segment ∈ path, Printable segment) :
    parse (fqoid path) = .ok path := by
  rw [parse_ok_iff]
  refine ⟨path.map fun segment => (segmentText segment).toList, ?_, ?_⟩
  · rw [toList_fqoid, ← List.flatMap_map]
    apply bodies_flatMap
    intro body hbody
    obtain ⟨segment, hsegment, rfl⟩ := List.mem_map.mp hbody
    exact (bodySegment_text (h segment hsegment)).2
  · rw [List.map_map]
    apply List.map_congr_left
    intro segment hsegment
    exact (bodySegment_text (h segment hsegment)).1

theorem isIdentifier_of_bodySegment {body : List Char} {oid : String}
    (h : bodySegment body = some (.name oid)) : isIdentifier oid = true := by
  obtain ⟨m, hm, hsegment⟩ := Option.bind_eq_some_iff.mp h
  rw [toOption_eq_some_iff] at hsegment
  cases body with
  | nil => cases hm
  | cons c cs =>
    rw [matchBody] at hm
    split at hm
    · rename_i hname
      obtain rfl := Option.some.inj hm
      obtain rfl := Segment.name.inj (Except.ok.inj hsegment)
      rw [isIdentifier, String.toList_ofList]
      exact hname
    · split at hm
      · obtain rfl := Option.some.inj hm
        rw [segmentOf] at hsegment
        cases hstoul : stoul (c :: cs) <;> rw [hstoul] at hsegment <;> cases hsegment
      · split at hm
        · obtain rfl := Option.some.inj hm
          cases hsegment
        · cases hm

theorem lt_of_bodySegment {body : List Char} {i : Nat}
    (h : bodySegment body = some (.index i)) : i < 2 ^ 64 := by
  obtain ⟨m, hm, hsegment⟩ := Option.bind_eq_some_iff.mp h
  rw [toOption_eq_some_iff] at hsegment
  cases m with
  | oid text => cases hsegment
  | last =>
    obtain rfl := Segment.index.inj (Except.ok.inj hsegment)
    decide
  | idx digits =>
    rw [segmentOf] at hsegment
    cases hstoul : stoul digits with
    | error why =>
      rw [hstoul] at hsegment
      cases hsegment
    | ok j =>
      rw [hstoul] at hsegment
      obtain rfl := Segment.index.inj (Except.ok.inj hsegment)
      simp only [stoul] at hstoul
      split at hstoul
      · rename_i hlt
        rwa [Except.ok.inj hstoul] at hlt
      · cases hstoul

theorem printable_of_parse {jptr : String} {path : List Segment} (h : parse jptr = .ok path) :
    ∀ segment ∈ path, Printable segment := by
  intro segment hsegment
  obtain ⟨rest, -, hrest⟩ := parse_ok_iff.mp h
  have hmem := List.mem_map_of_mem (f := some) hsegment
  rw [← hrest, List.mem_map] at hmem
  obtain ⟨body, -, hbody⟩ := hmem
  cases segment with
  | name oid => exact isIdentifier_of_bodySegment hbody
  | index i => exact lt_of_bodySegment hbody

theorem parse_push {jptr : String} {path : List Segment} {segment : Segment}
    (h : parse jptr = .ok path) (hsegment : Printable segment) :
    parse (fqoid path ++ "/" ++ segmentText segment) = .ok (path ++ [segment]) := by
  have htext : fqoid path ++ "/" ++ segmentText segment = fqoid (path ++ [segment]) := by
    rw [fqoid_append, fqoid_singleton, String.append_assoc]
  rw [htext]
  apply parse_fqoid
  intro seg hseg
  rcases List.mem_append.mp hseg with hseg | hseg
  · exact printable_of_parse h seg hseg
  · rwa [List.mem_singleton.mp hseg]

theorem tilde_not_mem_body {body : List Char} {segment : Segment}
    (h : bodySegment body = some segment) : '~' ∉ body := by
  obtain ⟨m, hm, -⟩ := Option.bind_eq_some_iff.mp h
  cases body with
  | nil => cases hm
  | cons c cs =>
    intro hmem
    rw [matchBody] at hm
    split at hm
    · rename_i hoid
      rw [Bool.and_eq_true, List.all_eq_true] at hoid
      rcases List.mem_cons.mp hmem with rfl | hmem
      · exact absurd hoid.1 (by decide)
      · exact absurd (hoid.2 _ hmem) (by decide)
    · split at hm
      · rename_i hdigits
        exact absurd (List.all_eq_true.mp hdigits _ hmem) (by decide)
      · split at hm
        · rename_i hend
          rw [hend] at hmem
          exact absurd hmem (by decide)
        · cases hm

theorem tilde_not_mem {jptr : String} {path : List Segment} (h : parse jptr = .ok path) :
    '~' ∉ jptr.toList := by
  obtain ⟨rest, hbodies, hrest⟩ := parse_ok_iff.mp h
  rw [text_of_bodies hbodies, List.nil_append, List.mem_flatMap]
  rintro ⟨body, hbody, hmem⟩
  have hsegment := List.mem_map_of_mem (f := bodySegment) hbody
  rw [hrest, List.mem_map] at hsegment
  obtain ⟨segment, -, hsegment⟩ := hsegment
  rcases List.mem_cons.mp hmem with heq | hmem
  · exact absurd heq (by decide)
  · exact tilde_not_mem_body hsegment.symm hmem

theorem parse_body {path path' : List Segment} {body : String}
    (hpath : ∀ segment ∈ path, Printable segment) (hbody : '/' ∉ body.toList)
    (h : parse (fqoid path ++ "/" ++ body) = .ok path') :
    ∃ segment, path' = path ++ [segment] ∧ bodySegment body.toList = some segment := by
  obtain ⟨rest, hbodies, hrest⟩ := parse_ok_iff.mp (parse_fqoid hpath)
  obtain ⟨rest', hbodies', hrest'⟩ := parse_ok_iff.mp h
  have htext : (fqoid path ++ "/" ++ body).toList =
      (fqoid path).toList ++ '/' :: body.toList := by
    rw [String.toList_append, String.toList_append, List.append_assoc]
    rfl
  rw [htext, bodies_append_solidus, hbodies, bodies_of_not_mem hbody, List.cons_append,
    List.cons.injEq] at hbodies'
  rw [← hbodies'.2, List.map_append, hrest] at hrest'
  obtain ⟨path₁, path₂, hsplit, hpath₁, hpath₂⟩ := List.map_eq_append_iff.mp hrest'.symm
  obtain ⟨segment, rfl⟩ : ∃ segment, path₂ = [segment] := by
    rw [← List.length_eq_one_iff, ← List.length_map (f := some), hpath₂]
    rfl
  refine ⟨segment, ?_, (List.cons.inj hpath₂).1.symm⟩
  rw [hsplit, map_some_inj hpath₁]

theorem parse_singleton {body : String} {segment : Segment}
    (h : bodySegment body.toList = some segment) (hbody : '/' ∉ body.toList) :
    parse ("/" ++ body) = .ok [segment] := by
  rw [parse_ok_iff]
  refine ⟨[body.toList], ?_, by rw [List.map_singleton, h]; rfl⟩
  rw [String.toList_append]
  exact (bodies_append_solidus [] body.toList).trans (by rw [bodies_of_not_mem hbody]; rfl)

theorem identifier_of_bodySegment {body : String} {oid : String}
    (h : bodySegment body.toList = some (.name oid)) : isIdentifier body = true := by
  obtain ⟨m, hm, hsegment⟩ := Option.bind_eq_some_iff.mp h
  rw [isIdentifier]
  cases hbody : body.toList with
  | nil =>
    rw [hbody] at hm
    cases hm
  | cons c cs =>
    rw [hbody, matchBody] at hm
    split at hm
    · assumption
    · split at hm
      · obtain rfl := Option.some.inj hm
        rw [toOption_eq_some_iff, segmentOf] at hsegment
        cases hstoul : stoul (c :: cs) with
        | error why =>
          rw [hstoul] at hsegment
          cases hsegment
        | ok i =>
          rw [hstoul] at hsegment
          cases hsegment
      · split at hm
        · obtain rfl := Option.some.inj hm
          cases hsegment
        · cases hm

end Path

end Catena.Store
