import Catena.Store.BadRequests
import Catena.Store.Pointer

/-!
# Overlap of oids and overlap of paths

Two entries of a multi-set overlap when one acts on the node of the other or on one of its
ancestors; appends to one array do not. The code compares the texts of the oids instead. A text
may go on inside its last segment, so that siblings such as `/ab` and `/abc` or `/level/1` and
`/level/10` are taken to overlap; and one index has several spellings, so that `/level/1` and
`/level/01` are not.
-/

namespace Catena.Store

open ExceptionWithStatus (ok)

def AppendAlike (p q : SetValuePayload) : Prop :=
  Path.IsAppend p.path ∧ Path.IsAppend q.path ∧ Path.popBack p.path = Path.popBack q.path

/-- One entry addresses the node of the other or one of its ancestors, as paths. -/
def PathsOverlap (p q : SetValuePayload) : Prop :=
  (p.path <+: q.path ∨ q.path <+: p.path) ∧ ¬AppendAlike p q

def TextsOverlap (p q : SetValuePayload) : Prop := Device.overlapping p.oid q.oid = true

/-- The oid of `q` goes on inside the last segment of the oid of `p`, to another node. -/
def ContinuesInside (p q : SetValuePayload) : Prop :=
  ∃ c y, q.oid.toList = p.oid.toList ++ c :: y ∧ c ≠ '/' ∧ ¬p.path <+: q.path

/-- Taken to overlap by mistake: one oid goes on inside the last segment of the other, or both
are one append that is spelled as a number. -/
def FalseOverlap (p q : SetValuePayload) : Prop :=
  ContinuesInside p q ∨ ContinuesInside q p ∨
    (p.oid = q.oid ∧ Path.IsAppend p.path ∧ endsWith p.oid "/-" = false)

/-- Overlapping paths that are spelled apart: neither oid is the start of the other. Two oids
that both end with the end mark are never compared. -/
def MissedOverlap (p q : SetValuePayload) : Prop :=
  PathsOverlap p q ∧ ((¬p.oid.toList <+: q.oid.toList ∧ ¬q.oid.toList <+: p.oid.toList) ∨
    (endsWith p.oid "/-" = true ∧ endsWith q.oid "/-" = true))

/-- Some two entries of the payload, in order, are so related. -/
def SomePair (R : SetValuePayload → SetValuePayload → Prop) (src : List SetValuePayload) : Prop :=
  ∃ p q, [p, q].Sublist src ∧ R p q

variable {p q : SetValuePayload}

theorem AppendAlike.path_eq (h : AppendAlike p q) : p.path = q.path := by
  rw [Path.eq_popBack_append h.1, Path.eq_popBack_append h.2.1, h.2.2]

theorem AppendAlike.symm (h : AppendAlike p q) : AppendAlike q p := ⟨h.2.1, h.1, h.2.2.symm⟩

theorem PathsOverlap.symm (h : PathsOverlap p q) : PathsOverlap q p :=
  ⟨h.1.symm, fun happ => h.2 happ.symm⟩

theorem textsOverlap_iff :
    TextsOverlap p q ↔ ¬(endsWith p.oid "/-" = true ∧ endsWith q.oid "/-" = true) ∧
      (p.oid.toList <+: q.oid.toList ∨ q.oid.toList <+: p.oid.toList) := by
  rw [TextsOverlap, Device.overlapping, Bool.and_eq_true, Bool.or_eq_true, startsWith, startsWith,
    List.isPrefixOf_iff_prefix, List.isPrefixOf_iff_prefix, Bool.not_eq_true', Bool.and_eq_false_iff,
    or_comm (a := q.oid.toList <+: p.oid.toList), Bool.eq_false_iff, Bool.eq_false_iff, not_and_or]

theorem parse_path (h : p.Parses) : Path.parse p.oid = .ok p.path := by
  obtain ⟨path, hpath⟩ := h
  rw [SetValuePayload.path, hpath]

theorem path_of_inside (hp : p.Parses) (hq : q.Parses) {c : Char} {y : List Char}
    (hnext : q.oid.toList = p.oid.toList ++ c :: y) (hc : c ≠ '/') :
    ∃ init segment segment' below, p.path = init ++ [segment] ∧
      q.path = init ++ segment' :: below ∧ (segment = segment' → segment = .index 0) :=
  Path.parse_inside (parse_path hp) (parse_path hq) hnext hc

theorem not_append_of_zero {init : List Segment} (h : p.path = init ++ [.index 0]) :
    ¬Path.IsAppend p.path := by
  rw [h, Path.IsAppend, Path.backIndex_append_index]
  decide

/-- A text that starts the other one, for paths that do not overlap. -/
theorem falseOverlap_of_prefix (hp : p.Parses) (hq : q.Parses)
    (hends : ¬(endsWith p.oid "/-" = true ∧ endsWith q.oid "/-" = true))
    (htext : p.oid.toList <+: q.oid.toList) (hpaths : ¬PathsOverlap p q) :
    ContinuesInside p q ∨ (p.oid = q.oid ∧ Path.IsAppend p.path ∧ endsWith p.oid "/-" = false) := by
  have happend : p.path <+: q.path → AppendAlike p q := by
    intro hprefix
    by_contra hnot
    exact hpaths ⟨Or.inl hprefix, hnot⟩
  obtain ⟨t, ht⟩ := htext
  cases t with
  | nil =>
    -- one text: the paths are equal, so both are appends
    right
    have hoid : p.oid = q.oid := String.toList_inj.mp (by rw [← ht, List.append_nil])
    have hpath : p.path = q.path := by rw [SetValuePayload.path, SetValuePayload.path, hoid]
    have happ := happend (hpath ▸ List.prefix_refl _)
    rw [← hoid, and_self] at hends
    exact ⟨hoid, happ.1, Bool.eq_false_iff.mpr hends⟩
  | cons c y =>
    by_cases hc : c = '/'
    · -- a node below: then the paths overlap
      subst hc
      obtain ⟨segment, below, hbelow⟩ := Path.parse_below (parse_path hp) (parse_path hq) ht.symm
      have happ := (happend ⟨segment :: below, hbelow.symm⟩).path_eq
      rw [hbelow] at happ
      simp at happ
    · left
      refine ⟨c, y, ht.symm, hc, ?_⟩
      intro hprefix
      have happ := happend hprefix
      obtain ⟨init, segment, segment', below, hpath, hpath', hzero⟩ :=
        path_of_inside hp hq ht.symm hc
      rw [hpath, hpath', List.prefix_append_right_inj] at hprefix
      have hsegment : segment = segment' := by simpa using hprefix
      rw [hzero hsegment] at hpath
      exact not_append_of_zero hpath happ.1

theorem not_end_of_inside (hq : q.Parses) {c : Char} {y : List Char}
    (hnext : q.oid.toList = p.oid.toList ++ c :: y) (hc : c ≠ '/') :
    endsWith p.oid "/-" = false := by
  apply Bool.eq_false_iff.mpr
  intro hend
  rw [endsWith, List.isSuffixOf_iff_suffix] at hend
  obtain ⟨x, hx⟩ := hend
  have htext : q.oid.toList = x ++ '/' :: '-' :: c :: y := by
    rw [hnext, ← hx, List.append_assoc]
    rfl
  exact Path.parse_end_continued (parse_path hq) hc htext

theorem overlap_of_continuesInside (hp : p.Parses) (hq : q.Parses) (h : ContinuesInside p q) :
    TextsOverlap p q ∧ ¬PathsOverlap p q := by
  obtain ⟨c, y, hnext, hc, hpaths⟩ := h
  constructor
  · rw [textsOverlap_iff, not_end_of_inside hq hnext hc, hnext]
    simp
  · rintro ⟨hbelow | hbelow, -⟩
    · exact hpaths hbelow
    · obtain ⟨init, segment, segment', below, hpath, hpath', -⟩ := path_of_inside hp hq hnext hc
      apply hpaths
      rw [hpath, hpath', List.prefix_append_right_inj] at hbelow ⊢
      obtain ⟨rest, hrest⟩ := hbelow
      obtain ⟨rfl, -⟩ := List.cons.inj hrest
      exact ⟨below, rfl⟩

theorem TextsOverlap.symm (h : TextsOverlap p q) : TextsOverlap q p := by
  rw [textsOverlap_iff] at h ⊢
  exact ⟨fun hends => h.1 hends.symm, h.2.symm⟩

/-- The pairs that are taken to overlap by mistake. -/
theorem falseOverlap_iff (hp : p.Parses) (hq : q.Parses) :
    FalseOverlap p q ↔ TextsOverlap p q ∧ ¬PathsOverlap p q := by
  constructor
  · rintro (h | h | ⟨hoid, happ, hend⟩)
    · exact overlap_of_continuesInside hp hq h
    · obtain ⟨htexts, hpaths⟩ := overlap_of_continuesInside hq hp h
      exact ⟨htexts.symm, fun h => hpaths h.symm⟩
    · have hpath : p.path = q.path := by rw [SetValuePayload.path, SetValuePayload.path, hoid]
      constructor
      · rw [textsOverlap_iff, hend, hoid]
        simp
      · rintro ⟨-, hnot⟩
        exact hnot ⟨happ, hpath ▸ happ, by rw [hpath]⟩
  · rintro ⟨htexts, hpaths⟩
    obtain ⟨hends, htext | htext⟩ := textsOverlap_iff.mp htexts
    · rcases falseOverlap_of_prefix hp hq hends htext hpaths with h | h
      · exact Or.inl h
      · exact Or.inr (Or.inr h)
    · rcases falseOverlap_of_prefix hq hp (fun h => hends h.symm) htext
        (fun h => hpaths h.symm) with h | ⟨hoid, happ, hend⟩
      · exact Or.inr (Or.inl h)
      · have hpath : q.path = p.path := by rw [SetValuePayload.path, SetValuePayload.path, hoid]
        exact Or.inr (Or.inr ⟨hoid.symm, hpath ▸ happ, hoid ▸ hend⟩)

theorem missedOverlap_iff : MissedOverlap p q ↔ PathsOverlap p q ∧ ¬TextsOverlap p q := by
  rw [MissedOverlap, textsOverlap_iff]
  apply and_congr_right
  intro _
  tauto

/-- An index of the oids is written in two ways. -/
def Respelled (p q : SetValuePayload) : Prop :=
  ∃ body ∈ Path.bodies p.oid.toList, ∃ body' ∈ Path.bodies q.oid.toList, body ≠ body' ∧
    ∃ i, Path.bodySegment body = some (.index i) ∧ Path.bodySegment body' = some (.index i)

theorem respelled_of_isPrefix (hp : p.Parses) (hq : q.Parses) (hpath : p.path <+: q.path)
    (htext : ¬p.oid.toList <+: q.oid.toList) : Respelled p q := by
  obtain ⟨rest, hbodies, hrest⟩ := Path.parse_ok_iff.mp (parse_path hp)
  obtain ⟨rest', hbodies', hrest'⟩ := Path.parse_ok_iff.mp (parse_path hq)
  obtain ⟨below, hbelow⟩ := hpath
  rw [← hbelow] at hrest'
  have hne : ¬rest <+: rest' := by
    rintro ⟨more, rfl⟩
    apply htext
    rw [Path.text_of_bodies hbodies, Path.text_of_bodies hbodies', List.flatMap_append]
    exact ⟨_, rfl⟩
  obtain ⟨body, hbody, body', hbody', hrespelled⟩ := Path.exists_respelled hrest hrest' hne
  exact ⟨body, hbodies ▸ List.mem_cons_of_mem _ hbody, body',
    hbodies' ▸ List.mem_cons_of_mem _ hbody', hrespelled⟩

/-- A missed overlap has an index with two spellings, unless both oids end with the end
mark. -/
theorem MissedOverlap.respelled (hp : p.Parses) (hq : q.Parses) (h : MissedOverlap p q) :
    Respelled p q ∨ Respelled q p ∨
      (endsWith p.oid "/-" = true ∧ endsWith q.oid "/-" = true) := by
  obtain ⟨⟨hpath | hpath, -⟩, ⟨hpq, hqp⟩ | hends⟩ := h
  · exact Or.inl (respelled_of_isPrefix hp hq hpath hpq)
  · exact Or.inr (Or.inr hends)
  · exact Or.inr (Or.inl (respelled_of_isPrefix hq hp hpath hqp))
  · exact Or.inr (Or.inr hends)

/-! ## The whole payload -/

theorem somePair_congr {R R' : SetValuePayload → SetValuePayload → Prop}
    {src : List SetValuePayload} (h : ∀ p ∈ src, ∀ q ∈ src, R p q ↔ R' p q) :
    SomePair R src ↔ SomePair R' src := by
  apply exists_congr
  intro p
  apply exists_congr
  intro q
  apply and_congr_right
  intro hsub
  exact h p (hsub.subset List.mem_cons_self) q
    (hsub.subset (List.mem_cons_of_mem _ List.mem_cons_self))

theorem somePair_or {R R' : SetValuePayload → SetValuePayload → Prop}
    {src : List SetValuePayload} :
    SomePair (fun p q => R p q ∨ R' p q) src ↔ SomePair R src ∨ SomePair R' src := by
  constructor
  · rintro ⟨p, q, hsub, h | h⟩
    · exact Or.inl ⟨p, q, hsub, h⟩
    · exact Or.inr ⟨p, q, hsub, h⟩
  · rintro (⟨p, q, hsub, h⟩ | ⟨p, q, hsub, h⟩)
    · exact ⟨p, q, hsub, Or.inl h⟩
    · exact ⟨p, q, hsub, Or.inr h⟩

theorem not_noOverlap_iff {src : List SetValuePayload} :
    ¬Device.NoOverlap (src.map (·.oid)) ↔ SomePair TextsOverlap src := by
  rw [Device.NoOverlap, List.pairwise_map, List.pairwise_iff_forall_sublist]
  simp only [SomePair, TextsOverlap, not_forall, Bool.not_eq_false, exists_prop]

namespace Device

variable {d : Device} {s : d.State} {authz : Authorizer} {src : List SetValuePayload}

/-- Entries that are valid on their own are rejected exactly when the texts of some two oids
overlap. -/
theorem rejected_iff_textsOverlap (henabled : d.multiSetEnabled = true)
    (hvalid : ∀ p ∈ src, d.Valid s authz p) :
    (∃ ans, d.tryMultiSetValue s src authz = .ok ans ∧ IsOverlapStatus ans) ↔
      SomePair TextsOverlap src := by
  obtain ⟨ans, oids, hloop, hmem, hok, hcases⟩ := @tryLoop_of_valid d s authz src [] ok rfl
    List.Pairwise.nil hvalid
  have hparses : ∀ oid ∈ oids, ∃ path, Path.parse oid = .ok path := by
    intro oid hoid
    rcases hmem oid hoid with h | ⟨p, hp, rfl⟩
    · cases h
    · exact parses_of_valid (hvalid p hp)
  have htry : d.tryMultiSetValue s src authz = .ok ans := by
    rw [tryMultiSetValue_eq, henabled, if_neg (by simp), hloop, finish, resetLoop_ok hparses]
  rw [← not_noOverlap_iff]
  rw [List.nil_append] at hok
  rw [← hok, htry]
  constructor
  · rintro ⟨ans', hans', hover⟩
    rw [Except.ok.inj hans', hover.not_ok]
    exact Bool.false_ne_true
  · intro hnot
    exact ⟨ans, rfl, hcases.resolve_left hnot⟩

/-- The overlap test is exact on a payload of valid entries in just these cases: two entries
overlap both as paths and as texts; or there are both pairs that overlap by mistake and pairs
that are missed, or neither. -/
theorem overlap_exact_iff (d : Device) (s : d.State) (authz : Authorizer)
    (src : List SetValuePayload) (henabled : d.multiSetEnabled = true)
    (hvalid : ∀ p ∈ src, d.Valid s authz p) :
    ((∃ ans, d.tryMultiSetValue s src authz = .ok ans ∧ IsOverlapStatus ans) ↔
        SomePair PathsOverlap src) ↔
      SomePair (fun p q => PathsOverlap p q ∧ TextsOverlap p q) src ∨
        (SomePair FalseOverlap src ↔ SomePair MissedOverlap src) := by
  have hparses : ∀ p ∈ src, p.Parses := fun p hp => parses_of_valid (hvalid p hp)
  have htexts : SomePair TextsOverlap src ↔
      SomePair (fun p q => PathsOverlap p q ∧ TextsOverlap p q) src ∨
        SomePair FalseOverlap src := by
    rw [← somePair_or]
    apply somePair_congr
    intro p hp q hq
    rw [falseOverlap_iff (hparses p hp) (hparses q hq)]
    tauto
  have hpaths : SomePair PathsOverlap src ↔
      SomePair (fun p q => PathsOverlap p q ∧ TextsOverlap p q) src ∨
        SomePair MissedOverlap src := by
    rw [← somePair_or]
    apply somePair_congr
    intro p hp q hq
    rw [missedOverlap_iff]
    tauto
  rw [rejected_iff_textsOverlap henabled hvalid, htexts, hpaths]
  tauto

end Device

/-- A device with two INT32 params, the name of one of which continues that of the other. -/
def siblingDevice : Device where
  defaults := { defaultScope := "st2138:op" }
  params := .cons "ab" { oid := "ab" } (.elem .int32)
    (.cons "abc" { oid := "abc" } (.elem .int32) .nil)
  wellFormed := ⟨by simp [Fields.names], trivial, List.not_mem_nil, trivial, trivial⟩

/-- Two valid entries for `/ab` and `/abc` are rejected, although the params are siblings. -/
theorem siblings_rejected :
    (∀ p ∈ [⟨"/ab", .int32Value 1⟩, ⟨"/abc", .int32Value 2⟩],
      siblingDevice.Valid ((0, 0, ()) : Int32 × Int32 × Unit) .kAuthzDisabled p) ∧
    (∃ ans, siblingDevice.tryMultiSetValue ((0, 0, ()) : Int32 × Int32 × Unit)
        [⟨"/ab", .int32Value 1⟩, ⟨"/abc", .int32Value 2⟩] .kAuthzDisabled = .ok ans ∧
      Device.IsOverlapStatus ans) ∧
    ¬SomePair PathsOverlap [⟨"/ab", .int32Value 1⟩, ⟨"/abc", .int32Value 2⟩] := by
  have hab : Path.parse "/ab" = .ok [.name "ab"] := rfl
  have habc : Path.parse "/abc" = .ok [.name "abc"] := rfl
  refine ⟨?_, ⟨Device.overlapStatus "/ab" "/abc", ?_, "/ab", "/abc", rfl⟩, ?_⟩
  · intro p hp
    rcases List.mem_cons.mp hp with rfl | hp
    · refine ⟨⟨"OK", .ok⟩, ?_, rfl⟩
      simp only [Device.tryEntry, hab]
      rfl
    · rw [List.mem_singleton.mp hp]
      refine ⟨⟨"OK", .ok⟩, ?_, rfl⟩
      simp only [Device.tryEntry, habc]
      rfl
  · simp only [Device.tryMultiSetValue, Device.tryLoop, hab, habc]
    rfl
  · rintro ⟨p, q, hsub, ⟨hpath, -⟩⟩
    obtain ⟨rfl, hq⟩ := List.cons.inj (hsub.eq_of_length rfl)
    obtain ⟨rfl, -⟩ := List.cons.inj hq
    simp only [SetValuePayload.path, hab, habc] at hpath
    revert hpath
    decide

/-- An element that is set twice, with two spellings of its index that start alike. -/
theorem overlap_exact_iff_level :
    levelDevice.multiSetEnabled = true ∧
    (∀ p ∈ [⟨"/level/0", .int32Value 1⟩, ⟨"/level/00", .int32Value 2⟩],
      levelDevice.Valid (([7] : List Int32), ()) .kAuthzDisabled p) ∧
    (((∃ ans, levelDevice.tryMultiSetValue (([7] : List Int32), ())
          [⟨"/level/0", .int32Value 1⟩, ⟨"/level/00", .int32Value 2⟩] .kAuthzDisabled =
            .ok ans ∧ Device.IsOverlapStatus ans) ↔
        SomePair PathsOverlap [⟨"/level/0", .int32Value 1⟩, ⟨"/level/00", .int32Value 2⟩]) ↔
      SomePair (fun p q => PathsOverlap p q ∧ TextsOverlap p q)
          [⟨"/level/0", .int32Value 1⟩, ⟨"/level/00", .int32Value 2⟩] ∨
        (SomePair FalseOverlap [⟨"/level/0", .int32Value 1⟩, ⟨"/level/00", .int32Value 2⟩] ↔
          SomePair MissedOverlap
            [⟨"/level/0", .int32Value 1⟩, ⟨"/level/00", .int32Value 2⟩])) := by
  have hzero : Path.parse "/level/0" = .ok [.name "level", .index 0] := rfl
  have hzeros : Path.parse "/level/00" = .ok [.name "level", .index 0] := rfl
  have hvalid : ∀ p ∈ [⟨"/level/0", .int32Value 1⟩, ⟨"/level/00", .int32Value 2⟩],
      levelDevice.Valid (([7] : List Int32), ()) .kAuthzDisabled p := by
    intro p hp
    rcases List.mem_cons.mp hp with rfl | hp
    · refine ⟨⟨"OK", .ok⟩, ?_, rfl⟩
      simp only [Device.tryEntry, hzero]
      rfl
    · rw [List.mem_singleton.mp hp]
      refine ⟨⟨"OK", .ok⟩, ?_, rfl⟩
      simp only [Device.tryEntry, hzeros]
      rfl
  exact ⟨rfl, hvalid, Device.overlap_exact_iff levelDevice _ _ _ rfl hvalid⟩

end Catena.Store
