import Mathlib.Data.List.Basic

/-!
# File paths as texts

A path is a text, and `normalize` is the place it names once `.` and `..` are resolved without
looking at the file system. Following a list of components is climbing some levels and then
descending through names, and the place is inside a root exactly when the names that lead back
from the level reached to the root come first.
-/

namespace Catena.Framework

abbrev Text : Type := List Char

namespace FilePath

def components : Text → List Text
  | [] => [[]]
  | c :: text =>
      if c = '/' then [] :: components text else (components text).modifyHead (c :: ·)

/-- A place: the root or the current directory, some levels above it, then names, the last
first. -/
structure Location where
  absolute : Bool
  ups : Nat := 0
  names : List Text := []

namespace Location

/-- Follow one component. There is nothing above the root. -/
def step (l : Location) (name : Text) : Location :=
  if name = [] ∨ name = ['.'] then l
  else if name = ['.', '.'] then
    match l.names with
    | _ :: names => { l with names }
    | [] => if l.absolute then l else { l with ups := l.ups + 1 }
  else { l with names := name :: l.names }

def walk (l : Location) (names : List Text) : Location := names.foldl step l

/-- Climb and descend as `r` does. -/
def join (l r : Location) : Location where
  absolute := l.absolute
  ups := if l.absolute then l.ups else l.ups + (r.ups - l.names.length)
  names := r.names ++ l.names.drop r.ups

def Inside (root l : Location) : Prop :=
  l.absolute = root.absolute ∧ l.ups = root.ups ∧ root.names <:+ l.names

/-- After a climb of `ups` levels, descending through `names` leads back into the root. -/
def Returns (root : Location) (ups : Nat) (names : List Text) : Prop :=
  (root.absolute = true ∨ ups ≤ root.names.length) ∧ root.names.take ups <:+ names

end Location

/-- Where a list of components leads from the current directory. -/
def relative (names : List Text) : Location := Location.walk { absolute := false } names

def normalize (text : Text) : Location :=
  Location.walk { absolute := text.head? = some '/' } (components text)

namespace Location

theorem step_absolute (l : Location) (name : Text) : (l.step name).absolute = l.absolute := by
  rw [step]
  split
  · rfl
  · split
    · split
      · rfl
      · split <;> rfl
    · rfl

theorem step_nil (l : Location) : l.step [] = l := if_pos (.inl rfl)

theorem step_dot (l : Location) : l.step ['.'] = l := if_pos (.inr rfl)

theorem step_name (l : Location) {name : Text} (hnil : name ≠ []) (hdot : name ≠ ['.'])
    (hup : name ≠ ['.', '.']) : l.step name = { l with names := name :: l.names } := by
  rw [step, if_neg (not_or.mpr ⟨hnil, hdot⟩), if_neg hup]

theorem walk_absolute (l : Location) (names : List Text) :
    (l.walk names).absolute = l.absolute := by
  induction names generalizing l with
  | nil => rfl
  | cons name names ih => exact (ih (l.step name)).trans (l.step_absolute name)

/-- A step after a climb and a descent is a step of the climb and the descent. -/
theorem step_join (l r : Location) (name : Text) (hr : r.absolute = false) :
    (l.join r).step name = l.join (r.step name) := by
  by_cases hskip : name = [] ∨ name = ['.']
  · rw [step, step, if_pos hskip, if_pos hskip]
  by_cases hup : name = ['.', '.']
  · rw [step, step, if_neg hskip, if_neg hskip, if_pos hup, if_pos hup]
    cases hnames : r.names with
    | cons last names => simp [join, hnames]
    | nil =>
      simp only [hr, Bool.false_eq_true, if_false]
      cases hdrop : l.names.drop r.ups with
      | nil =>
        have hlength : l.names.length ≤ r.ups := List.drop_eq_nil_iff.mp hdrop
        have hdrop' : l.names.drop (r.ups + 1) = [] := List.drop_eq_nil_iff.mpr (by omega)
        cases habs : l.absolute with
        | true => simp [join, hnames, hdrop, hdrop', habs]
        | false =>
          simp only [join, hnames, hdrop, hdrop', habs, List.append_nil, Bool.false_eq_true,
            if_false]
          congr 1
          omega
      | cons last names =>
        have hlength : r.ups < l.names.length := by
          by_contra hge
          rw [List.drop_eq_nil_of_le (by omega)] at hdrop
          cases hdrop
        have hdrop' : l.names.drop (r.ups + 1) = names := by
          rw [← List.tail_drop, hdrop]
          rfl
        have hups : r.ups - l.names.length = r.ups + 1 - l.names.length := by omega
        simp only [join, hnames, hdrop, hdrop', List.nil_append, hups]
  · rw [step, step, if_neg hskip, if_neg hskip, if_neg hup, if_neg hup]
    rfl

theorem walk_join (l r : Location) (names : List Text) (hr : r.absolute = false) :
    (l.join r).walk names = l.join (r.walk names) := by
  induction names generalizing r with
  | nil => rfl
  | cons name names ih =>
    have hstep := ih (r.step name) (by rw [step_absolute, hr])
    rw [walk, List.foldl_cons, step_join l r name hr]
    exact hstep

theorem walk_eq_join (l : Location) (names : List Text) :
    l.walk names = l.join (relative names) := by
  have hstart : l.join { absolute := false } = l := by
    simp [join]
  rw [relative, ← walk_join l _ names rfl, hstart]

theorem suffix_append_right {a b c : List Text} : a ++ c <:+ b ++ c ↔ a <:+ b := by
  have hreverse : (a ++ c).reverse <+: (b ++ c).reverse ↔ a.reverse <+: b.reverse := by
    rw [List.reverse_append, List.reverse_append, List.prefix_append_right_inj]
  rwa [List.reverse_prefix, List.reverse_prefix] at hreverse

/-- A place reached from the root is inside it exactly when the descent leads back. -/
theorem inside_join_iff (root r : Location) :
    root.Inside (root.join r) ↔ root.Returns r.ups r.names := by
  have hups : (root.join r).ups = root.ups ↔
      root.absolute = true ∨ r.ups ≤ root.names.length := by
    simp only [join]
    cases root.absolute with
    | true => simp
    | false =>
      simp only [Bool.false_eq_true, if_false, false_or]
      omega
  have hnames : root.names <:+ (root.join r).names ↔ root.names.take r.ups <:+ r.names := by
    have hsplit := suffix_append_right (a := root.names.take r.ups) (b := r.names)
      (c := root.names.drop r.ups)
    rw [List.take_append_drop] at hsplit
    exact hsplit
  rw [Inside, Returns, hups, hnames]
  exact and_iff_right rfl

theorem inside_beside_iff (l r : Location) {a b : Text} (h : a ≠ b) :
    { l with names := a :: l.names }.Inside ({ l with names := b :: l.names }.join r) ↔
      r.ups ≠ 0 ∧ { l with names := a :: l.names }.Returns r.ups r.names := by
  cases hups : r.ups with
  | zero =>
    have hnot : ¬a :: l.names <:+ r.names ++ b :: l.names := by
      intro hsuffix
      have hlast : [a] <:+ r.names ++ [b] := by
        apply (suffix_append_right (c := l.names)).mp
        rw [List.append_assoc]
        exact hsuffix
      obtain ⟨before, hbefore⟩ := hlast
      exact h (List.cons.inj (List.append_inj' hbefore rfl).2).1
    simp [Inside, join, hups, hnot]
  | succ k =>
    have hsame : { l with names := b :: l.names }.join r = { l with names := a :: l.names }.join r := by
      simp [join, hups]
    rw [hsame, inside_join_iff, hups]
    simp

/-- Above the directory, the first climb stays inside the root. -/
theorem inside_parent_iff (l r : Location) :
    (l.step ['.', '.']).Inside (l.join r) ↔
      (l.step ['.', '.']).Returns (r.ups - 1) r.names ∧
        (l.absolute = false → l.names = [] → r.ups ≠ 0) := by
  have hstep : l.step ['.', '.'] = match l.names with
      | _ :: names => { l with names }
      | [] => if l.absolute then l else { l with ups := l.ups + 1 } := by
    simp [step]
  cases hnames : l.names with
  | nil =>
    cases habs : l.absolute with
    | true => simp [hstep, hnames, habs, Inside, Returns, join]
    | false =>
      simp [hstep, hnames, habs, Inside, Returns, join]
      omega
  | cons a names =>
    cases hups : r.ups with
    | zero =>
      have hbelow : names <:+ r.names ++ a :: names := ⟨r.names ++ [a], by simp⟩
      simp [hstep, hnames, Inside, Returns, join, hups, hbelow]
    | succ k =>
      have hsame : l.join r = { l with names }.join { r with ups := k } := by
        simp [join, hups, hnames]
      simp only [hstep, hnames, hsame, inside_join_iff]
      simp

end Location

theorem components_ne_nil (text : Text) : components text ≠ [] := by
  induction text with
  | nil => simp [components]
  | cons c text ih =>
    rw [components]
    split
    · simp
    · simpa [List.modifyHead_eq_nil_iff] using ih

theorem components_append_solidus (x y : Text) :
    components (x ++ '/' :: y) = components x ++ components y := by
  induction x with
  | nil => rfl
  | cons c x ih =>
    rw [List.cons_append, components, components, ih]
    split
    · rfl
    · cases hx : components x with
      | nil => exact absurd hx (components_ne_nil x)
      | cons part parts => rfl

theorem components_of_not_mem {part : Text} (h : '/' ∉ part) : components part = [part] := by
  induction part with
  | nil => rfl
  | cons c part ih =>
    rw [List.mem_cons, not_or] at h
    rw [components, if_neg (Ne.symm h.1), ih h.2]
    rfl

theorem flatMap_components (text : Text) :
    (components text).flatMap ('/' :: ·) = '/' :: text := by
  induction text with
  | nil => rfl
  | cons c text ih =>
    rw [components]
    split
    · rename_i hslash
      rw [List.flatMap_cons, ih, hslash]
      rfl
    · cases hparts : components text with
      | nil => exact absurd hparts (components_ne_nil text)
      | cons part parts =>
        rw [hparts, List.flatMap_cons, List.cons_append, List.cons.injEq] at ih
        rw [List.modifyHead_cons, List.flatMap_cons, List.cons_append, List.cons_append, ih.2]

theorem components_prefix_iff {text text' : Text} :
    components text <+: components text' ↔
      text' = text ∨ ∃ rest, text' = text ++ '/' :: rest := by
  constructor
  · rintro ⟨more, hmore⟩
    have hwhole := flatMap_components text'
    rw [← hmore, List.flatMap_append, flatMap_components] at hwhole
    have htext : text ++ more.flatMap ('/' :: ·) = text' := (List.cons.inj hwhole).2
    cases more with
    | nil => exact .inl (by rw [← htext, List.flatMap_nil, List.append_nil])
    | cons part more =>
      right
      refine ⟨part ++ more.flatMap ('/' :: ·), ?_⟩
      rw [← htext, List.flatMap_cons, List.cons_append]
  · rintro (rfl | ⟨rest, rfl⟩)
    · exact List.prefix_rfl
    · rw [components_append_solidus]
      exact List.prefix_append _ _

/-- The last component of a text, and those before it. -/
def lastComponent (text : Text) : Text := (components text).getLastD []

def directory (text : Text) : List Text := (components text).dropLast

theorem components_eq (text : Text) : components text = directory text ++ [lastComponent text] := by
  rw [directory, lastComponent, List.getLastD_eq_getLast?,
    List.getLast?_eq_some_getLast (components_ne_nil text), Option.getD_some]
  exact (List.dropLast_concat_getLast _).symm

theorem last_of_components_eq {text : Text} {init : List Text} {last : Text}
    (h : components text = init ++ [last]) : directory text = init ∧ lastComponent text = last := by
  simp [directory, lastComponent, h]

/-- The last component of one text and the first of the next become one. -/
theorem components_append (a b : Text) :
    components (a ++ b) = directory a ++
      (lastComponent a ++ (components b).headD []) :: (components b).tail := by
  induction a with
  | nil =>
    cases hb : components b with
    | nil => exact absurd hb (components_ne_nil b)
    | cons first rest => simp [directory, lastComponent, components, hb]
  | cons c a ih =>
    have ha := components_eq a
    rw [List.cons_append, components]
    by_cases hc : c = '/'
    · have hsplit : components (c :: a) = ([] :: directory a) ++ [lastComponent a] := by
        rw [components, if_pos hc, ha]
        rfl
      obtain ⟨hdirectory, hlast⟩ := last_of_components_eq hsplit
      rw [if_pos hc, ih, hdirectory, hlast]
      rfl
    · cases hinit : directory a with
      | nil =>
        have hsplit : components (c :: a) = [] ++ [c :: lastComponent a] := by
          rw [components, if_neg hc, ha, hinit]
          rfl
        obtain ⟨hdirectory, hlast⟩ := last_of_components_eq hsplit
        rw [if_neg hc, ih, hinit, hdirectory, hlast]
        rfl
      | cons first init =>
        have hsplit : components (c :: a) = ((c :: first) :: init) ++ [lastComponent a] := by
          rw [components, if_neg hc, ha, hinit]
          rfl
        obtain ⟨hdirectory, hlast⟩ := last_of_components_eq hsplit
        rw [if_neg hc, ih, hinit, hdirectory, hlast]
        rfl

/-- Where the components before the last one lead. -/
def base (text : Text) : Location :=
  Location.walk { absolute := text.head? = some '/' } (directory text)

/-- The suffix, written directly after the root, names a place inside the root. A suffix that
starts with a slash follows the root. Any other one changes the last name of the root, and has to
climb before it can lead back. -/
def Stays (root suffix : Text) : Prop :=
  if suffix.head? = some '/' ∨ suffix = [] ∨ lastComponent root = [] then
    let r := relative (components suffix)
    (root = [] → suffix.head? ≠ some '/') ∧ (normalize root).Returns r.ups r.names
  else if lastComponent root = ['.'] then
    let r := relative (components ('.' :: suffix))
    (normalize root).Returns r.ups r.names
  else if lastComponent root = ['.', '.'] then
    let r := relative (components ('.' :: '.' :: suffix))
    (normalize root).Returns (r.ups - 1) r.names ∧
      ((base root).absolute = false → (base root).names = [] → r.ups ≠ 0)
  else
    let r := relative (components suffix).tail
    r.ups ≠ 0 ∧ (normalize root).Returns r.ups r.names

theorem normalize_eq_step (root : Text) : normalize root = (base root).step (lastComponent root) := by
  rw [normalize, components_eq, base, Location.walk, List.foldl_append]
  rfl

theorem normalize_append (root suffix : Text) (h : root = [] → suffix.head? ≠ some '/') :
    normalize (root ++ suffix) = (base root).walk
      ((lastComponent root ++ (components suffix).headD []) :: (components suffix).tail) := by
  have hstart : ((root ++ suffix).head? = some '/') = (root.head? = some '/') := by
    cases root with
    | nil => simpa using h rfl
    | cons c root => simp
  rw [normalize, components_append, base, Location.walk, Location.walk, Location.walk,
    List.foldl_append]
  simp only [hstart]

theorem headD_components (suffix : Text) :
    (components suffix).headD [] = [] ↔ suffix.head? = some '/' ∨ suffix = [] := by
  cases suffix with
  | nil => simp [components]
  | cons c suffix =>
    cases hrest : components suffix with
    | nil => exact absurd hrest (components_ne_nil suffix)
    | cons first rest =>
      by_cases hc : c = '/' <;> simp [components, hc, hrest]

/-- A suffix that does not change the last name is followed from the root. -/
theorem normalize_append_of_plain {root suffix : Text} (h : root = [] → suffix.head? ≠ some '/')
    (hplain : suffix.head? = some '/' ∨ suffix = [] ∨ lastComponent root = []) :
    normalize (root ++ suffix) = (normalize root).walk (components suffix) := by
  have hcomponents : components suffix =
      (components suffix).headD [] :: (components suffix).tail := by
    cases hsuffix : components suffix with
    | nil => exact absurd hsuffix (components_ne_nil suffix)
    | cons first rest => rfl
  rw [normalize_append root suffix h, normalize_eq_step]
  by_cases hlast : lastComponent root = []
  · rw [hlast, Location.step_nil, List.nil_append, ← hcomponents]
  · have hhead : (components suffix).headD [] = [] := by
      rw [headD_components]
      tauto
    rw [hhead] at hcomponents
    rw [hhead, hcomponents, List.append_nil]
    exact (congrArg (Location.walk · _) (Location.step_nil _)).symm

theorem append_ordinary {last first : Text} (hfirst : first ≠ []) (hnil : last ≠ [])
    (hdot : last ≠ ['.']) : last ++ first ≠ [] ∧ last ++ first ≠ ['.'] ∧ last ++ first ≠ ['.', '.'] ∧
      last ≠ last ++ first := by
  cases last with
  | nil => exact absurd rfl hnil
  | cons c last =>
    cases last with
    | nil =>
      have hc : c ≠ '.' := fun hc => hdot (by rw [hc])
      simp [hc, hfirst]
    | cons c' last => simp [hfirst]

theorem inside_append_iff (root suffix : Text) :
    (normalize root).Inside (normalize (root ++ suffix)) ↔ Stays root suffix := by
  by_cases hstart : root = [] ∧ suffix.head? = some '/'
  · obtain ⟨rfl, hslash⟩ := hstart
    have habs : (normalize suffix).absolute ≠ (normalize []).absolute := by
      rw [normalize, normalize, Location.walk_absolute, Location.walk_absolute]
      simp [hslash]
    constructor
    · intro hinside
      exact absurd hinside.1 habs
    · intro hstays
      rw [Stays, if_pos (.inl hslash)] at hstays
      exact absurd hslash (hstays.1 rfl)
  have hrelative : root = [] → suffix.head? ≠ some '/' := fun hroot hslash => hstart ⟨hroot, hslash⟩
  by_cases hplain : suffix.head? = some '/' ∨ suffix = [] ∨ lastComponent root = []
  · rw [normalize_append_of_plain hrelative hplain, Location.walk_eq_join,
      Location.inside_join_iff, Stays, if_pos hplain]
    exact (and_iff_right hrelative).symm
  have hfirst : (components suffix).headD [] ≠ [] := by
    rw [Ne, headD_components]
    tauto
  have hlast : lastComponent root ≠ [] := fun hnil => hplain (.inr (.inr hnil))
  rw [normalize_append root suffix hrelative, Stays, if_neg hplain]
  by_cases hdot : lastComponent root = ['.']
  · have hcomponents : components ('.' :: suffix) =
        (['.'] ++ (components suffix).headD []) :: (components suffix).tail :=
      components_append ['.'] suffix
    rw [if_pos hdot, normalize_eq_step, hdot, Location.step_dot, Location.walk_eq_join,
      Location.inside_join_iff, hcomponents]
  by_cases hup : lastComponent root = ['.', '.']
  · have hcomponents : components ('.' :: '.' :: suffix) =
        (['.', '.'] ++ (components suffix).headD []) :: (components suffix).tail :=
      components_append ['.', '.'] suffix
    rw [if_neg hdot, if_pos hup, normalize_eq_step, hup, Location.walk_eq_join,
      Location.inside_parent_iff, hcomponents]
  · obtain ⟨hnil', hdot', hup', hne⟩ := append_ordinary hfirst hlast hdot
    rw [if_neg hdot, if_neg hup, normalize_eq_step, Location.step_name _ hlast hdot hup,
      Location.walk, List.foldl_cons, Location.step_name _ hnil' hdot' hup']
    rw [← Location.walk, Location.walk_eq_join, Location.inside_beside_iff _ _ hne]

end FilePath

end Catena.Framework
