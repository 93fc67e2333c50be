import Catena.Framework.Cursor
import Catena.Common.Escape

/-!
# The cursor of a path

A `Path` keeps its segments in a vector and the number of segments that have been consumed beside
it. The cursor is only moved by `pop`, `unpop` and `rewind`, the vector only by `push_back` and
`popBack`, and `popBack` takes the cursor along when it removes a segment that has been consumed.
-/

namespace Catena.Common

open Catena.Framework Catena.Store

/-- The members of `Path`. The number of segments is a `size_t`. -/
@[ext]
structure Path where
  segments_ : List Segment
  frontIdx_ : Nat := 0
  bounded : segments_.length < 2 ^ 64

namespace Path

theorem length_le_of_new {jptr : String} {path : List Segment}
    (h : Store.Path.new jptr = .ok path) : path.length ≤ jptr.length := by
  obtain ⟨bodies, htext, hreads⟩ := Store.Path.spells_of_new h
  rw [← String.length_toList, htext, ← hreads.length_eq]
  clear htext hreads
  induction bodies with
  | nil => exact Nat.le_refl 0
  | cons body bodies ih =>
    rw [List.flatMap_cons, List.length_append, List.length_cons, List.length_cons]
    omega

/-- The constructor. The length of the pointer is a `size_t` as well. -/
def new (jptr : String) (hsize : jptr.length < 2 ^ 64) : Except Thrown Path :=
  match h : Store.Path.new jptr with
  | .ok segments => .ok ⟨segments, 0, Nat.lt_of_le_of_lt (length_le_of_new h) hsize⟩
  | .error why => .error why

theorem new_eq_ok_iff {jptr : String} {hsize : jptr.length < 2 ^ 64} {p : Path} :
    Path.new jptr hsize = .ok p ↔ Store.Path.new jptr = .ok p.segments_ ∧ p.frontIdx_ = 0 := by
  constructor
  · intro h
    rw [new] at h
    split at h
    · rename_i segments hsegments
      rw [hsegments, ← Except.ok.inj h]
      exact ⟨rfl, rfl⟩
    · cases h
  · rintro ⟨hsegments, hfront⟩
    rw [new]
    split
    · rename_i segments hok
      exact congrArg Except.ok
        (Path.ext (Except.ok.inj (hok.symm.trans hsegments)) hfront.symm)
    · rename_i why herror
      cases herror.symm.trans hsegments

/-- `Path::size`, an unsigned difference. -/
def size (p : Path) : Nat := (p.segments_.length + (2 ^ 64 - p.frontIdx_)) % 2 ^ 64

def empty (p : Path) : Bool := p.segments_.length ≤ p.frontIdx_

def walked (p : Path) : Nat := p.frontIdx_

def pop (p : Path) : Path :=
  if p.frontIdx_ < p.segments_.length then { p with frontIdx_ := p.frontIdx_ + 1 } else p

def unpop (p : Path) : Path :=
  if p.frontIdx_ > 0 then { p with frontIdx_ := p.frontIdx_ - 1 } else p

def rewind (p : Path) : Path := { p with frontIdx_ := 0 }

def popBack (p : Path) : Path :=
  if p.segments_.length > 0 then
    { segments_ := p.segments_.dropLast
      frontIdx_ :=
        if p.frontIdx_ > p.segments_.dropLast.length then p.segments_.dropLast.length
        else p.frontIdx_
      bounded := by
        have hbounded := p.bounded
        rw [List.length_dropLast]
        omega }
  else p

/-- `std::vector::emplace_back`, `none` where it throws since the vector cannot grow. -/
def emplace_back (p : Path) (segment : Segment) : Option Path :=
  if h : (p.segments_ ++ [segment]).length < 2 ^ 64 then
    some { p with segments_ := p.segments_ ++ [segment], bounded := h }
  else none

/-- The segment that `Path::push_back` makes of a string. -/
def stringSegment (segment : String) : Segment :=
  if segment = "-" then .index Store.Path.kEnd
  else .name (String.ofList (escape_ segment.toList))

/-- `Path::push_back` for a string. -/
def push_back (p : Path) (segment : String) : Option Path := p.emplace_back (stringSegment segment)

/-- `Path::push_back` for an index. -/
def push_back_index (p : Path) (idx : Nat) : Option Path := p.emplace_back (.index idx)

/-- The loop of `Path::toString`. -/
def write (leading_slash : Bool) : Bool → List Segment → String
  | _, [] => ""
  | first, segment :: segments =>
      (if first && !leading_slash then "" else "/") ++ Store.Path.segmentText segment ++
        write leading_slash false segments

/-- The private `Path::toString`. It starts from an iterator that must not be past the end,
`none` where it is. -/
def toStringFrom (p : Path) (leading_slash : Bool) (startIdx : Nat) : Option String :=
  if startIdx ≤ p.segments_.length then
    some (write leading_slash true (p.segments_.drop startIdx))
  else none

def toString (p : Path) (leading_slash : Bool) : Option String :=
  p.toStringFrom leading_slash p.frontIdx_

def fqoid (p : Path) : Option String := p.toStringFrom true 0

end Path

/-- A call of a member function that changes a path. -/
inductive PathCall where
  | pop
  | popBack
  | unpop
  | rewind
  | push_back (segment : String)
  | push_back_index (idx : Nat)
  deriving DecidableEq, Repr

namespace Path

/-- The path behind a call. A `push_back` that throws leaves the path as it is. -/
def exec (p : Path) : PathCall → Path
  | .pop => p.pop
  | .popBack => p.popBack
  | .unpop => p.unpop
  | .rewind => p.rewind
  | .push_back segment => (p.push_back segment).getD p
  | .push_back_index idx => (p.push_back_index idx).getD p

def run (p : Path) (calls : List PathCall) : Path := calls.foldl exec p

/-! ## The path as a cursor over its segments -/

structure Represents (p : Path) (c : Cursor Segment) : Prop where
  segments : p.segments_ = c.all
  front : p.frontIdx_ = c.passed.length

/-- What a call does to the cursor. -/
def move (c : Cursor Segment) : PathCall → Cursor Segment
  | .pop => c.advance
  | .popBack => c.dropBack
  | .unpop => c.retreat
  | .rewind => c.rewind
  | .push_back segment => grow c (stringSegment segment)
  | .push_back_index idx => grow c (.index idx)
where
  /-- A segment is added if the vector can grow. -/
  grow (c : Cursor Segment) (segment : Segment) : Cursor Segment :=
    if (c.all ++ [segment]).length < 2 ^ 64 then c.push segment else c

/-- What holds of a path with its cursor within the segments. -/
structure CursorLaws (p : Path) : Prop where
  front_le : p.frontIdx_ ≤ p.segments_.length
  size_add_walked : p.size + p.walked = p.segments_.length
  toString_isSome : ∀ leading_slash, (p.toString leading_slash).isSome = true
  fqoid_pop : p.pop.fqoid = p.fqoid
  fqoid_unpop : p.unpop.fqoid = p.fqoid
  fqoid_rewind : p.rewind.fqoid = p.fqoid
  unpop_pop : p.pop ≠ p → p.pop.unpop = p
  popBack_push_back : ∀ segment q, p.push_back segment = some q → q.popBack = p
  popBack_push_back_index : ∀ idx q, p.push_back_index idx = some q → q.popBack = p

variable {p q : Path} {c : Cursor Segment}

namespace Represents

theorem unique (hp : p.Represents c) (hq : q.Represents c) : p = q :=
  Path.ext (hp.segments.trans hq.segments.symm) (hp.front.trans hq.front.symm)

theorem length (h : p.Represents c) : p.segments_.length = p.frontIdx_ + c.ahead.length := by
  rw [h.segments, h.front, c.length_all]

theorem pop (h : p.Represents c) : p.pop.Represents c.advance := by
  have hlength := h.length
  refine ⟨?_, ?_⟩
  · rw [c.all_advance, ← h.segments, Path.pop]
    split <;> rfl
  · obtain ⟨passed, _ | ⟨a, ahead⟩⟩ := c
    · rw [Path.pop, if_neg (by simp at hlength; omega)]
      exact h.front
    · rw [Path.pop, if_pos (by simp at hlength; omega)]
      exact congrArg (· + 1) h.front

theorem unpop (h : p.Represents c) : p.unpop.Represents c.retreat := by
  have hfront := h.front
  refine ⟨?_, ?_⟩
  · rw [c.all_retreat, ← h.segments, Path.unpop]
    split <;> rfl
  · obtain ⟨_ | ⟨a, passed⟩, ahead⟩ := c
    · rw [Path.unpop, if_neg (by rw [hfront]; exact Nat.lt_irrefl 0)]
      exact hfront
    · rw [Path.unpop, if_pos (by rw [hfront]; exact Nat.succ_pos _)]
      exact congrArg (· - 1) hfront

theorem rewind (h : p.Represents c) : p.rewind.Represents c.rewind := ⟨h.segments, rfl⟩

theorem frontIdx_popBack (h : p.Represents c) :
    p.popBack.frontIdx_ = min p.frontIdx_ (p.segments_.length - 1) := by
  have hlength := h.length
  rw [Path.popBack]
  split
  · simp only [List.length_dropLast]
    split <;> omega
  · omega

theorem popBack (h : p.Represents c) : p.popBack.Represents c.dropBack := by
  have hlength := h.length
  refine ⟨?_, ?_⟩
  · rw [c.all_dropBack, ← h.segments, Path.popBack]
    split
    · rfl
    · rename_i hnone
      rw [List.eq_nil_of_length_eq_zero (Nat.eq_zero_of_not_pos hnone)]
      rfl
  · rw [h.frontIdx_popBack, hlength, h.front]
    obtain ⟨passed, _ | ⟨a, ahead⟩⟩ := c
    · simp only [Cursor.dropBack, List.length_tail, List.length_nil]
      omega
    · simp only [Cursor.dropBack, List.length_cons]
      omega

theorem emplace_back (h : p.Represents c) (segment : Segment) :
    ((p.emplace_back segment).getD p).Represents (move.grow c segment) := by
  rw [Path.emplace_back, move.grow, ← h.segments]
  split
  · exact ⟨(congrArg (· ++ [segment]) h.segments).trans (c.all_push segment).symm, h.front⟩
  · exact h

theorem exec (h : p.Represents c) (call : PathCall) : (p.exec call).Represents (move c call) := by
  cases call with
  | pop => exact h.pop
  | popBack => exact h.popBack
  | unpop => exact h.unpop
  | rewind => exact h.rewind
  | push_back segment => exact h.emplace_back _
  | push_back_index idx => exact h.emplace_back _

theorem run (h : p.Represents c) (calls : List PathCall) :
    (p.run calls).Represents (calls.foldl move c) := by
  induction calls generalizing p c with
  | nil => exact h
  | cons call calls ih => exact ih (h.exec call)

theorem new {jptr : String} {hsize : jptr.length < 2 ^ 64} (h : Path.new jptr hsize = .ok p) :
    p.Represents ⟨[], p.segments_⟩ :=
  ⟨rfl, (new_eq_ok_iff.mp h).2⟩

/-! ## What the calls of a represented path do -/

theorem front_le (h : p.Represents c) : p.frontIdx_ ≤ p.segments_.length := by
  have hlength := h.length
  omega

theorem size_eq (h : p.Represents c) : p.size = c.ahead.length := by
  have hlength := h.length
  have hbounded := p.bounded
  have hsum : p.segments_.length + (2 ^ 64 - p.frontIdx_) = c.ahead.length + 2 ^ 64 := by omega
  rw [size, hsum, Nat.add_mod_right, Nat.mod_eq_of_lt (by omega)]

theorem size_add_walked (h : p.Represents c) : p.size + p.walked = p.segments_.length := by
  rw [h.size_eq, h.length, walked, Nat.add_comm]

theorem toString_isSome (h : p.Represents c) (leading_slash : Bool) :
    (p.toString leading_slash).isSome = true := by
  rw [toString, toStringFrom, if_pos h.front_le]
  rfl

theorem unpop_pop (h : p.Represents c) (hne : p.pop ≠ p) : p.pop.unpop = p := by
  have hahead : c.ahead ≠ [] := by
    intro hnil
    have hpop := h.pop
    rw [Cursor.advance_of_nil hnil] at hpop
    exact hne (hpop.unique h)
  have hback := h.pop.unpop
  rw [Cursor.retreat_advance hahead] at hback
  exact hback.unique h

theorem of_emplace_back (h : p.Represents c) {segment : Segment}
    (hpush : p.emplace_back segment = some q) : q.Represents (c.push segment) := by
  rw [Path.emplace_back] at hpush
  obtain ⟨_, hq⟩ := Option.dite_none_right_eq_some.mp hpush
  rw [← Option.some.inj hq]
  exact ⟨(congrArg (· ++ [segment]) h.segments).trans (c.all_push segment).symm, h.front⟩

theorem popBack_emplace_back (h : p.Represents c) {segment : Segment}
    (hpush : p.emplace_back segment = some q) : q.popBack = p := by
  have hback := (h.of_emplace_back hpush).popBack
  rw [Cursor.dropBack_push] at hback
  exact hback.unique h

theorem empty_iff (h : p.Represents c) : p.empty = true ↔ c.ahead = [] := by
  rw [empty, decide_eq_true_eq, h.length, ← List.length_eq_zero_iff]
  omega

end Represents

theorem fqoid_congr (h : p.segments_ = q.segments_) : p.fqoid = q.fqoid := by
  rw [fqoid, fqoid, toStringFrom, toStringFrom, h]

/-- Whatever is called on a path that has been parsed, the cursor stays within the segments. -/
theorem cursor_invariant {jptr : String} {hsize : jptr.length < 2 ^ 64} {parsed : Path}
    (hnew : Path.new jptr hsize = .ok parsed) (calls : List PathCall) :
    CursorLaws (parsed.run calls) := by
  have h := (Represents.new hnew).run calls
  exact
    { front_le := h.front_le
      size_add_walked := h.size_add_walked
      toString_isSome := h.toString_isSome
      fqoid_pop := fqoid_congr (h.pop.segments.trans ((Cursor.all_advance _).trans h.segments.symm))
      fqoid_unpop :=
        fqoid_congr (h.unpop.segments.trans ((Cursor.all_retreat _).trans h.segments.symm))
      fqoid_rewind := rfl
      unpop_pop := h.unpop_pop
      popBack_push_back := fun _ _ hpush => h.popBack_emplace_back hpush
      popBack_push_back_index := fun _ _ hpush => h.popBack_emplace_back hpush }

def testPath : Path := ⟨[.name "test", .index 0], 0, by decide⟩

theorem cursor_invariant_test :
    Path.new "/test/0" (by decide) = .ok testPath ∧
      CursorLaws (testPath.run [.pop, .pop, .popBack, .push_back "a/b"]) := by
  have hnew : Path.new "/test/0" (by decide) = .ok testPath :=
    new_eq_ok_iff.mpr ⟨(Store.Path.new_eq_parse _).trans rfl, rfl⟩
  exact ⟨hnew, cursor_invariant hnew _⟩

example : testPath.run [.pop, .pop, .popBack, .push_back "a/b"] =
    ⟨[.name "test", .name "a~1b"], 1, by decide⟩ := rfl

end Path

end Catena.Common
