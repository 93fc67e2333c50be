import Mathlib.Algebra.GroupWithZero.Nat
import Catena.Store.Status

/-!
# Json pointers

`Path::Path` splits a json pointer into segments. Since no segment body contains a solidus,
matching the starred segment expression is the same as splitting at every solidus and
matching each body.
-/

namespace Catena.Store

/-- `Path::Segment`: an array index or an oid. -/
inductive Segment where
  | index (i : Nat)
  | name (oid : String)
  deriving DecidableEq, Repr

namespace Path

/-- `Path::kEnd`, the one-past-the-end index written `-`. -/
def kEnd : Nat := 2 ^ 64 - 1

/-- `Path::kNone`, the index that stands for no index. -/
def kNone : Nat := kEnd - 2

def isWordStart (c : Char) : Bool := c.isAlpha || c = '_'

def isWordChar (c : Char) : Bool := c.isAlphanum || c = '_'

/-- The bodies between solidi; the text before the first solidus is the head. -/
def bodies : List Char → List (List Char)
  | [] => [[]]
  | c :: cs =>
      if c = '/' then [] :: bodies cs
      else match bodies cs with
        | [] => [[c]]
        | b :: bs => (c :: b) :: bs

/-- One match of `kSegmentRegex`: an oid, a digit string or the end mark. -/
inductive Match where
  | oid (text : String)
  | idx (digits : List Char)
  | last
  deriving DecidableEq, Repr

def matchBody : List Char → Option Match
  | [] => none
  | c :: cs =>
      if isWordStart c && cs.all isWordChar then some (.oid (String.ofList (c :: cs)))
      else if (c :: cs).all Char.isDigit then some (.idx (c :: cs))
      else if c :: cs = ['-'] then some .last
      else none

/-- `std::stoul` on a digit string, with a 64-bit `unsigned long`. -/
def stoul (digits : List Char) : Except Thrown Nat :=
  let value := digits.foldl (fun n c => 10 * n + (c.toNat - '0'.toNat)) 0
  if value < 2 ^ 64 then .ok value else .error .outOfRange

def segmentOf : Match → Except Thrown Segment
  | .oid text => .ok (.name text)
  | .idx digits => (stoul digits).map .index
  | .last => .ok (.index kEnd)

def segmentsOf : List Match → Except Thrown (List Segment)
  | [] => .ok []
  | m :: ms => do
      let segment ← segmentOf m
      let segments ← segmentsOf ms
      return segment :: segments

/-- `Path::Path`: the segments of a json pointer. -/
def parse (jptr : String) : Except Thrown (List Segment) :=
  match bodies jptr.toList with
  | [] :: rest =>
      match rest.mapM matchBody with
      | some ms => segmentsOf ms
      | none => .error (.withStatus ⟨"'" ++ jptr ++ "' is not a valid path", .invalidArgument⟩)
  | _ => .error (.withStatus ⟨"'" ++ jptr ++ "' is not a valid path", .invalidArgument⟩)

def segmentText : Segment → String
  | .index i => if i = kEnd then "-" else toString i
  | .name oid => oid

/-- `Path::fqoid`. -/
def fqoid (segments : List Segment) : String :=
  String.join (segments.map fun segment => "/" ++ segmentText segment)

/-- `Path::back_as_index`, `none` where `back_is_index` is false. -/
def backIndex (segments : List Segment) : Option Nat :=
  match segments.getLast? with
  | some (.index i) => some i
  | _ => none

/-- `Path::popBack`. -/
def popBack (segments : List Segment) : List Segment := segments.dropLast

end Path

/-- `std::string::starts_with`. -/
def startsWith (text start : String) : Bool := start.toList.isPrefixOf text.toList

/-- `std::string::ends_with`. -/
def endsWith (text tail : String) : Bool := tail.toList.isSuffixOf text.toList

end Catena.Store
