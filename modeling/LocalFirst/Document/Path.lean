import LocalFirst.Document.Basic

/-!
# Paths into documents

A path is a list of segments.  Its written form joins them with dots, so a
segment that itself holds a dot falls apart when the written form is read
again.  A segment names a member of an object and indexes an array.
-/

namespace LocalFirst

structure Path where
  segments : List String
  deriving DecidableEq, Inhabited

/-- Why a path cannot address a field. -/
inductive PathFault where
  | emptyPath
  | emptySegment
  deriving DecidableEq, Repr

namespace Path

/-- Cut a text at its dots.  There is always one piece more than dots. -/
def splitDots : List Char → List (List Char)
  | [] => [[]]
  | '.' :: rest => [] :: splitDots rest
  | char :: rest =>
      match splitDots rest with
      | [] => [[char]]
      | piece :: pieces => (char :: piece) :: pieces

/-- Put a dot between pieces. -/
def joinDots : List (List Char) → List Char
  | [] => []
  | [piece] => piece
  | piece :: next :: pieces => piece ++ '.' :: joinDots (next :: pieces)

/-- Read a written path.  The empty text is the path without segments. -/
def parse (written : String) : Path :=
  if written.isEmpty then ⟨[]⟩
  else ⟨(splitDots written.toList).map String.ofList⟩

/-- The written form. -/
def text (path : Path) : String :=
  String.ofList (joinDots (path.segments.map String.toList))

instance : Ord Path :=
  ⟨compareOn Path.segments⟩

instance : Std.TransOrd Path :=
  inferInstanceAs (Std.TransCmp (compareOn Path.segments))

instance : Std.LawfulEqOrd Path where
  eq_of_compare {left right} equal := by
    cases left
    cases right
    exact congrArg Path.mk (Std.LawfulEqOrd.eq_of_compare (α := List String) equal)

def isRoot (path : Path) : Bool :=
  path.segments.isEmpty

/-- The path without its last segment. -/
def parent? (path : Path) : Option Path :=
  if path.isRoot then none else some ⟨path.segments.dropLast⟩

def last? (path : Path) : Option String :=
  path.segments.getLast?

def child (path : Path) (segment : String) : Path :=
  ⟨path.segments ++ [segment]⟩

/-- What keeps the path from addressing a field: it has no segment at all, or
one of them is empty. -/
def fault? (path : Path) : Option PathFault :=
  if path.isRoot then some .emptyPath
  else if path.segments.any String.isEmpty then some .emptySegment
  else none

/-- Read a segment as an array index: digits, after one plus sign at most, that
fit an unsigned 64-bit word. -/
def index? (segment : String) : Option Nat :=
  let digits := match segment.toList with
    | '+' :: digits => digits
    | digits => digits
  if digits.isEmpty ∨ ¬ digits.all Char.isDigit then none
  else
    let index := Nat.ofDigitChars 10 digits 0
    if index < UInt64.size then some index else none

end Path

namespace Document

/-- The member or item of a document that one segment names. -/
def child? (document : Document) (segment : String) : Option Document :=
  match document with
  | .object members => Members.get? segment members
  | .array items => (Path.index? segment).bind (items[·]?)
  | _ => none

/-- The part of a document below a list of segments. -/
def below? (document : Document) : List String → Option Document
  | [] => some document
  | segment :: rest => (document.child? segment).bind (fun child => child.below? rest)

/-- The part of a document that a path addresses. -/
def resolve? (document : Document) (path : Path) : Option Document :=
  document.below? path.segments

end Document

end LocalFirst
