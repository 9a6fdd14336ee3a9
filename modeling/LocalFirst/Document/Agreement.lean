import LocalFirst.Document.Number

/-!
# Agreement of documents

Two documents agree when their arrays agree item by item, their objects have
the same keys with agreeing values in whatever order, and their scalars agree
by a given rule.  Equality takes the rule that keeps integers and floats apart;
equivalence takes the rule by which `1` and `1.0` are the same number.
-/

namespace LocalFirst

namespace Document

mutual

/-- Agreement of two documents under a rule for scalars and for documents of
different kinds. -/
def agree (scalars : Document → Document → Bool) : Document → Document → Bool
  | .array items, .array others => agreeItems scalars items others
  | .object members, .object others =>
      members.length == others.length && agreeMembers scalars members others
  | document, other => scalars document other

/-- Agreement of two arrays, which must have the same length. -/
def agreeItems (scalars : Document → Document → Bool) :
    List Document → List Document → Bool
  | [], [] => true
  | item :: items, other :: others =>
      agree scalars item other && agreeItems scalars items others
  | _, _ => false

/-- Every member on the left agrees with the member of the same key on the
right. -/
def agreeMembers (scalars : Document → Document → Bool) :
    List (String × Document) → List (String × Document) → Bool
  | [], _ => true
  | (key, value) :: members, others =>
      (match Members.get? key others with
        | some other => agree scalars value other
        | none => false) && agreeMembers scalars members others

end

/-- Scalars are the same when they have the same kind and the same value. -/
def sameScalar : Document → Document → Bool
  | .null, .null => true
  | .bool left, .bool right => left == right
  | .int left, .int right => left == right
  | .float left, .float right => left == right
  | .string left, .string right => left == right
  | _, _ => false

/-- Scalars are equivalent when they are equal numbers or the same. -/
def equivalentScalar (left right : Document) : Bool :=
  match left.number?, right.number? with
  | some left, some right => left.compare right == .eq
  | _, _ => sameScalar left right

/-- Equality of documents.  The order of members does not matter. -/
def same (left right : Document) : Bool :=
  agree sameScalar left right

/-- Equality of documents by which `1` and `1.0` are the same number. -/
def equivalent (left right : Document) : Bool :=
  agree equivalentScalar left right

end Document

end LocalFirst
