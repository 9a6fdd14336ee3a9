/-!
# Update operators

The closed set of operators.  Their order here is the order in which the
entries of one update run.
-/

namespace LocalFirst

inductive Operator where
  | set
  | unset
  | rename
  | inc
  | mul
  | min
  | max
  | bit
  | currentDate
  | push
  | addToSet
  | pull
  | pop
  deriving DecidableEq, Repr, Inhabited

namespace Operator

/-- The operators in running order. -/
def all : List Operator :=
  [.set, .unset, .rename, .inc, .mul, .min, .max, .bit, .currentDate, .push, .addToSet,
    .pull, .pop]

/-- The place of an operator in running order. -/
def rank : Operator → Nat
  | .set => 0
  | .unset => 1
  | .rename => 2
  | .inc => 3
  | .mul => 4
  | .min => 5
  | .max => 6
  | .bit => 7
  | .currentDate => 8
  | .push => 9
  | .addToSet => 10
  | .pull => 11
  | .pop => 12

def name : Operator → String
  | .set => "$set"
  | .unset => "$unset"
  | .rename => "$rename"
  | .inc => "$inc"
  | .mul => "$mul"
  | .min => "$min"
  | .max => "$max"
  | .bit => "$bit"
  | .currentDate => "$currentDate"
  | .push => "$push"
  | .addToSet => "$addToSet"
  | .pull => "$pull"
  | .pop => "$pop"

def ofName? (name : String) : Option Operator :=
  all.find? (fun operator => operator.name == name)

theorem rank_injective {left right : Operator} (ranksEq : left.rank = right.rank) :
    left = right := by
  cases left <;> cases right <;> simp [rank] at ranksEq ⊢

theorem mem_all (operator : Operator) : operator ∈ all := by
  cases operator <;> decide

theorem ofName?_name (operator : Operator) : ofName? operator.name = some operator := by
  cases operator <;> decide

instance : Ord Operator :=
  ⟨compareOn rank⟩

instance : Std.TransOrd Operator :=
  inferInstanceAs (Std.TransCmp (compareOn rank))

instance : Std.LawfulEqOrd Operator where
  eq_of_compare equal :=
    rank_injective (Std.LawfulEqOrd.eq_of_compare (α := Nat) equal)

end Operator

end LocalFirst
