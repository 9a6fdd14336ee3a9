import LocalFirst.Decimal.Padded

/-!
# Identifiers

Versions, sessions and requests are named by identifiers: the digits of a serial
number behind a fixed beginning.  A node makes them from its own number and a
running count.  Serial numbers go through the pairs of node and count along
diagonals, so that neither one node nor two of them ever issue the same
identifier twice (`IdSource.identifier_inj`).
-/

namespace LocalFirst

/-- Where a node takes its identifiers from. -/
structure IdSource where
  node : Nat
  issued : Nat
  deriving DecidableEq, Inhabited

namespace IdSource

/-- The number of pairs on the diagonals before one. -/
def beforeDiagonal (diagonal : Nat) : Nat :=
  diagonal * (diagonal + 1) / 2

/-- The place of a pair when the pairs are counted along their diagonals. -/
def serial (node count : Nat) : Nat :=
  beforeDiagonal (node + count) + count

/-- The identifier that a node issues after `count` others.  It has 26 characters
unless the serial number needs more. -/
def identifier (node count : Nat) : String :=
  String.ofList ('0' :: '1' :: paddedDigits 24 (serial node count))

/-- Take the next identifier. -/
def next (source : IdSource) : String × IdSource :=
  (identifier source.node source.issued, { source with issued := source.issued + 1 })

theorem beforeDiagonal_succ (diagonal : Nat) :
    beforeDiagonal (diagonal + 1) = beforeDiagonal diagonal + (diagonal + 1) := by
  have factors :
      (diagonal + 1) * (diagonal + 1 + 1) = diagonal * (diagonal + 1) + 2 * (diagonal + 1) := by
    rw [← Nat.add_mul, Nat.mul_comm]
  rw [beforeDiagonal, beforeDiagonal, factors, Nat.add_mul_div_left _ _ (by decide)]

/-- A diagonal ends before the next ones begin. -/
theorem beforeDiagonal_add_lt {earlier later : Nat} (below : earlier < later) :
    beforeDiagonal earlier + earlier < beforeDiagonal later := by
  induction below with
  | refl =>
      rw [beforeDiagonal_succ]
      omega
  | step _ ih =>
      rw [beforeDiagonal_succ]
      omega

theorem serial_inj {node count otherNode otherCount : Nat} :
    serial node count = serial otherNode otherCount ↔
      node = otherNode ∧ count = otherCount := by
  refine ⟨fun serialsEq => ?_, fun ⟨nodesEq, countsEq⟩ => by rw [nodesEq, countsEq]⟩
  unfold serial at serialsEq
  rcases Nat.lt_trichotomy (node + count) (otherNode + otherCount) with below | same | above
  · have := beforeDiagonal_add_lt below
    omega
  · rw [same] at serialsEq
    omega
  · have := beforeDiagonal_add_lt above
    omega

/-- Identifiers are equal only when node and count are. -/
theorem identifier_inj {node count otherNode otherCount : Nat} :
    identifier node count = identifier otherNode otherCount ↔
      node = otherNode ∧ count = otherCount := by
  refine ⟨fun identifiersEq => ?_, fun ⟨nodesEq, countsEq⟩ => by rw [nodesEq, countsEq]⟩
  have listsEq := String.ofList_inj.1 identifiersEq
  simp only [List.cons.injEq, true_and] at listsEq
  have serialsEq := congrArg (fun digits => Nat.ofDigitChars 10 digits 0) listsEq
  simp only [ofDigitChars_paddedDigits] at serialsEq
  exact serial_inj.1 serialsEq

end IdSource

end LocalFirst
