/-!
# Shortest decimals of doubles

A finite positive double stands for every real number that rounds to it.  Of
the decimals in that interval the shortest ones have the fewest digits, and of
those the one nearest to the double is its decimal; an exact tie goes to the
even last digit.  The search is carried out in exact natural-number arithmetic
on the two neighbours of the double on each decimal grid, coarsest grid first.
-/

namespace LocalFirst

/-- The number `digits * 10 ^ exponent`. -/
structure Decimal where
  digits : Nat
  exponent : Int

/-- The number `mantissa * 2 ^ exponent`, a positive double.  At a `boundary`
the next smaller double is only half as far away as the next larger one. -/
structure Dyadic where
  mantissa : Nat
  exponent : Int
  boundary : Bool

namespace Dyadic

/-- The magnitude of a finite double, read off its bit pattern. -/
def ofBits (bits : UInt64) : Dyadic :=
  let fraction := bits.toNat % Nat.pow 2 52
  let level : Nat := bits.toNat / Nat.pow 2 52 % Nat.pow 2 11
  if level = 0 then
    ⟨fraction, -1074, false⟩
  else
    ⟨Nat.pow 2 52 + fraction, Int.ofNat level - 1075, fraction == 0 && decide (1 < level)⟩

/-- Compare `count * 10 ^ place` with `quarters / 4` units of the double. -/
def compareGrid (value : Dyadic) (place : Int) (count quarters : Nat) : Ordering :=
  let binary := value.exponent - 2
  compare (count * Nat.pow 10 place.toNat * Nat.pow 2 (-binary).toNat)
    (quarters * Nat.pow 2 binary.toNat * Nat.pow 10 (-place).toNat)

/-- Whether `count * 10 ^ place` reads back as the double.  The ends of the
interval read back exactly when the mantissa is even. -/
def readsBack (value : Dyadic) (place : Int) (count : Nat) : Bool :=
  let lower := 4 * value.mantissa - (if value.boundary then 1 else 2)
  let upper := 4 * value.mantissa + 2
  let closed := value.mantissa % 2 = 0
  let above := match value.compareGrid place count lower with
    | .gt => true
    | .eq => closed
    | .lt => false
  let below := match value.compareGrid place count upper with
    | .lt => true
    | .eq => closed
    | .gt => false
  above && below

/-- The exponent of the leading decimal digit. -/
def magnitude (value : Dyadic) : Int :=
  let scaled :=
    value.mantissa * Nat.pow 2 value.exponent.toNat * Nat.pow 10 400 /
      Nat.pow 2 (-value.exponent).toNat
  ((Nat.toDigits 10 scaled).length : Int) - 401

/-- The largest multiple of `10 ^ place` that does not exceed the double. -/
def floorAt (value : Dyadic) (place : Int) : Nat :=
  value.mantissa * Nat.pow 2 value.exponent.toNat * Nat.pow 10 (-place).toNat /
    (Nat.pow 2 (-value.exponent).toNat * Nat.pow 10 place.toNat)

/-- The nearer of the two neighbours of the double on one grid that read back. -/
def neighbourAt? (value : Dyadic) (place : Int) : Option Nat :=
  let low := value.floorAt place
  match value.readsBack place low, value.readsBack place (low + 1) with
  | false, false => none
  | true, false => some low
  | false, true => some (low + 1)
  | true, true =>
      match value.compareGrid place (2 * low + 1) (8 * value.mantissa) with
      | .gt => some low
      | .lt => some (low + 1)
      | .eq => some (if low % 2 = 0 then low else low + 1)

/-- Try grids with one more digit each time. -/
def search (value : Dyadic) (place : Int) : Nat → Decimal
  | 0 => ⟨value.floorAt place, place⟩
  | more + 1 =>
      match value.neighbourAt? place with
      | some count => ⟨count, place⟩
      | none => value.search (place - 1) more

/-- The shortest decimal that reads back as the double, nearest first. -/
def shortest (value : Dyadic) : Decimal :=
  value.search value.magnitude 17

end Dyadic

end LocalFirst
