import LocalFirst.Decimal.Shortest

/-!
# Written form of doubles

Digits become text by a layout: which exponents are written out in plain
notation, and how an exponent is marked otherwise.  Reading goes the other way,
from a mantissa and a decimal exponent to the nearest double.
-/

namespace LocalFirst

/-- A layout for finite numbers.  Leading digits at an exponent from
`plainFrom` to `plainTo` are written without an exponent mark. -/
structure DecimalLayout where
  plainFrom : Int
  plainTo : Int
  marker : String

namespace DecimalLayout

/-- Documents write `0.00001` and `1000000000000000.0` in full, and the next
powers of ten as `1e-6` and `1e+16`. -/
def document : DecimalLayout :=
  ⟨-5, 15, "e"⟩

/-- Digits without trailing zeros, as text. -/
def significant (digits : Nat) : List Char :=
  ((Nat.toDigits 10 digits).reverse.dropWhile (· == '0')).reverse

/-- Plain notation, with at least one digit on each side of the point. -/
def plain (digits : List Char) (leading : Int) : List Char :=
  if leading < 0 then
    '0' :: '.' :: List.replicate (-leading - 1).toNat '0' ++ digits
  else
    let whole := leading.toNat + 1
    let padded := digits ++ List.replicate (whole - digits.length) '0'
    let after := padded.drop whole
    padded.take whole ++ '.' :: (if after.isEmpty then ['0'] else after)

/-- Scientific notation with a signed exponent. -/
def scientific (layout : DecimalLayout) (digits : List Char) (leading : Int) : List Char :=
  let fraction := digits.drop 1
  let sign := if leading < 0 then '-' else '+'
  digits.take 1 ++ (if fraction.isEmpty then [] else '.' :: fraction) ++
    layout.marker.toList ++ sign :: Nat.toDigits 10 leading.natAbs

/-- A positive decimal, laid out. -/
def decimal (layout : DecimalLayout) (value : Decimal) : List Char :=
  let digits := significant value.digits
  let leading := value.exponent + (Nat.toDigits 10 value.digits).length - 1
  if layout.plainFrom ≤ leading ∧ leading ≤ layout.plainTo then
    plain digits leading
  else
    layout.scientific digits leading

/-- The text of a finite double. -/
def float (layout : DecimalLayout) (value : Float) : String :=
  let bits := value.toBits
  let magnitude := Dyadic.ofBits bits
  let body :=
    if magnitude.mantissa = 0 then ['0', '.', '0']
    else layout.decimal magnitude.shortest
  String.ofList (if bits.toNat / Nat.pow 2 63 = 1 then '-' :: body else body)

end DecimalLayout

/-- The double nearest to `mantissa * 10 ^ exponent`, or nothing when that is
too large for a double.  The two cut-offs only keep the powers of ten small. -/
def Decimal.toFloat? (value : Decimal) : Option Float :=
  let size := ((Nat.toDigits 10 value.digits).length : Int) + value.exponent
  if value.digits = 0 ∨ size < -340 then
    some 0.0
  else if 310 < size then
    none
  else
    let nearest :=
      Float.ofScientific value.digits (value.exponent < 0) value.exponent.natAbs
    if nearest.isInf then none else some nearest

end LocalFirst
