/-!
# Digits filled up to a width

The decimal digits of a number with zeros in front of them.  The zeros do not
change the number that the digits stand for.
-/

namespace LocalFirst

/-- The decimal digits of a number, filled up with zeros to a width. -/
def paddedDigits (width number : Nat) : List Char :=
  let digits := Nat.toDigits 10 number
  List.replicate (width - digits.length) '0' ++ digits

theorem ofDigitChars_replicate_zero (count : Nat) :
    Nat.ofDigitChars 10 (List.replicate count '0') 0 = 0 := by
  induction count with
  | zero => rfl
  | succ count ih =>
      rw [List.replicate_succ, Nat.ofDigitChars_cons]
      exact ih

/-- Whatever the width, the digits read back as the number. -/
@[simp]
theorem ofDigitChars_paddedDigits (width number : Nat) :
    Nat.ofDigitChars 10 (paddedDigits width number) 0 = number := by
  rw [paddedDigits, Nat.ofDigitChars_append, ofDigitChars_replicate_zero,
    Nat.ofDigitChars_ten_toDigits]

end LocalFirst
