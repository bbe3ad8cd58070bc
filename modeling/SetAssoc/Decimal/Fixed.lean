import SetAssoc.Decimal.Double
/-!
# Decimals with a fixed number of places

`Decimal.fixed` writes the exact value of a double, rounded to the nearest decimal with the given
number of places. A value halfway between two decimals goes to the one whose last digit is even.
-/

namespace SetAssoc.Decimal

/-- The natural number nearest to a quotient; halfway between two, the even one. -/
def roundDiv (numerator denominator : Nat) : Nat :=
  let quotient := numerator / denominator
  let twice := 2 * (numerator % denominator)
  if twice < denominator then quotient
  else if denominator < twice then quotient + 1
  else quotient + quotient % 2

def pointed (n places : Nat) : String :=
  let scale := Nat.pow 10 places
  let fraction := (n % scale).repr
  (n / scale).repr ++ "." ++ String.ofList (List.replicate (places - fraction.length) '0') ++ fraction

def fixed (places : Nat) (x : Float) : String :=
  let sign (negative : Bool) : String := if negative then "-" else ""
  match Double.ofFloat x with
  | .finite negative significand exponent =>
      let (numerator, denominator) := Double.ratio significand exponent
      sign negative ++ pointed (roundDiv (numerator * Nat.pow 10 places) denominator) places
  | .infinite negative => sign negative ++ "inf"
  | .notANumber => "NaN"

end SetAssoc.Decimal
