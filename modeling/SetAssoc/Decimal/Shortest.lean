import SetAssoc.Decimal.Double
/-!
# Shortest decimals

The shortest decimal of a double has the fewest digits among the decimals that are read back as that
double; of several such decimals it is the nearest to the exact value, and of two that are equally
near the one whose last digit is even.
-/

namespace SetAssoc.Decimal

structure Scientific where
  digits : Nat
  exponent : Int
  deriving DecidableEq, Repr

/-- The positive numbers that are read back as one double, and the exact value of that double. All
are quotients with the same denominator. -/
structure Interval where
  low : Nat
  value : Nat
  high : Nat
  denominator : Nat
  closed : Bool

/-- The interval of the positive double `significand * 2 ^ exponent`: it reaches halfway to the two
neighbouring doubles, and the lower one is nearer below a power of two. The ends are read back as
the double with the even significand. -/
def Interval.ofDouble (significand : Nat) (exponent : Int) : Interval :=
  let gapBelow := if significand = 1 <<< 52 ∧ -1074 < exponent then 1 else 2
  let scale (n : Nat) : Nat := (Double.ratio n (exponent - 2)).1
  { low := scale (4 * significand - gapBelow)
    value := scale (4 * significand)
    high := scale (4 * significand + 2)
    denominator := (Double.ratio 1 (exponent - 2)).2
    closed := significand % 2 = 0 }

def powerOfTen (exponent : Int) : Nat × Nat :=
  match exponent with
  | .ofNat e => (Nat.pow 10 e, 1)
  | .negSucc e => (1, Nat.pow 10 (e + 1))

def Interval.contains (interval : Interval) (digits : Nat) (exponent : Int) : Bool :=
  let (numerator, denominator) := powerOfTen exponent
  let point := digits * numerator * interval.denominator
  let low := interval.low * denominator
  let high := interval.high * denominator
  if interval.closed then low ≤ point && point ≤ high else low < point && point < high

def Interval.nearest? (interval : Interval) (exponent : Int) : Option Nat :=
  let (numerator, denominator) := powerOfTen exponent
  let unit := numerator * interval.denominator
  let value := interval.value * denominator
  let below := value / unit
  let twice := 2 * (value % unit)
  let nearer := if twice < unit || (twice = unit && below % 2 = 0) then below else below + 1
  let farther := if nearer = below then below + 1 else below
  [nearer, farther].find? (interval.contains · exponent)

/-- The least `e` for which the value of the interval is below `10 ^ e`: the number of its digits
before the point, or for a value below one the number of zeros after the point, negated. -/
def Interval.magnitude (interval : Interval) : Int :=
  if interval.value < interval.denominator then
    let e : Int := 1 - ((interval.denominator / interval.value).repr.length : Int)
    let (_, scale) := powerOfTen e
    if interval.value * scale < interval.denominator then e else e + 1
  else
    (interval.value / interval.denominator).repr.length

def Scientific.trim (fuel : Nat) (number : Scientific) : Scientific :=
  match fuel with
  | 0 => number
  | fuel + 1 =>
      if number.digits ≠ 0 ∧ number.digits % 10 = 0 then
        Scientific.trim fuel { digits := number.digits / 10, exponent := number.exponent + 1 }
      else
        number

/-- The shortest decimal of the positive double `significand * 2 ^ exponent`. It has at most
seventeen digits, since the doubles are farther apart than decimals of seventeen digits. -/
def shortest (significand : Nat) (exponent : Int) : Scientific :=
  let interval := Interval.ofDouble significand exponent
  let magnitude := interval.magnitude
  let found := (List.range 17).findSome? fun count =>
    let exponent := magnitude - (count + 1 : Nat)
    (interval.nearest? exponent).map fun digits => { digits, exponent : Scientific }
  (found.getD { digits := 0, exponent := 0 }).trim 17

structure Style where
  leastPoint : Int
  greatestPoint : Int
  deriving DecidableEq, Repr

def exponentText (exponent : Int) : String :=
  (if 0 ≤ exponent then "+" else "-") ++ exponent.natAbs.repr

def Scientific.text (style : Style) (number : Scientific) : String :=
  let digits := number.digits.repr.toList
  let point : Int := digits.length + number.exponent
  let zeros (count : Nat) : List Char := List.replicate count '0'
  if point < style.leastPoint ∨ style.greatestPoint < point then
    let fraction := if digits.length = 1 then [] else '.' :: digits.drop 1
    .ofList (digits.take 1 ++ fraction ++ ['e']) ++ exponentText (point - 1)
  else if 0 ≤ number.exponent then
    .ofList (digits ++ zeros number.exponent.toNat ++ ['.', '0'])
  else if 0 < point then
    .ofList (digits.take point.toNat ++ '.' :: digits.drop point.toNat)
  else
    .ofList ('0' :: '.' :: zeros (-point).toNat ++ digits)

def shortestText (style : Style) (x : Float) : Option String :=
  match Double.ofFloat x with
  | .finite negative significand exponent =>
      let sign := if negative then "-" else ""
      some (sign ++ if significand = 0 then "0.0" else (shortest significand exponent).text style)
  | .infinite _ | .notANumber => none

end SetAssoc.Decimal
