/-!
# The exact value of a double

A finite double is a sign and a natural number times a power of two. `Double.ofFloat` reads them off
its bits, and `Double.ratio` gives the magnitude as a quotient of natural numbers.
-/

namespace SetAssoc

inductive Double where
  | finite (negative : Bool) (significand : Nat) (exponent : Int)
  | infinite (negative : Bool)
  | notANumber
  deriving DecidableEq, Repr

namespace Double

def ofFloat (x : Float) : Double :=
  let bits := x.toBits.toNat
  let negative := bits.testBit 63
  let biased := (bits >>> 52) % 2048
  let fraction := bits % (1 <<< 52)
  if biased = 2047 then
    if fraction = 0 then infinite negative else notANumber
  else if biased = 0 then
    finite negative fraction (-1074)
  else
    finite negative (fraction + 1 <<< 52) ((biased : Int) - 1075)

def ratio (n : Nat) (exponent : Int) : Nat × Nat :=
  match exponent with
  | .ofNat e => (n <<< e, 1)
  | .negSucc e => (n, 1 <<< (e + 1))

end Double

end SetAssoc
