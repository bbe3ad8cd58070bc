import SetAssoc.Decimal.Fixed
import SetAssoc.Json.Token
/-!
# Limits of buffered documents

Some documents are read into memory as a whole before they are interpreted, values of no interest
included. Then every string must have a text, every number must fit into a double, and arrays and
objects may nest at most 127 deep.
-/

namespace SetAssoc.Json

def maxNesting : Nat := 127

structure Scaled where
  significand : Nat
  exponent : Int

namespace Scaled

/-- Appends an integer digit. From the first digit that overflows the significand on, digits only
count towards the exponent. -/
def integerDigits (scaled : Scaled) : List Char → Scaled
  | [] => scaled
  | c :: digits =>
      let significand := scaled.significand * 10 + (digit? 10 c).getD 0
      if significand < UInt64.size then { scaled with significand }.integerDigits digits
      else { scaled with exponent := (c :: digits).length }

def fractionDigits (scaled : Scaled) : List Char → Scaled
  | [] => scaled
  | c :: digits =>
      let significand := scaled.significand * 10 + (digit? 10 c).getD 0
      if significand < UInt64.size then
        { significand, exponent := scaled.exponent - 1 : Scaled }.fractionDigits digits
      else
        scaled

def nearestDouble (n : Nat) : Nat :=
  let shift := n.log2 + 1 - 53
  Decimal.roundDiv n (1 <<< shift) <<< shift

def overflowBound : Nat := (1 <<< 1024) - (1 <<< 970)

/-- Whether the product of the significand and the power of ten, each rounded on its own, fits into
a double. No power of ten above `10 ^ 308` does. -/
def isFinite (scaled : Scaled) : Bool :=
  if scaled.significand = 0 || scaled.exponent ≤ 0 then true
  else if 308 < scaled.exponent then false
  else
    nearestDouble scaled.significand * nearestDouble (Nat.pow 10 scaled.exponent.toNat) <
      overflowBound

end Scaled

def exponentValue : List Char → Int
  | '-' :: digits => -((numeral? 10 digits).getD 0 : Nat)
  | '+' :: digits => ((numeral? 10 digits).getD 0 : Nat)
  | digits => ((numeral? 10 digits).getD 0 : Nat)

def isFinite (lexeme : String) : Bool :=
  let unsigned := lexeme.toList.dropWhile (· == '-')
  let scaled := (Scaled.mk 0 0).integerDigits (unsigned.takeWhile isDigit)
  let tail := unsigned.dropWhile isDigit
  let (scaled, tail) :=
    match tail with
    | '.' :: rest => (scaled.fractionDigits (rest.takeWhile isDigit), rest.dropWhile isDigit)
    | _ => (scaled, tail)
  { scaled with exponent := scaled.exponent + exponentValue (tail.drop 1) : Scaled }.isFinite

def nesting (tokens : List Token) : Nat :=
  (tokens.foldl (fun (depth, greatest) token =>
    match token with
    | .openArray | .openObject => (depth + 1, max greatest (depth + 1))
    | .closeArray | .closeObject => (depth - 1, greatest)
    | _ => (depth, greatest)) ((0, 0) : Nat × Nat)).2

def Token.isBufferable : Token → Bool
  | number lexeme => isFinite lexeme
  | string text => text.isSome
  | _ => true

def isBufferable (tokens : List Token) : Bool :=
  tokens.all Token.isBufferable && nesting tokens ≤ maxNesting

end SetAssoc.Json
