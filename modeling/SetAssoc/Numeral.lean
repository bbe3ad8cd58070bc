/-!
# Numerals

Unsigned numbers written in a radix of at most sixteen. Digits are ASCII; letters of either case are
the digits from ten on.
-/

namespace SetAssoc

def digit? (radix : Nat) (c : Char) : Option Nat :=
  let value :=
    if '0' ≤ c ∧ c ≤ '9' then c.toNat - '0'.toNat
    else if 'a' ≤ c ∧ c ≤ 'f' then c.toNat - 'a'.toNat + 10
    else if 'A' ≤ c ∧ c ≤ 'F' then c.toNat - 'A'.toNat + 10
    else radix
  if value < radix then some value else none

def numeralFrom? (radix start : Nat) (digits : List Char) : Option Nat :=
  digits.foldlM (fun value c => (digit? radix c).map (value * radix + ·)) start

def numeral? (radix : Nat) (digits : List Char) : Option Nat :=
  if digits.isEmpty then none else numeralFrom? radix 0 digits

def word? (radix : Nat) (digits : List Char) : Option UInt32 :=
  (numeral? radix digits).bind fun value =>
    if value < UInt32.size then some value.toUInt32 else none

end SetAssoc
