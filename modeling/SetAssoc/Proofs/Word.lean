import Mathlib.Algebra.Group.Nat.Defs
import Mathlib.Data.Nat.Basic

/-!
# Arithmetic of machine words

Sums, differences, products and shifts of words that are given only where nothing is lost, and the
exponents of the powers of two.
-/

namespace SetAssoc

namespace Word

def sum? (first second : UInt32) : Option UInt32 :=
  let sum := first + second
  if first ≤ sum then some sum else none

def difference? (first second : UInt32) : Option UInt32 :=
  if second ≤ first then some (first - second) else none

def bit? (place : UInt32) : Option UInt32 := if place < 32 then some (1 <<< place) else none

theorem sum?_eq_some_iff {first second sum : UInt32} :
    sum? first second = some sum ↔ sum.toNat = first.toNat + second.toNat := by
  have bounds := And.intro first.toNat_lt second.toNat_lt
  have total := UInt32.toNat_add first second
  have below := sum.toNat_lt
  simp only [sum?, Option.ite_none_right_eq_some, Option.some.injEq, UInt32.le_iff_toNat_le,
    ← UInt32.toNat_inj]
  omega

theorem exists_difference? {first second : UInt32} (le : second.toNat ≤ first.toNat) :
    ∃ difference, difference? first second = some difference ∧
      difference.toNat = first.toNat - second.toNat := by
  have le := UInt32.le_iff_toNat_le.2 le
  exact ⟨_, if_pos le, UInt32.toNat_sub_of_le _ _ le⟩

theorem toNat_bit {place : UInt32} (within : place.toNat < 32) :
    ((1 : UInt32) <<< place).toNat = 2 ^ place.toNat := by
  rw [UInt32.toNat_shiftLeft, Nat.mod_eq_of_lt within, UInt32.toNat_one, Nat.one_shiftLeft]
  exact Nat.mod_eq_of_lt (Nat.pow_lt_pow_right (by decide) within)

theorem exists_bit? {place : UInt32} (within : place.toNat < 32) :
    ∃ word, bit? place = some word ∧ word.toNat = 2 ^ place.toNat :=
  ⟨_, if_pos (UInt32.lt_iff_toNat_lt.2 within), toNat_bit within⟩

/-! ## Powers of two -/

def isPowerOfTwo (word : UInt32) : Bool := word ≠ 0 && word &&& (word - 1) = 0

def trailingZeros (word : UInt32) : UInt32 := ⟨word.toBitVec.ctz⟩

theorem isPowerOfTwo_iff {word : UInt32} : isPowerOfTwo word = true ↔ word.toNat.isPowerOfTwo := by
  rw [← Nat.ne_zero_and_sub_one_eq_zero_iff_isPowerOfTwo]
  by_cases zero : word.toNat = 0
  · simp [isPowerOfTwo, ← UInt32.toNat_inj, zero]
  · have one_le : (1 : UInt32) ≤ word := UInt32.le_iff_toNat_le.2 (Nat.one_le_iff_ne_zero.2 zero)
    simp [isPowerOfTwo, ← UInt32.toNat_inj, UInt32.toNat_sub_of_le _ _ one_le, zero]

theorem toNat_trailingZeros {word : UInt32} {exponent : Nat} (power : word.toNat = 2 ^ exponent) :
    (trailingZeros word).toNat = exponent := by
  have nonzero : word.toBitVec ≠ 0#32 := by
    intro zero
    have positive := Nat.two_pow_pos exponent
    rw [← power, ← UInt32.toNat_toBitVec, zero] at positive
    exact absurd positive (by decide)
  have lowest := BitVec.getLsbD_true_ctz_of_ne_zero nonzero
  rw [← BitVec.testBit_toNat, UInt32.toNat_toBitVec, power, Nat.testBit_two_pow] at lowest
  exact (of_decide_eq_true lowest).symm

/-! ## Logarithms -/

def leadingZeros (word : UInt32) : UInt32 := ⟨word.toBitVec.clz⟩

theorem toNat_leadingZeros {word : UInt32} (positive : 0 < word.toNat) :
    (leadingZeros word).toNat = 31 - word.toNat.log2 := by
  have nonzero : word.toBitVec ≠ 0#32 := by
    intro zero
    rw [← UInt32.toNat_toBitVec, zero] at positive
    exact absurd positive (by decide)
  have few : word.toBitVec.clz.toNat < 32 := BitVec.lt_def.1 (BitVec.clz_lt_iff_ne_zero.2 nonzero)
  have lower := BitVec.two_pow_sub_clz_le_toNat_of_ne_zero (by decide) nonzero
  have upper := word.toBitVec.toNat_lt_two_pow_sub_clz
  have next : 32 - word.toBitVec.clz.toNat = 31 - word.toBitVec.clz.toNat + 1 := by omega
  rw [UInt32.toNat_toBitVec] at lower upper
  rw [next] at upper
  rw [(Nat.log2_eq_iff (Nat.ne_of_gt positive)).2 ⟨lower, upper⟩]
  exact (Nat.sub_sub_self (Nat.le_of_lt_succ few)).symm

/-! ## Products -/

def wideProduct (first second : UInt32) : UInt64 := first.toUInt64 * second.toUInt64

theorem toNat_mul_lt (first second : UInt32) : first.toNat * second.toNat < 2 ^ 32 * 2 ^ 32 :=
  Nat.mul_lt_mul'' first.toNat_lt second.toNat_lt

theorem toNat_wideProduct (first second : UInt32) :
    (wideProduct first second).toNat = first.toNat * second.toNat := by
  rw [wideProduct, UInt64.toNat_mul, UInt32.toNat_toUInt64, UInt32.toNat_toUInt64]
  exact Nat.mod_eq_of_lt (toNat_mul_lt first second)

theorem toNat_low_wideProduct (first second : UInt32) :
    (wideProduct first second).toUInt32.toNat = first.toNat * second.toNat % 2 ^ 32 := by
  rw [UInt64.toNat_toUInt32, toNat_wideProduct]

theorem toNat_high_wideProduct (first second : UInt32) :
    (wideProduct first second >>> 32).toUInt32.toNat = first.toNat * second.toNat / 2 ^ 32 := by
  rw [UInt64.toNat_toUInt32, UInt64.toNat_shiftRight, toNat_wideProduct, Nat.shiftRight_eq_div_pow]
  exact Nat.mod_eq_of_lt (Nat.div_lt_of_lt_mul (toNat_mul_lt first second))

end Word

/-! ## Double words -/

namespace DoubleWord

def sum? (first second : UInt64) : Option UInt64 :=
  let sum := first + second
  if first ≤ sum then some sum else none

def product? (first second : UInt64) : Option UInt64 :=
  if first.toNat * second.toNat < 2 ^ 64 then some (first * second) else none

theorem exists_sum? {first second : UInt64} (fits : first.toNat + second.toNat < 2 ^ 64) :
    ∃ sum, sum? first second = some sum ∧ sum.toNat = first.toNat + second.toNat := by
  have exact : (first + second).toNat = first.toNat + second.toNat := by
    rw [UInt64.toNat_add, Nat.mod_eq_of_lt fits]
  have le : first ≤ first + second := by
    rw [UInt64.le_iff_toNat_le, exact]
    omega
  exact ⟨_, if_pos le, exact⟩

theorem exists_product? {first second : UInt64} (fits : first.toNat * second.toNat < 2 ^ 64) :
    ∃ product, product? first second = some product ∧
      product.toNat = first.toNat * second.toNat :=
  ⟨_, if_pos fits, by rw [UInt64.toNat_mul, Nat.mod_eq_of_lt fits]⟩

end DoubleWord

end SetAssoc
