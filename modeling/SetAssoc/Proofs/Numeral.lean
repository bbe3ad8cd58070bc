import Mathlib.Data.List.Forall2
import Mathlib.Data.Nat.Digits.Defs
import Mathlib.Tactic.IntervalCases
import SetAssoc.Numeral

/-!
# Numerals

What is read is one or more digits, with their positional value.
-/

namespace SetAssoc

/-! ## Digits and their value -/

def IsDigit (radix : Nat) (c : Char) (value : Nat) : Prop :=
  value < radix ∧ (c = value.digitChar ∨ c = value.digitChar.toUpper)

instance (radix : Nat) (c : Char) (value : Nat) : Decidable (IsDigit radix c value) :=
  inferInstanceAs (Decidable (_ ∧ _))

def IsNumeral (radix : Nat) (digits : List Char) (value : Nat) : Prop :=
  digits ≠ [] ∧
    ∃ values, List.Forall₂ (IsDigit radix) digits values ∧ Nat.ofDigits radix values.reverse = value

variable {radix : Nat}

theorem exists_offset {first last c : Char} (lower : first ≤ c) (upper : c ≤ last) :
    ∃ offset ≤ last.toNat - first.toNat, c = Char.ofNat (first.toNat + offset) := by
  have above : first.toNat ≤ c.toNat := lower
  have below : c.toNat ≤ last.toNat := upper
  refine ⟨c.toNat - first.toNat, by omega, ?_⟩
  rw [Nat.add_sub_cancel' above, Char.ofNat_toNat]

theorem eq_digitChar {c : Char} (lower : '0' ≤ c) (upper : c ≤ '9') :
    c = (c.toNat - '0'.toNat).digitChar := by
  obtain ⟨offset, small, rfl⟩ := exists_offset lower upper
  change offset ≤ 9 at small
  interval_cases offset <;> rfl

theorem eq_digitChar_lower {c : Char} (lower : 'a' ≤ c) (upper : c ≤ 'f') :
    c = (c.toNat - 'a'.toNat + 10).digitChar := by
  obtain ⟨offset, small, rfl⟩ := exists_offset lower upper
  change offset ≤ 5 at small
  interval_cases offset <;> rfl

theorem eq_digitChar_upper {c : Char} (lower : 'A' ≤ c) (upper : c ≤ 'F') :
    c = (c.toNat - 'A'.toNat + 10).digitChar.toUpper := by
  obtain ⟨offset, small, rfl⟩ := exists_offset lower upper
  change offset ≤ 5 at small
  interval_cases offset <;> rfl

theorem isDigit_of_digit? {c : Char} {value : Nat} (read : digit? radix c = some value) :
    IsDigit radix c value := by
  simp only [digit?, Option.ite_none_right_eq_some, Option.some.injEq] at read
  obtain ⟨bound, rfl⟩ := read
  refine ⟨bound, ?_⟩
  by_cases decimal : '0' ≤ c ∧ c ≤ '9'
  · rw [if_pos decimal]
    exact .inl (eq_digitChar decimal.1 decimal.2)
  by_cases lower : 'a' ≤ c ∧ c ≤ 'f'
  · rw [if_neg decimal, if_pos lower]
    exact .inl (eq_digitChar_lower lower.1 lower.2)
  by_cases upper : 'A' ≤ c ∧ c ≤ 'F'
  · rw [if_neg decimal, if_neg lower, if_pos upper]
    exact .inr (eq_digitChar_upper upper.1 upper.2)
  · rw [if_neg decimal, if_neg lower, if_neg upper] at bound
    exact absurd bound (Nat.lt_irrefl radix)

theorem digit?_sixteen : ∀ value < 16, digit? 16 value.digitChar = some value ∧
    digit? 16 value.digitChar.toUpper = some value := by
  decide

theorem digit?_of_sixteen {c : Char} {value : Nat} (read : digit? 16 c = some value)
    (bound : value < radix) : digit? radix c = some value := by
  simp only [digit?, Option.ite_none_right_eq_some, Option.some.injEq] at read ⊢
  obtain ⟨small, rfl⟩ := read
  grind

theorem digit?_eq_some_iff (small : radix ≤ 16) {c : Char} {value : Nat} :
    digit? radix c = some value ↔ IsDigit radix c value := by
  refine ⟨isDigit_of_digit?, ?_⟩
  rintro ⟨bound, rfl | rfl⟩
  · exact digit?_of_sixteen (digit?_sixteen value (by omega)).1 bound
  · exact digit?_of_sixteen (digit?_sixteen value (by omega)).2 bound

theorem numeralFrom?_eq_some_iff (small : radix ≤ 16) {digits : List Char} {start value : Nat} :
    numeralFrom? radix start digits = some value ↔
      ∃ values, List.Forall₂ (IsDigit radix) digits values ∧
        start * radix ^ digits.length + Nat.ofDigits radix values.reverse = value := by
  induction digits generalizing start with
  | nil => simp [numeralFrom?]
  | cons c digits ih =>
      have read : numeralFrom? radix start (c :: digits) =
          (digit? radix c).bind fun first => numeralFrom? radix (start * radix + first) digits := by
        simp only [numeralFrom?, List.foldlM_cons]
        cases digit? radix c <;> rfl
      -- the first digit counts as often as the digits after it allow
      have place {first : Nat} {values : List Nat} (rest : List.Forall₂ (IsDigit radix) digits values) :
          start * radix ^ (c :: digits).length + Nat.ofDigits radix (first :: values).reverse =
            (start * radix + first) * radix ^ digits.length + Nat.ofDigits radix values.reverse := by
        rw [Nat.ofDigits_reverse_cons, ← rest.length_eq, List.length_cons, pow_succ]
        ring
      simp only [read, Option.bind_eq_some_iff, ih, digit?_eq_some_iff small, List.forall₂_cons_left_iff]
      constructor
      · rintro ⟨first, digit, values, rest, rfl⟩
        exact ⟨first :: values, ⟨first, values, digit, rest, rfl⟩, place rest⟩
      · rintro ⟨_, ⟨first, values, digit, rest, rfl⟩, rfl⟩
        exact ⟨first, digit, values, rest, (place rest).symm⟩

theorem numeral?_eq_some_iff (small : radix ≤ 16) {digits : List Char} {value : Nat} :
    numeral? radix digits = some value ↔ IsNumeral radix digits value := by
  rw [numeral?, IsNumeral]
  cases digits with
  | nil => simp
  | cons c rest => simp [numeralFrom?_eq_some_iff small]

theorem word?_eq_some_iff (small : radix ≤ 16) {digits : List Char} {word : UInt32} :
    word? radix digits = some word ↔ IsNumeral radix digits word.toNat := by
  simp only [word?, Option.bind_eq_some_iff, numeral?_eq_some_iff small, Option.ite_none_right_eq_some,
    Option.some.injEq]
  constructor
  · rintro ⟨value, numeral, bound, rfl⟩
    rwa [Nat.toUInt32_eq, UInt32.toNat_ofNat_of_lt' bound]
  · intro numeral
    exact ⟨word.toNat, numeral, word.toNat_lt, UInt32.ofNat_toNat⟩

/-! ## Decimal numerals -/

theorem bounds_of_isDigit {c : Char} (digit : c.isDigit = true) : '0' ≤ c ∧ c ≤ '9' := by
  simp only [Char.isDigit, ge_iff_le, Bool.and_eq_true, decide_eq_true_eq] at digit
  exact digit

theorem digit?_ten {c : Char} (digit : c.isDigit = true) :
    digit? 10 c = some (c.toNat - '0'.toNat) := by
  obtain ⟨lower, upper⟩ := bounds_of_isDigit digit
  have small : c.toNat - '0'.toNat < 10 := by
    have bound : c.toNat ≤ '9'.toNat := upper
    rw [show '9'.toNat = 57 from rfl] at bound
    rw [show '0'.toNat = 48 from rfl]
    omega
  simp only [digit?, lower, upper, and_self, ↓reduceIte, small]

theorem numeralFrom?_ten {digits : List Char} (all : ∀ c ∈ digits, c.isDigit = true)
    (start : Nat) : numeralFrom? 10 start digits = some (Nat.ofDigitChars 10 digits start) := by
  induction digits generalizing start with
  | nil => rfl
  | cons c rest ih =>
      simp only [List.mem_cons, forall_eq_or_imp] at all
      have read : numeralFrom? 10 start (c :: rest) =
          numeralFrom? 10 (start * 10 + (c.toNat - '0'.toNat)) rest := by
        simp [numeralFrom?, digit?_ten all.1]
      rw [read, ih all.2, Nat.ofDigitChars_cons, Nat.mul_comm start]

theorem head?_toDigits_ne_zero {n : Nat} (pos : 0 < n) : (Nat.toDigits 10 n).head? ≠ some '0' := by
  induction n using Nat.strongRecOn with
  | ind n ih =>
      rw [Nat.toDigits_eq_if (by decide)]
      split
      · simpa [Nat.digitChar_eq_zero] using Nat.ne_of_gt pos
      · have leading := ih (n / 10) (by omega) (by omega)
        rwa [List.head?_append_of_ne_nil _ Nat.toDigits_ne_nil]

theorem numeral?_repr (n : Nat) : numeral? 10 n.repr.toList = some n := by
  have digits : ∀ c ∈ Nat.toDigits 10 n, c.isDigit = true := fun c mem =>
    Nat.isDigit_of_mem_toDigits (by decide) (by decide) mem
  have nonempty : (Nat.toDigits 10 n).isEmpty = false := by simp
  rw [Nat.toList_repr, numeral?, nonempty, if_neg Bool.false_ne_true, numeralFrom?_ten digits,
    Nat.ofDigitChars_toDigits (by decide) (by decide)]

theorem le_ofDigitChars (digits : List Char) (start : Nat) :
    start ≤ Nat.ofDigitChars 10 digits start := by
  induction digits generalizing start with
  | nil => exact Nat.le_refl start
  | cons c rest ih =>
      rw [Nat.ofDigitChars_cons]
      exact Nat.le_trans (by omega) (ih _)

theorem word?_repr (word : UInt32) : word? 10 word.toNat.repr.toList = some word := by
  rw [word?, numeral?_repr, Option.bind_some, if_pos word.toNat_lt]
  simp

end SetAssoc
