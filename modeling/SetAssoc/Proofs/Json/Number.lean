import Mathlib.Data.List.TakeWhile
import SetAssoc.Json.Finite
import SetAssoc.Proofs.Numeral

/-!
# Numbers

What a number looks like is given here by a grammar, and the check of the lexer is shown to accept
it.
-/

namespace SetAssoc.Json

/-! ## The grammar -/

def IsDigits (text : List Char) : Prop := text ≠ [] ∧ ∀ c ∈ text, isDigit c = true

inductive IsInteger : List Char → Prop
  | zero : IsInteger ['0']
  | digits {text : List Char} (digits : IsDigits text) (leading : text.head? ≠ some '0') :
      IsInteger text

inductive IsFraction : List Char → Prop
  | absent : IsFraction []
  | digits {text : List Char} (digits : IsDigits text) : IsFraction ('.' :: text)

inductive IsScale : List Char → Prop
  | absent : IsScale []
  | digits {letter : Char} {sign text : List Char} (marked : letter = 'e' ∨ letter = 'E')
      (signed : sign = [] ∨ sign = ['+'] ∨ sign = ['-']) (digits : IsDigits text) :
      IsScale (letter :: (sign ++ text))

inductive IsNumber : List Char → Prop
  | parts {sign integer fraction scale : List Char} (signed : sign = [] ∨ sign = ['-'])
      (isInteger : IsInteger integer) (isFraction : IsFraction fraction) (isScale : IsScale scale) :
      IsNumber (sign ++ (integer ++ (fraction ++ scale)))

/-! ## Characters of numbers -/

theorem isNumberChar_of_isDigit {c : Char} (digit : isDigit c = true) :
    Lexer.isNumberChar c = true := by
  simp [Lexer.isNumberChar, digit]

theorem isWordChar_of_isDigit {c : Char} (digit : isDigit c = true) :
    Lexer.isWordChar c = false := by
  simp only [isDigit, Bool.and_eq_true, decide_eq_true_eq] at digit
  have below : ¬ ('a' ≤ c) := fun lower => absurd (Char.le_trans lower digit.2) (by decide)
  simp [Lexer.isWordChar, below]

theorem ne_sign_of_isDigit {c : Char} (digit : isDigit c = true) : c ≠ '-' := by
  rintro rfl
  exact absurd digit (by decide)

theorem IsDigits.isNumberChar {text : List Char} (digits : IsDigits text) :
    ∀ c ∈ text, Lexer.isNumberChar c = true :=
  fun c mem => isNumberChar_of_isDigit (digits.2 c mem)

theorem IsFraction.isNumberChar {fraction : List Char} (isFraction : IsFraction fraction) :
    ∀ c ∈ fraction, Lexer.isNumberChar c = true := by
  cases isFraction with
  | absent => nofun
  | digits digits => exact List.forall_mem_cons.2 ⟨rfl, digits.isNumberChar⟩

theorem IsScale.isNumberChar {scale : List Char} (isScale : IsScale scale) :
    ∀ c ∈ scale, Lexer.isNumberChar c = true := by
  cases isScale with
  | absent => nofun
  | digits marked signed digits =>
      rw [List.forall_mem_cons, List.forall_mem_append]
      refine ⟨?_, ?_, digits.isNumberChar⟩
      · rcases marked with rfl | rfl <;> rfl
      · rcases signed with rfl | rfl | rfl <;> simp [Lexer.isNumberChar]

theorem IsInteger.exists_cons {integer : List Char} (isInteger : IsInteger integer) :
    ∃ c rest, integer = c :: rest ∧ isDigit c = true ∧ ∀ d ∈ rest, Lexer.isNumberChar d = true := by
  cases isInteger with
  | zero => exact ⟨'0', [], rfl, rfl, nofun⟩
  | digits digits _ =>
      obtain ⟨c, rest, rfl⟩ := List.exists_cons_of_ne_nil digits.1
      obtain ⟨-, others⟩ := List.forall_mem_cons.1 digits.isNumberChar
      exact ⟨c, rest, rfl, digits.2 c List.mem_cons_self, others⟩

theorem IsNumber.exists_cons {text : List Char} (number : IsNumber text) :
    ∃ c rest, text = c :: rest ∧ (isDigit c = true ∨ c = '-') ∧
      ∀ d ∈ rest, Lexer.isNumberChar d = true := by
  cases number with
  | @parts sign integer fraction scale signed isInteger isFraction isScale =>
      obtain ⟨c, rest, rfl, digit, all⟩ := isInteger.exists_cons
      have tail : ∀ d ∈ rest ++ (fraction ++ scale), Lexer.isNumberChar d = true :=
        List.forall_mem_append.2 ⟨all,
          List.forall_mem_append.2 ⟨isFraction.isNumberChar, isScale.isNumberChar⟩⟩
      rcases signed with rfl | rfl
      · exact ⟨c, _, rfl, .inl digit, tail⟩
      · exact ⟨'-', _, rfl, .inr rfl, List.forall_mem_cons.2 ⟨isNumberChar_of_isDigit digit, tail⟩⟩

/-! ## The check of the lexer -/

def EndsDigits (text : List Char) : Prop := ∀ c ∈ text.head?, isDigit c = false

section

variable {digits rest : List Char} (all : ∀ c ∈ digits, isDigit c = true) (ends : EndsDigits rest)
include all ends

theorem takeWhile_digits : (digits ++ rest).takeWhile isDigit = digits := by
  rw [List.takeWhile_append_of_pos all]
  cases rest with
  | nil => simp
  | cons c rest => simp [ends c rfl]

theorem dropWhile_digits : (digits ++ rest).dropWhile isDigit = rest := by
  rw [List.dropWhile_append_of_pos all]
  cases rest with
  | nil => rfl
  | cons c rest => simp [ends c rfl]

end

theorem IsScale.endsDigits {scale : List Char} (isScale : IsScale scale) : EndsDigits scale := by
  cases isScale with
  | absent => simp [EndsDigits]
  | digits marked _ _ => rcases marked with rfl | rfl <;> simp [EndsDigits] <;> rfl

theorem IsFraction.endsDigits {fraction scale : List Char} (isFraction : IsFraction fraction)
    (isScale : IsScale scale) : EndsDigits (fraction ++ scale) := by
  cases isFraction with
  | absent => exact isScale.endsDigits
  | digits _ => simp [EndsDigits]; rfl

theorem IsDigits.isExponent_eq {sign text : List Char} (digits : IsDigits text)
    (signed : sign = [] ∨ sign = ['+'] ∨ sign = ['-']) : isExponent (sign ++ text) = true := by
  obtain ⟨first, rest, rfl⟩ := List.exists_cons_of_ne_nil digits.1
  have all : (first :: rest).all isDigit = true := List.all_eq_true.2 digits.2
  rcases signed with rfl | rfl | rfl
  · -- no digit is a sign, so the cases for a sign do not apply
    have digit : isDigit first = true := digits.2 first List.mem_cons_self
    unfold isExponent
    split
    · rename_i same
      exact absurd ((List.cons.inj same).1 ▸ digit) (by decide)
    · rename_i same
      exact absurd ((List.cons.inj same).1 ▸ digit) (by decide)
    · exact all
  · exact all
  · exact all

theorem IsScale.isExponentTail_eq {scale : List Char} (isScale : IsScale scale) :
    isNumberTail.isExponentTail scale = true := by
  cases isScale with
  | absent => rfl
  | digits marked signed digits =>
      rcases marked with rfl | rfl <;> exact digits.isExponent_eq signed

theorem IsFraction.isNumberTail_eq {fraction scale : List Char} (isFraction : IsFraction fraction)
    (isScale : IsScale scale) : isNumberTail (fraction ++ scale) = true := by
  cases isFraction with
  | absent =>
      have tail := isScale.isExponentTail_eq
      cases isScale with
      | absent => rfl
      | digits marked _ _ => rcases marked with rfl | rfl <;> exact tail
  | @digits text digits =>
      have nonempty : text.isEmpty = false := by simpa using digits.1
      simp [isNumberTail, takeWhile_digits digits.2 isScale.endsDigits,
        dropWhile_digits digits.2 isScale.endsDigits, nonempty, isScale.isExponentTail_eq]

theorem IsInteger.isUnsignedNumber_eq {integer tail : List Char} (isInteger : IsInteger integer)
    (ends : EndsDigits tail) (isTail : isNumberTail tail = true) :
    isUnsignedNumber (integer ++ tail) = true := by
  cases isInteger with
  | zero => exact isTail
  | digits digits leading =>
      obtain ⟨first, rest, rfl⟩ := List.exists_cons_of_ne_nil digits.1
      obtain ⟨digit, all⟩ := List.forall_mem_cons.1 digits.2
      have nonzero : first ≠ '0' := fun zero => leading (by rw [zero]; rfl)
      simp [isUnsignedNumber, digit, dropWhile_digits all ends, isTail]

theorem IsNumber.isNumber_eq {text : List Char} (number : IsNumber text) : isNumber text = true := by
  cases number with
  | @parts sign integer fraction scale signed isInteger isFraction isScale =>
      have unsigned : isUnsignedNumber (integer ++ (fraction ++ scale)) = true :=
        isInteger.isUnsignedNumber_eq (isFraction.endsDigits isScale)
          (isFraction.isNumberTail_eq isScale)
      rcases signed with rfl | rfl
      · obtain ⟨c, rest, rfl, digit, -⟩ := isInteger.exists_cons
        unfold isNumber
        split
        · rename_i same
          exact absurd (List.cons.inj same).1 (ne_sign_of_isDigit digit)
        · exact unsigned
      · exact unsigned

/-! ## Numerals -/

theorem isDigit_of_mem_toDigits {n : Nat} {c : Char} (mem : c ∈ Nat.toDigits 10 n) :
    isDigit c = true := by
  have bounds := bounds_of_isDigit (Nat.isDigit_of_mem_toDigits (by decide) (by decide) mem)
  simpa [isDigit] using bounds

theorem isNumber_repr (n : Nat) : IsNumber n.repr.toList := by
  rw [Nat.toList_repr]
  have digits : IsDigits (Nat.toDigits 10 n) :=
    ⟨Nat.toDigits_ne_nil, fun c => isDigit_of_mem_toDigits⟩
  have isInteger : IsInteger (Nat.toDigits 10 n) := by
    rcases Nat.eq_zero_or_pos n with rfl | pos
    · exact .zero
    · exact .digits digits (head?_toDigits_ne_zero pos)
  simpa using IsNumber.parts (.inl rfl) isInteger .absent .absent

theorem exponent_integerDigits {digits : List Char} {scaled : Scaled}
    (all : ∀ c ∈ digits, c.isDigit = true)
    (fits : Nat.ofDigitChars 10 digits scaled.significand < UInt64.size) :
    (scaled.integerDigits digits).exponent = scaled.exponent := by
  -- the value of a prefix is at most that of all digits, so no digit overflows the significand
  induction digits generalizing scaled with
  | nil => rfl
  | cons c rest ih =>
      rw [List.forall_mem_cons] at all
      rw [Nat.ofDigitChars_cons, Nat.mul_comm] at fits
      have below : scaled.significand * 10 + (c.toNat - '0'.toNat) < UInt64.size :=
        Nat.lt_of_le_of_lt (le_ofDigitChars rest _) fits
      simp only [Scaled.integerDigits, digit?_ten all.1, Option.getD_some, if_pos below]
      exact ih all.2 fits

theorem isFinite_repr {n : Nat} (fits : n < UInt64.size) : isFinite n.repr = true := by
  have digits : ∀ c ∈ Nat.toDigits 10 n, c.isDigit = true := fun c mem =>
    Nat.isDigit_of_mem_toDigits (by decide) (by decide) mem
  have unsigned : (Nat.toDigits 10 n).dropWhile (· == '-') = Nat.toDigits 10 n := by
    rw [List.dropWhile_eq_self_iff]
    intro _ sign
    exact ne_sign_of_isDigit (isDigit_of_mem_toDigits (List.getElem_mem _)) (beq_iff_eq.1 sign)
  have integer : (Nat.toDigits 10 n).takeWhile isDigit = Nat.toDigits 10 n :=
    List.takeWhile_eq_self_iff.2 fun c => isDigit_of_mem_toDigits
  have tail : (Nat.toDigits 10 n).dropWhile isDigit = [] :=
    List.dropWhile_eq_nil_iff.2 fun c => isDigit_of_mem_toDigits
  have exponent : ((Scaled.mk 0 0).integerDigits (Nat.toDigits 10 n)).exponent = 0 :=
    exponent_integerDigits digits (by rwa [Nat.ofDigitChars_ten_toDigits])
  simp [isFinite, unsigned, integer, tail, Scaled.isFinite, exponent, exponentValue, numeral?]

end SetAssoc.Json
