import SetAssoc.Proofs.Word
import SetAssoc.Random.Source

/-!
# Draws from a stream of words

A draw takes words from a stream until the product of one with the number of ways has its low half
in a zone; the high half is the way.
-/

namespace SetAssoc

/-! ## Searches -/

structure IsFirst (p : Nat → Bool) (start n : Nat) : Prop where
  le : start ≤ n
  found : p n = true
  skipped : ∀ m, start ≤ m → m < n → p m = false

section

variable {p : Nat → Bool} {start n : Nat} (ahead : ∃ m, start ≤ m ∧ p m = true)

theorem firstFrom_of_true (found : p start = true) : firstFrom p start ahead = start := by
  rw [firstFrom]
  split
  · rfl
  · rename_i skipped
    exact absurd (skipped.symm.trans found) Bool.false_ne_true

theorem firstFrom_of_false (skipped : p start = false) (later : ∃ m, start + 1 ≤ m ∧ p m = true) :
    firstFrom p start ahead = firstFrom p (start + 1) later := by
  rw [firstFrom]
  split
  · rename_i found
    exact absurd (skipped.symm.trans found) Bool.false_ne_true
  · rfl

theorem isFirst_firstFrom : IsFirst p start (firstFrom p start ahead) := by
  fun_induction firstFrom p start ahead with
  | case1 start ahead found =>
      exact ⟨Nat.le_refl start, found, fun m le lt => absurd lt (Nat.not_lt.2 le)⟩
  | case2 start ahead skipped later ih =>
      refine ⟨Nat.le_of_succ_le ih.le, ih.found, ?_⟩
      intro m le lt
      rcases Nat.eq_or_lt_of_le le with rfl | after
      · exact skipped
      · exact ih.skipped m after lt

theorem firstFrom_le (le : start ≤ n) (found : p n = true) : firstFrom p start ahead ≤ n := by
  apply Nat.le_of_not_lt
  intro later
  have skipped := (isFirst_firstFrom ahead).skipped n le later
  exact absurd (skipped.symm.trans found) Bool.false_ne_true

end

/-! ## Draws in words -/

def share (ways : Nat) : Nat := 2 ^ leadingZeros ways

theorem acceptedZone_eq (ways : Nat) : acceptedZone ways = ways * share ways - 1 := by
  rw [acceptedZone, Nat.shiftLeft_eq, share]

theorem mul_share_lt {ways : Nat} (bound : ways < wordCount) : ways * share ways < wordCount := by
  rcases Nat.eq_zero_or_pos ways with rfl | positive
  · rw [Nat.zero_mul]
    exact bound
  have log_lt : ways.log2 < 32 := (Nat.log2_lt (Nat.ne_of_gt positive)).2 bound
  calc ways * share ways
    _ < 2 ^ (ways.log2 + 1) * 2 ^ (31 - ways.log2) :=
        Nat.mul_lt_mul_of_pos_right Nat.lt_log2_self (Nat.two_pow_pos _)
    _ = 2 ^ (ways.log2 + 1 + (31 - ways.log2)) := (Nat.pow_add ..).symm
    _ = 2 ^ 32 := by congr 1; omega

def acceptedZoneInWords (ways : UInt32) : UInt32 := (ways <<< Word.leadingZeros ways) - 1

/-- The sampling of a way from a position of a stream on: the way, and the position after the word
that gave it. -/
inductive Sampled (word : Nat → UInt32) (ways : UInt32) : Nat → UInt32 → Nat → Prop
  | accept {start : Nat}
      (inside : (Word.wideProduct (word start) ways).toUInt32 ≤ acceptedZoneInWords ways) :
      Sampled word ways start (Word.wideProduct (word start) ways >>> 32).toUInt32 (start + 1)
  | reject {start next : Nat} {way : UInt32}
      (outside : ¬ (Word.wideProduct (word start) ways).toUInt32 ≤ acceptedZoneInWords ways)
      (later : Sampled word ways (start + 1) way next) : Sampled word ways start way next

section

variable {ways : UInt32} {word : Nat → UInt32} {start : Nat}

theorem toNat_acceptedZoneInWords (positive : 0 < ways.toNat) :
    (acceptedZoneInWords ways).toNat = acceptedZone ways.toNat := by
  have few : leadingZeros ways.toNat < 32 := Nat.lt_succ_of_le (Nat.sub_le ..)
  have shifted : (ways <<< Word.leadingZeros ways).toNat = ways.toNat * share ways.toNat := by
    rw [UInt32.toNat_shiftLeft, Word.toNat_leadingZeros positive, ← leadingZeros,
      Nat.mod_eq_of_lt few, Nat.shiftLeft_eq]
    exact Nat.mod_eq_of_lt (mul_share_lt ways.toNat_lt)
  have one_le : (1 : UInt32) ≤ ways <<< Word.leadingZeros ways := by
    rw [UInt32.le_iff_toNat_le, shifted]
    exact Nat.mul_pos positive (Nat.two_pow_pos _)
  rw [acceptedZoneInWords, UInt32.toNat_sub_of_le _ _ one_le, shifted, acceptedZone_eq]
  rfl

theorem low_le_iff (positive : 0 < ways.toNat) {word : UInt32} :
    (Word.wideProduct word ways).toUInt32 ≤ acceptedZoneInWords ways ↔
      accepts ways.toNat word = true := by
  rw [UInt32.le_iff_toNat_le, Word.toNat_low_wideProduct, toNat_acceptedZoneInWords positive, accepts,
    decide_eq_true_iff]
  rfl

theorem Sampled.exists_pickFrom (positive : 0 < ways.toNat) {way : UInt32} {next : Nat}
    (sampled : Sampled word ways start way next) :
    ∃ ahead, pickFrom word start ways.toNat ahead = (way.toNat, next) := by
  induction sampled with
  | @accept start inside =>
      have accepted := (low_le_iff positive).1 inside
      refine ⟨⟨start, Nat.le_refl start, accepted⟩, ?_⟩
      rw [pickFrom, firstFrom_of_true _ accepted, Word.toNat_high_wideProduct]
      rfl
  | @reject start next way outside later ih =>
      obtain ⟨⟨m, le, accepted⟩, picked⟩ := ih
      have skipped := Bool.eq_false_iff.2 (mt (low_le_iff positive).2 outside)
      refine ⟨⟨m, Nat.le_of_succ_le le, accepted⟩, ?_⟩
      rw [pickFrom, firstFrom_of_false _ skipped]
      exact picked

theorem sampled_firstFrom (positive : 0 < ways.toNat)
    (ahead : ∃ m, start ≤ m ∧ accepts ways.toNat (word m) = true) {n : Nat}
    (first : firstFrom (fun m => accepts ways.toNat (word m)) start ahead = n) :
    Sampled word ways start (Word.wideProduct (word n) ways >>> 32).toUInt32 (n + 1) := by
  subst first
  fun_induction firstFrom (fun m => accepts ways.toNat (word m)) start ahead with
  | case1 start ahead found => exact .accept ((low_le_iff positive).2 found)
  | case2 start ahead skipped later ih =>
      exact .reject (mt (low_le_iff positive).1 (Bool.eq_false_iff.1 skipped)) ih

theorem sampled_iff (positive : 0 < ways.toNat) {way : UInt32} {next : Nat} :
    Sampled word ways start way next ↔
      ∃ ahead, pickFrom word start ways.toNat ahead = (way.toNat, next) := by
  refine ⟨Sampled.exists_pickFrom positive, ?_⟩
  rintro ⟨ahead, picked⟩
  have sampled := sampled_firstFrom positive ahead rfl
  obtain ⟨scaled, rfl⟩ := Prod.mk.inj picked
  rwa [UInt32.toNat_inj.1 ((Word.toNat_high_wideProduct ..).trans scaled)] at sampled

theorem sampled_of_zero (positive : 0 < ways.toNat) {n : Nat} (le : start ≤ n) (zero : word n = 0) :
    ∃ way next, Sampled word ways start way next ∧ next ≤ n + 1 := by
  have accepted : accepts ways.toNat (word n) = true := zero ▸ accepts_zero _
  have ahead : ∃ m, start ≤ m ∧ accepts ways.toNat (word m) = true := ⟨n, le, accepted⟩
  exact ⟨_, _, sampled_firstFrom positive ahead rfl, Nat.succ_le_succ (firstFrom_le ahead le accepted)⟩

end

end SetAssoc
