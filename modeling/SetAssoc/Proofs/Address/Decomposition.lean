import SetAssoc.Proofs.Address

/-!
# Addresses are split without loss

The masks of a valid geometry partition the bits above the byte offset, so splitting and joining are
inverse to each other on words, and addresses with the same fields lie in the same word.
-/

namespace SetAssoc

theorem testBit_lowBits (width bit : Nat) : (lowBits width).testBit bit = decide (bit < width) := by
  rw [lowBits_eq, Nat.testBit_two_pow_sub_one]

theorem testBit_lowBits_shiftLeft (width shift bit : Nat) :
    (lowBits width <<< shift).testBit bit = (decide (shift ≤ bit) && decide (bit < shift + width)) := by
  rw [Nat.testBit_shiftLeft, testBit_lowBits]
  by_cases above : shift ≤ bit
  · have iff : bit - shift < width ↔ bit < shift + width := by omega
    simp [above, iff]
  · simp [above]

theorem lowBits_and_eq_zero {width shift high highShift : Nat} (above : shift + width ≤ highShift) :
    lowBits width <<< shift &&& lowBits high <<< highShift = 0 := by
  apply Nat.eq_of_testBit_eq
  intro bit
  rw [Nat.testBit_and, testBit_lowBits_shiftLeft, testBit_lowBits_shiftLeft, Nat.zero_testBit]
  simp only [Bool.and_eq_false_iff, decide_eq_false_iff_not]
  omega

theorem lowBits_or_eq (width high shift : Nat) :
    lowBits width <<< shift ||| lowBits high <<< (shift + width) = lowBits (width + high) <<< shift := by
  apply Nat.eq_of_testBit_eq
  intro bit
  rw [Nat.testBit_or, testBit_lowBits_shiftLeft, testBit_lowBits_shiftLeft, testBit_lowBits_shiftLeft,
    Bool.eq_iff_iff]
  simp only [Bool.or_eq_true, Bool.and_eq_true, decide_eq_true_eq]
  omega

theorem countP_lowBits (width shift : Nat) :
    ((List.range (shift + width)).countP fun bit => (lowBits width <<< shift).testBit bit) = width := by
  have below : ((List.range shift).countP fun bit => (lowBits width <<< shift).testBit bit) = 0 := by
    rw [List.countP_eq_zero]
    intro bit mem
    have outside : ¬shift ≤ bit := Nat.not_le.2 (List.mem_range.1 mem)
    simp [outside]
  have within : ((List.range width).map (shift + ·)).countP
      (fun bit => (lowBits width <<< shift).testBit bit) = width := by
    rw [List.countP_eq_length.2, List.length_map, List.length_range]
    intro bit mem
    obtain ⟨offset, inside, rfl⟩ := List.mem_map.1 mem
    simpa [testBit_lowBits] using List.mem_range.1 inside
  rw [List.range_add, List.countP_append, below, within, Nat.zero_add]

namespace Layout

variable {config : Config}

theorem tagMask_eq (valid : config.Valid) :
    config.layout.tagMask = lowBits config.tagBits <<< config.layout.tagShift := by
  rw [tagMask, ← tagShift_add_tagBits valid, Nat.add_sub_cancel_left]

theorem tagBits_eq (valid : config.Valid) : config.layout.tagBits = config.tagBits := by
  rw [tagBits, tagMask_eq valid, ← tagShift_add_tagBits valid]
  exact countP_lowBits _ _

theorem masks_eq (valid : config.Valid) :
    config.layout.blockMask ||| config.layout.lineMask ||| config.layout.tagMask =
      lowBits indexBits <<< byteOffsetBits := by
  have total := tagShift_add_tagBits valid
  rw [tagMask_eq valid, blockMask, lineMask, tagShift, lineShift, lowBits_or_eq, Nat.add_assoc,
    lowBits_or_eq]
  congr 2
  rw [tagShift, lineShift] at total
  rw [indexBits]
  omega

theorem split_eq (valid : config.Valid) (address : UInt32) :
    config.layout.split address =
      { tag := address.toNat / 2 ^ config.layout.tagShift
        line := address.toNat / 2 ^ config.layout.lineShift % 2 ^ config.layout.lineBits
        block := address.toNat / 2 ^ byteOffsetBits % 2 ^ config.layout.blockBits } := by
  rw [split, tag_eq valid, blockNumber_div, lineIndex_eq, blockNumber, blockIndex_eq]

theorem join_split (valid : config.Valid) (address : UInt32) :
    config.layout.join (config.layout.split address) = wordAddress address := by
  have tag : address.toNat / 2 ^ config.layout.tagShift < 2 ^ config.tagBits := by
    rw [← blockNumber_div]
    exact blockNumber_div_lt valid address
  apply UInt32.toNat_inj.1
  rw [toNat_join valid, split_eq valid, toNat_wordAddress]
  dsimp only
  rw [Nat.mod_eq_of_lt tag, Nat.mod_mod, Nat.mod_mod, tagShift, lineShift]
  -- the fields are the digits of the word number, put together again from the top
  generalize address.toNat = number
  rw [Nat.pow_add, Nat.pow_add, ← Nat.div_div_eq_div_mul, ← Nat.div_div_eq_div_mul,
    Nat.mul_comm (_ / _), Nat.div_add_mod, Nat.mul_comm (2 ^ byteOffsetBits), ← Nat.mul_assoc,
    ← Nat.add_mul, Nat.mul_comm (_ / _) (2 ^ config.layout.blockBits), Nat.div_add_mod]

theorem split_wordAddress_eq (valid : config.Valid) (address : UInt32) :
    config.layout.split (wordAddress address) = config.layout.split address := by
  rw [split_wordAddress valid, split, tag_eq valid, lineIndex_eq, Config.lines_eq]

theorem split_join_mod (valid : config.Valid) (location : Location) :
    config.layout.split (config.layout.join location) =
      { tag := location.tag % 2 ^ config.tagBits
        line := location.line % config.lines
        block := location.block % config.blocks } := by
  have line := Nat.mod_lt location.line config.lines_pos
  rw [← split_wordAddress_eq valid, split_wordAddress valid, blockNumber_join valid,
    blockIndex_join valid, Nat.mul_add_mod_self_right, Nat.mod_mod, Nat.add_comm,
    Nat.add_mul_div_right _ _ config.lines_pos, Nat.div_eq_of_lt line, Nat.zero_add]

theorem split_eq_split_iff (valid : config.Valid) (address other : UInt32) :
    config.layout.split address = config.layout.split other ↔
      address.toNat / 2 ^ byteOffsetBits = other.toNat / 2 ^ byteOffsetBits := by
  constructor
  · intro same
    have words := congrArg (fun location => (config.layout.join location).toNat) same
    rw [join_split valid, join_split valid, toNat_wordAddress, toNat_wordAddress] at words
    exact Nat.eq_of_mul_eq_mul_right (Nat.two_pow_pos _) words
  · intro same
    have words : wordAddress address = wordAddress other := by
      apply UInt32.toNat_inj.1
      rw [toNat_wordAddress, toNat_wordAddress, same]
    rw [← split_wordAddress_eq valid address, words, split_wordAddress_eq valid]

end Layout

end SetAssoc
