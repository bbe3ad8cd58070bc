import Mathlib.Algebra.Group.Nat.Defs
import Mathlib.Data.Nat.Init
import SetAssoc.Address

/-!
# The fields of an address

The masks and shifts of a layout are divisions and remainders by powers of two. The line index and
the tag are the remainder and the quotient of one number, the block number of the address.
-/

namespace SetAssoc

theorem lowBits_eq (width : Nat) : lowBits width = 2 ^ width - 1 := by
  rw [lowBits, Nat.one_shiftLeft]

theorem and_lowBits_shiftLeft (x width shift : Nat) :
    x &&& lowBits width <<< shift = (x / 2 ^ shift % 2 ^ width) <<< shift := by
  apply Nat.eq_of_testBit_eq
  intro i
  rw [Nat.testBit_and, Nat.testBit_shiftLeft, Nat.testBit_shiftLeft, lowBits_eq, Nat.testBit_mod_two_pow,
    Nat.testBit_two_pow_sub_one, Nat.testBit_div_two_pow]
  by_cases low : shift ≤ i
  · simp only [ge_iff_le, low, decide_true, Bool.true_and]
    rw [Nat.sub_add_cancel low, Bool.and_comm]
  · simp [low]

theorem mul_two_pow_add_lt {high low width shift : Nat} (highBound : high < 2 ^ width)
    (lowBound : low < 2 ^ shift) : high * 2 ^ shift + low < 2 ^ (width + shift) := by
  rw [Nat.mul_comm high, Nat.pow_add]
  exact Nat.mul_add_lt_mul_of_lt_of_lt highBound lowBound

theorem toNat_wordAddress (address : UInt32) :
    (wordAddress address).toNat = address.toNat / 2 ^ byteOffsetBits * 2 ^ byteOffsetBits := by
  have mask : (0xFFFFFFFC : UInt32).toNat = lowBits indexBits <<< byteOffsetBits := by decide
  have index : address.toNat / 2 ^ byteOffsetBits < 2 ^ indexBits := by
    apply Nat.div_lt_of_lt_mul
    exact address.toNat_lt
  rw [wordAddress, UInt32.toNat_and, mask, and_lowBits_shiftLeft, Nat.mod_eq_of_lt index,
    Nat.shiftLeft_eq]

theorem Config.lines_eq (config : Config) : config.lines = 2 ^ config.layout.lineBits := by
  rw [lines, Nat.one_shiftLeft, layout]

theorem Config.blocks_eq (config : Config) : config.blocks = 2 ^ config.layout.blockBits := by
  rw [blocks, Nat.one_shiftLeft, layout]

theorem Config.lines_pos (config : Config) : 0 < config.lines := by
  rw [lines_eq]
  exact Nat.two_pow_pos _

structure Location.Within (config : Config) (location : Location) : Prop where
  tag_lt : location.tag < 2 ^ config.tagBits
  line_lt : location.line < config.lines
  block_lt : location.block < config.blocks

namespace Layout

def blockNumber (layout : Layout) (address : UInt32) : Nat := address.toNat / 2 ^ layout.lineShift

variable {config : Config} {address : UInt32} {location : Location}

theorem blockNumber_congr {config other : Config} (blockBits : config.blockBits = other.blockBits)
    (address : UInt32) : config.layout.blockNumber address = other.layout.blockNumber address := by
  rw [blockNumber, blockNumber, lineShift, lineShift, Config.layout, Config.layout, blockBits]

theorem tagShift_add_tagBits (valid : config.Valid) :
    config.layout.tagShift + config.tagBits = addressBits := by
  have := valid.2
  simp only [tagShift, lineShift, Config.layout, Config.tagBits, indexBits, addressBits,
    byteOffsetBits] at *
  omega

theorem blockIndex_eq (layout : Layout) (address : UInt32) :
    layout.blockIndex address = address.toNat / 2 ^ byteOffsetBits % 2 ^ layout.blockBits := by
  rw [blockIndex, blockMask, and_lowBits_shiftLeft, Nat.shiftLeft_shiftRight]

theorem lineIndex_eq (layout : Layout) (address : UInt32) :
    layout.lineIndex address = layout.blockNumber address % 2 ^ layout.lineBits := by
  rw [lineIndex, lineMask, and_lowBits_shiftLeft, Nat.shiftLeft_shiftRight, blockNumber]

theorem blockNumber_div (layout : Layout) (address : UInt32) :
    layout.blockNumber address / 2 ^ layout.lineBits = address.toNat / 2 ^ layout.tagShift := by
  rw [blockNumber, Nat.div_div_eq_div_mul, ← Nat.pow_add, tagShift]

theorem blockNumber_div_lt (valid : config.Valid) (address : UInt32) :
    config.layout.blockNumber address / 2 ^ config.layout.lineBits < 2 ^ config.tagBits := by
  rw [blockNumber_div]
  apply Nat.div_lt_of_lt_mul
  rw [← Nat.pow_add, tagShift_add_tagBits valid]
  exact address.toNat_lt

theorem tag_eq (valid : config.Valid) (address : UInt32) :
    config.layout.tag address =
      config.layout.blockNumber address / 2 ^ config.layout.lineBits := by
  have width : addressBits - config.layout.tagShift = config.tagBits := by
    have := tagShift_add_tagBits valid
    omega
  rw [tag, tagMask, and_lowBits_shiftLeft, Nat.shiftLeft_shiftRight, width, ← blockNumber_div]
  exact Nat.mod_eq_of_lt (blockNumber_div_lt valid address)

theorem blockNumber_wordAddress (layout : Layout) (address : UInt32) :
    layout.blockNumber (wordAddress address) = layout.blockNumber address := by
  rw [blockNumber, blockNumber, toNat_wordAddress, lineShift, Nat.pow_add, ← Nat.div_div_eq_div_mul,
    ← Nat.div_div_eq_div_mul, Nat.mul_div_cancel _ (Nat.two_pow_pos _)]

theorem lineIndex_wordAddress (layout : Layout) (address : UInt32) :
    layout.lineIndex (wordAddress address) = layout.lineIndex address := by
  rw [lineIndex_eq, lineIndex_eq, blockNumber_wordAddress]

theorem blockIndex_wordAddress (layout : Layout) (address : UInt32) :
    layout.blockIndex (wordAddress address) = layout.blockIndex address := by
  rw [blockIndex_eq, blockIndex_eq, toNat_wordAddress, Nat.mul_div_cancel _ (Nat.two_pow_pos _)]

theorem split_wordAddress (valid : config.Valid) (address : UInt32) :
    config.layout.split (wordAddress address) =
      { tag := config.layout.blockNumber address / config.lines
        line := config.layout.blockNumber address % config.lines
        block := config.layout.blockIndex address } := by
  rw [split, tag_eq valid, lineIndex_eq, blockNumber_wordAddress, blockIndex_wordAddress,
    Config.lines_eq]

theorem blockNumber_eq_iff (valid : config.Valid) (address other : UInt32) :
    config.layout.blockNumber address = config.layout.blockNumber other ↔
      (config.layout.split (wordAddress address)).line =
          (config.layout.split (wordAddress other)).line ∧
        (config.layout.split (wordAddress address)).tag =
          (config.layout.split (wordAddress other)).tag := by
  rw [split_wordAddress valid, split_wordAddress valid]
  constructor
  · intro same
    rw [same]
    exact ⟨rfl, rfl⟩
  · rintro ⟨line, tag⟩
    dsimp only at line tag
    rw [← Nat.div_add_mod' (config.layout.blockNumber address) config.lines, line, tag, Nat.div_add_mod']

/-! ## Joining -/

theorem shiftLeft_and_lowBits (field width shift : Nat) :
    field <<< shift &&& lowBits width <<< shift = (field % 2 ^ width) <<< shift := by
  rw [and_lowBits_shiftLeft, Nat.shiftLeft_eq field, Nat.mul_div_cancel _ (Nat.two_pow_pos _)]

theorem block_lt_line (layout : Layout) (location : Location) :
    location.block % 2 ^ layout.blockBits * 2 ^ byteOffsetBits < 2 ^ layout.lineShift := by
  rw [lineShift, Nat.add_comm, Nat.pow_add]
  exact Nat.mul_lt_mul_of_pos_right (Nat.mod_lt _ (Nat.two_pow_pos _)) (Nat.two_pow_pos _)

theorem toNat_join (valid : config.Valid) (location : Location) :
    (config.layout.join location).toNat =
      (location.tag % 2 ^ config.tagBits * 2 ^ config.layout.lineBits +
            location.line % 2 ^ config.layout.lineBits) * 2 ^ config.layout.lineShift +
        location.block % 2 ^ config.layout.blockBits * 2 ^ byteOffsetBits := by
  have total := tagShift_add_tagBits valid
  have width : addressBits - config.layout.tagShift = config.tagBits := by omega
  have tag : location.tag % 2 ^ config.tagBits < 2 ^ config.tagBits := Nat.mod_lt _ (Nat.two_pow_pos _)
  have line : location.line % 2 ^ config.layout.lineBits < 2 ^ config.layout.lineBits :=
    Nat.mod_lt _ (Nat.two_pow_pos _)
  have block := config.layout.block_lt_line location
  -- the three parts lie above each other, so joining them adds them up
  have parts : (((location.tag <<< config.layout.tagShift) &&& config.layout.tagMask) |||
      ((location.line <<< config.layout.lineShift) &&& config.layout.lineMask) |||
      ((location.block <<< byteOffsetBits) &&& config.layout.blockMask)) =
      (location.tag % 2 ^ config.tagBits * 2 ^ config.layout.lineBits +
            location.line % 2 ^ config.layout.lineBits) * 2 ^ config.layout.lineShift +
        location.block % 2 ^ config.layout.blockBits * 2 ^ byteOffsetBits := by
    rw [tagMask, lineMask, blockMask, shiftLeft_and_lowBits, shiftLeft_and_lowBits,
      shiftLeft_and_lowBits, width, tagShift, Nat.add_comm, Nat.shiftLeft_add,
      ← Nat.shiftLeft_or_distrib, ← Nat.shiftLeft_add_eq_or_of_lt line,
      Nat.shiftLeft_eq _ byteOffsetBits, ← Nat.shiftLeft_add_eq_or_of_lt block, Nat.shiftLeft_eq,
      Nat.shiftLeft_eq]
  have bound := mul_two_pow_add_lt (mul_two_pow_add_lt tag line) block
  have address : config.tagBits + config.layout.lineBits + config.layout.lineShift = 32 := by
    rw [tagShift, addressBits] at total
    omega
  rw [address] at bound
  rw [join, parts, Nat.toUInt32_eq, UInt32.toNat_ofNat_of_lt' bound]

theorem blockNumber_join (valid : config.Valid) (location : Location) :
    config.layout.blockNumber (config.layout.join location) =
      location.tag % 2 ^ config.tagBits * config.lines + location.line % config.lines := by
  rw [blockNumber, toNat_join valid, Config.lines_eq, Nat.add_comm,
    Nat.add_mul_div_right _ _ (Nat.two_pow_pos _),
    Nat.div_eq_of_lt (config.layout.block_lt_line location), Nat.zero_add]

theorem blockIndex_join (valid : config.Valid) (location : Location) :
    config.layout.blockIndex (config.layout.join location) = location.block % config.blocks := by
  rw [blockIndex_eq, toNat_join valid, Config.blocks_eq, lineShift, Nat.add_comm byteOffsetBits,
    Nat.pow_add, ← Nat.mul_assoc, ← Nat.add_mul, Nat.mul_div_cancel _ (Nat.two_pow_pos _),
    Nat.mul_add_mod_self_right, Nat.mod_mod]

theorem split_join (valid : config.Valid) (within : location.Within config) :
    config.layout.split (wordAddress (config.layout.join location)) = location := by
  obtain ⟨tag, line, block⟩ := within
  rw [split_wordAddress valid, blockNumber_join valid, blockIndex_join valid, Nat.mod_eq_of_lt tag,
    Nat.mod_eq_of_lt line, Nat.mod_eq_of_lt block, Nat.mul_add_mod_self_right, Nat.mod_eq_of_lt line,
    Nat.add_comm, Nat.add_mul_div_right _ _ config.lines_pos, Nat.div_eq_of_lt line, Nat.zero_add]

theorem within_split (valid : config.Valid) (address : UInt32) :
    (config.layout.split (wordAddress address)).Within config := by
  rw [split_wordAddress valid]
  constructor
  · show config.layout.blockNumber address / config.lines < 2 ^ config.tagBits
    rw [Config.lines_eq]
    exact blockNumber_div_lt valid address
  · exact Nat.mod_lt _ config.lines_pos
  · show config.layout.blockIndex address < config.blocks
    rw [blockIndex_eq, Config.blocks_eq]
    exact Nat.mod_lt _ (Nat.two_pow_pos _)

end Layout

end SetAssoc
