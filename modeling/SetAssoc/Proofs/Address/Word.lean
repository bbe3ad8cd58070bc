import SetAssoc.Proofs.Address.Decomposition

/-!
# The fields of an address in machine words

Masks and fields have 32 bits, shifts are done in 64. For a valid geometry no shift reaches the
width of its word and no difference is negative, so that words give the same numbers.
-/

namespace SetAssoc

structure AddressField where
  width : UInt32
  shift : UInt32

namespace AddressField

def mask (field : AddressField) : UInt32 :=
  (((1 <<< field.width.toUInt64) - 1) <<< field.shift.toUInt64).toUInt32

def read (field : AddressField) (address : UInt32) : UInt32 :=
  ((address &&& field.mask).toUInt64 >>> field.shift.toUInt64).toUInt32

def place (field : AddressField) (value : UInt32) : UInt32 :=
  (value.toUInt64 <<< field.shift.toUInt64).toUInt32 &&& field.mask

/-- No shift of the field is too wide, and only bits that the mask leaves out are lost. -/
structure InRange (field : AddressField) : Prop where
  width_lt : field.width.toNat < 64
  one_le : (1 : UInt64) ≤ 1 <<< field.width.toUInt64
  shift_lt : field.shift.toNat < 64
  mask_lt : lowBits field.width.toNat <<< field.shift.toNat < 2 ^ 32
  value_lt : ∀ value : UInt32, value.toNat <<< field.shift.toNat < 2 ^ 64

variable {field : AddressField}

theorem toNat_power (bound : field.width.toNat < 64) :
    ((1 : UInt64) <<< field.width.toUInt64).toNat = 1 <<< field.width.toNat := by
  rw [UInt64.toNat_shiftLeft, UInt32.toNat_toUInt64, Nat.mod_eq_of_lt bound, UInt64.toNat_one,
    Nat.one_shiftLeft]
  exact Nat.mod_eq_of_lt (Nat.pow_lt_pow_right (by decide) bound)

theorem inRange_of_le (top : field.shift.toNat + field.width.toNat ≤ 32) : field.InRange where
  width_lt := by omega
  one_le := by
    rw [UInt64.le_iff_toNat_le, toNat_power (by omega), Nat.one_shiftLeft]
    exact Nat.two_pow_pos _
  shift_lt := by omega
  mask_lt := by
    rw [lowBits_eq, Nat.shiftLeft_eq]
    have bound : (2 ^ field.width.toNat - 1) * 2 ^ field.shift.toNat <
        2 ^ field.width.toNat * 2 ^ field.shift.toNat :=
      Nat.mul_lt_mul_of_pos_right (Nat.sub_lt (Nat.two_pow_pos _) Nat.one_pos) (Nat.two_pow_pos _)
    rw [← Nat.pow_add] at bound
    exact Nat.lt_of_lt_of_le bound (Nat.pow_le_pow_right (by decide) (by omega))
  value_lt value := by
    have power : 2 ^ field.shift.toNat ≤ 2 ^ 32 := Nat.pow_le_pow_right (by decide) (by omega)
    calc value.toNat <<< field.shift.toNat
      _ = value.toNat * 2 ^ field.shift.toNat := Nat.shiftLeft_eq _ _
      _ ≤ value.toNat * 2 ^ 32 := Nat.mul_le_mul_left _ power
      _ < 2 ^ 32 * 2 ^ 32 := Nat.mul_lt_mul_of_pos_right value.toNat_lt (by decide)
      _ = 2 ^ 64 := by decide

theorem InRange.toNat_shift (inRange : field.InRange) {word : UInt64}
    (fits : word.toNat <<< field.shift.toNat < 2 ^ 64) :
    (word <<< field.shift.toUInt64).toNat = word.toNat <<< field.shift.toNat := by
  rw [UInt64.toNat_shiftLeft, UInt32.toNat_toUInt64, Nat.mod_eq_of_lt inRange.shift_lt,
    Nat.mod_eq_of_lt fits]

theorem InRange.toNat_mask (inRange : field.InRange) :
    field.mask.toNat = lowBits field.width.toNat <<< field.shift.toNat := by
  have low : (((1 : UInt64) <<< field.width.toUInt64) - 1).toNat = lowBits field.width.toNat := by
    rw [UInt64.toNat_sub_of_le _ _ inRange.one_le, toNat_power inRange.width_lt]
    rfl
  have fits := Nat.lt_trans inRange.mask_lt (show 2 ^ 32 < 2 ^ 64 by decide)
  rw [← low] at fits
  rw [mask, UInt64.toNat_toUInt32, inRange.toNat_shift fits, low, Nat.mod_eq_of_lt inRange.mask_lt]

theorem InRange.toNat_read (inRange : field.InRange) (address : UInt32) :
    (field.read address).toNat = (address.toNat &&& field.mask.toNat) >>> field.shift.toNat := by
  have bound : (address.toNat &&& field.mask.toNat) >>> field.shift.toNat < 2 ^ 32 := by
    apply Nat.lt_of_le_of_lt (Nat.shiftRight_le _ _)
    exact Nat.lt_of_le_of_lt Nat.and_le_left address.toNat_lt
  rw [read, UInt64.toNat_toUInt32, UInt64.toNat_shiftRight, UInt32.toNat_toUInt64,
    UInt32.toNat_toUInt64, UInt32.toNat_and, Nat.mod_eq_of_lt inRange.shift_lt, Nat.mod_eq_of_lt bound]

theorem InRange.toNat_place (inRange : field.InRange) (value : UInt32) :
    (field.place value).toNat = value.toNat <<< field.shift.toNat &&& field.mask.toNat := by
  have fits := inRange.value_lt value
  rw [← UInt32.toNat_toUInt64] at fits
  rw [place, UInt32.toNat_and, UInt64.toNat_toUInt32, inRange.toNat_shift fits, UInt32.toNat_toUInt64]
  -- the bits that the conversion drops are above the mask
  apply Nat.eq_of_testBit_eq
  intro bit
  rw [Nat.testBit_and, Nat.testBit_and, Nat.testBit_mod_two_pow]
  by_cases low : bit < 32
  · simp [low]
  · have clear : field.mask.toNat.testBit bit = false := by
      apply Nat.testBit_lt_two_pow
      exact Nat.lt_of_lt_of_le field.mask.toNat_lt
          (Nat.pow_le_pow_right (by decide) (Nat.le_of_not_lt low))
    simp [clear]

end AddressField

namespace Config

variable {config : Config}

def blockField (config : Config) : AddressField where
  width := config.blockBits
  shift := 2

def lineField (config : Config) : AddressField where
  width := config.lineBits
  shift := 2 + config.blockBits

def tagField (config : Config) : AddressField where
  width := 32 - (2 + config.blockBits + config.lineBits)
  shift := 2 + config.blockBits + config.lineBits

theorem toNat_lineField_shift (valid : config.Valid) :
    config.lineField.shift.toNat = config.layout.lineShift := by
  have := valid.2
  simp only [indexBits, addressBits, byteOffsetBits] at this
  simp only [lineField, Layout.lineShift, Config.layout, byteOffsetBits, UInt32.toNat_add,
    UInt32.reduceToNat]
  omega

theorem toNat_tagField_shift (valid : config.Valid) :
    config.tagField.shift.toNat = config.layout.tagShift := by
  have := valid.2
  simp only [indexBits, addressBits, byteOffsetBits] at this
  simp only [tagField, Layout.tagShift, Layout.lineShift, Config.layout, byteOffsetBits,
    UInt32.toNat_add, UInt32.reduceToNat]
  omega

theorem toNat_tagField_width (valid : config.Valid) : config.tagField.width.toNat = config.tagBits := by
  have total := Layout.tagShift_add_tagBits valid
  have shift := toNat_tagField_shift valid
  rw [addressBits] at total
  have le : 2 + config.blockBits + config.lineBits ≤ 32 := by
    rw [UInt32.le_iff_toNat_le]
    show config.tagField.shift.toNat ≤ 32
    omega
  show (32 - (2 + config.blockBits + config.lineBits)).toNat = config.tagBits
  rw [UInt32.toNat_sub_of_le _ _ le]
  show 32 - config.tagField.shift.toNat = config.tagBits
  omega

def fields (config : Config) : List AddressField :=
  [config.blockField, config.lineField, config.tagField]

theorem fields_inRange (valid : config.Valid) : ∀ field ∈ config.fields, field.InRange := by
  have total := Layout.tagShift_add_tagBits valid
  have line := toNat_lineField_shift valid
  have tag := toNat_tagField_shift valid
  have width := toNat_tagField_width valid
  simp only [Layout.tagShift, Layout.lineShift, Config.layout, byteOffsetBits, addressBits] at *
  simp only [fields, List.forall_mem_cons, List.not_mem_nil, false_implies, implies_true, and_true]
  refine ⟨?_, ?_, ?_⟩ <;> apply AddressField.inRange_of_le
  · show 2 + config.blockBits.toNat ≤ 32
    omega
  · show config.lineField.shift.toNat + config.lineBits.toNat ≤ 32
    omega
  · omega

structure WordExact (config : Config) : Prop where
  inRange : ∀ field ∈ config.fields, field.InRange
  lineShift_eq : config.lineField.shift.toNat = 2 + config.blockBits.toNat
  tagShift_eq : config.tagField.shift.toNat = 2 + config.blockBits.toNat + config.lineBits.toNat
  tagShift_le : config.tagField.shift ≤ 32
  blockBits_le : config.blockBits ≤ 30
  lineBits_le : config.lineBits ≤ 30 - config.blockBits
  blockMask_eq : config.blockField.mask.toNat = config.layout.blockMask
  lineMask_eq : config.lineField.mask.toNat = config.layout.lineMask
  tagMask_eq : config.tagField.mask.toNat = config.layout.tagMask
  read_eq : ∀ address, config.layout.split address =
    { tag := (config.tagField.read address).toNat
      line := (config.lineField.read address).toNat
      block := (config.blockField.read address).toNat }
  place_eq : ∀ tag line block : UInt32,
    config.layout.join { tag := tag.toNat, line := line.toNat, block := block.toNat } =
      config.tagField.place tag ||| config.lineField.place line ||| config.blockField.place block

theorem wordExact (valid : config.Valid) : config.WordExact := by
  have inRange := fields_inRange valid
  have block : config.blockField.InRange := inRange _ (by simp [fields])
  have line : config.lineField.InRange := inRange _ (by simp [fields])
  have tag : config.tagField.InRange := inRange _ (by simp [fields])
  have lineShift := toNat_lineField_shift valid
  have tagShift := toNat_tagField_shift valid
  have blockMask : config.blockField.mask.toNat = config.layout.blockMask := block.toNat_mask
  have lineMask : config.lineField.mask.toNat = config.layout.lineMask := by
    rw [line.toNat_mask, lineShift]
    rfl
  have tagMask : config.tagField.mask.toNat = config.layout.tagMask := by
    rw [tag.toNat_mask, tagShift, toNat_tagField_width valid, Layout.tagMask_eq valid]
  have bounds := valid.2
  simp only [indexBits, addressBits, byteOffsetBits] at bounds
  have blockBits : config.blockBits ≤ 30 := by
    rw [UInt32.le_iff_toNat_le]
    exact Nat.le_trans (Nat.le_add_right _ _) bounds
  refine ⟨inRange, lineShift, tagShift, ?_, blockBits, ?_, blockMask, lineMask, tagMask, ?_, ?_⟩
  · rw [UInt32.le_iff_toNat_le, tagShift]
    simp only [Layout.tagShift, Layout.lineShift, Config.layout, byteOffsetBits, UInt32.reduceToNat]
    omega
  · rw [UInt32.le_iff_toNat_le, UInt32.toNat_sub_of_le _ _ blockBits]
    show config.lineBits.toNat ≤ 30 - config.blockBits.toNat
    omega
  · intro address
    rw [tag.toNat_read, line.toNat_read, block.toNat_read, tagMask, lineMask, blockMask, tagShift,
      lineShift]
    rfl
  · intro t l b
    apply UInt32.toNat_inj.1
    have join :
        (config.tagField.place t ||| config.lineField.place l ||| config.blockField.place b).toNat =
        ((t.toNat <<< config.layout.tagShift) &&& config.layout.tagMask) |||
          ((l.toNat <<< config.layout.lineShift) &&& config.layout.lineMask) |||
          ((b.toNat <<< byteOffsetBits) &&& config.layout.blockMask) := by
      rw [UInt32.toNat_or, UInt32.toNat_or, tag.toNat_place, line.toNat_place, block.toNat_place,
        tagMask, lineMask, blockMask, tagShift, lineShift]
      rfl
    rw [Layout.join, ← join, Nat.toUInt32_eq, UInt32.ofNat_toNat]

/-! ## Addresses of a valid geometry -/

structure Decomposes (config : Config) : Prop where
  block_and_line : config.layout.blockMask &&& config.layout.lineMask = 0
  line_and_tag : config.layout.lineMask &&& config.layout.tagMask = 0
  block_and_tag : config.layout.blockMask &&& config.layout.tagMask = 0
  masks_eq : config.layout.blockMask ||| config.layout.lineMask ||| config.layout.tagMask =
    (~~~(3 : UInt32)).toNat
  blockIndex_eq : ∀ address, config.layout.blockIndex address =
    address.toNat / 4 % 2 ^ config.blockBits.toNat
  lineIndex_eq : ∀ address, config.layout.lineIndex address =
    address.toNat / 2 ^ (2 + config.blockBits.toNat) % 2 ^ config.lineBits.toNat
  tag_eq : ∀ address, config.layout.tag address =
    address.toNat / 2 ^ (2 + config.blockBits.toNat + config.lineBits.toNat)
  join_split : ∀ address, config.layout.join (config.layout.split address) = address &&& ~~~3
  split_join : ∀ location : Location, config.layout.split (config.layout.join location) =
    { tag := location.tag % 2 ^ config.tagBits
      line := location.line % 2 ^ config.lineBits.toNat
      block := location.block % 2 ^ config.blockBits.toNat }
  tagBits_eq : config.layout.tagBits = config.tagBits
  split_eq_split_iff : ∀ address other : UInt32,
    config.layout.split address = config.layout.split other ↔ address.toNat / 4 = other.toNat / 4
  wordExact : config.WordExact

theorem decomposes (validates : config.validate = .ok ()) : config.Decomposes := by
  have valid := (validate_eq_ok_iff config).1 validates
  have split (address : UInt32) := Layout.split_eq valid address
  refine
    { block_and_line := lowBits_and_eq_zero (Nat.le_refl _)
      line_and_tag := lowBits_and_eq_zero (Nat.le_refl _)
      block_and_tag := lowBits_and_eq_zero (Nat.le_add_right _ _)
      masks_eq := Layout.masks_eq valid
      blockIndex_eq := fun address => congrArg Location.block (split address)
      lineIndex_eq := fun address => congrArg Location.line (split address)
      tag_eq := fun address => congrArg Location.tag (split address)
      join_split := Layout.join_split valid
      split_join := fun location => ?_
      tagBits_eq := Layout.tagBits_eq valid
      split_eq_split_iff := Layout.split_eq_split_iff valid
      wordExact := wordExact valid }
  rw [Layout.split_join_mod valid, lines_eq, blocks_eq]
  rfl

/-- The line index takes all bits above the byte offset, and no bit is left for a block or a tag. -/
theorem decomposes_lines_only :
    let config : Config := { blockBits := 0, lineBits := 30 }
    config.validate = .ok () ∧ config.tagBits = 0 ∧ config.Decomposes :=
  ⟨rfl, rfl, decomposes rfl⟩

end Config

end SetAssoc
