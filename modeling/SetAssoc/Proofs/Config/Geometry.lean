import SetAssoc.Proofs.Address
import SetAssoc.Proofs.Word

/-!
# Geometries as bit counts and as element counts

The two ways to give a geometry determine each other: element counts are accepted just if they are
those of a valid configuration, which is then the result.
-/

namespace SetAssoc

theorem bind_eq_ok_iff {ε α β : Type} {first : Except ε α} {next : α → Except ε β} {result : β} :
    first >>= next = .ok result ↔ ∃ value, first = .ok value ∧ next value = .ok result := by
  cases first <;> simp [bind, Except.bind]

theorem bind_eq_error_iff {ε α β : Type} {first : Except ε α} {next : α → Except ε β} {error : ε} :
    first >>= next = .error error ↔
      first = .error error ∨ ∃ value, first = .ok value ∧ next value = .error error := by
  cases first <;> simp [bind, Except.bind]

namespace Config

variable {config : Config} {blocks lines ways : UInt32} {error : ConfigError}

/-! ## Bit counts -/

/-- The check in words. A sum of bit counts that does not fit into a word is too large. -/
def validateInWords (config : Config) : Except ConfigError Unit :=
  if 5 < config.wayBits then
    .error (.wayBitsOutOfRange config.wayBits)
  else if (Word.sum? config.blockBits config.lineBits).all (30 < ·) then
    .error (.addressBitsExceeded config.blockBits config.lineBits)
  else
    .ok ()

theorem all_sum?_iff {first second : UInt32} :
    (Word.sum? first second).all (30 < ·) = true ↔ 30 < first.toNat + second.toNat := by
  have bound : (30 : UInt32).toNat = 30 := rfl
  cases found : Word.sum? first second with
  | some sum =>
      rw [← Word.sum?_eq_some_iff.1 found]
      simp [UInt32.lt_iff_toNat_lt, bound]
  | none =>
      -- a sum that is left out is larger than any word
      have large : 2 ^ 32 ≤ first.toNat + second.toNat := by
        by_contra fits
        have exact : (first + second).toNat = first.toNat + second.toNat := by
          rw [UInt32.toNat_add, Nat.mod_eq_of_lt (Nat.not_le.1 fits)]
        rw [Word.sum?_eq_some_iff.2 exact] at found
        cases found
      simp only [Option.all_none, true_iff]
      omega

theorem validateInWords_eq (config : Config) : config.validateInWords = config.validate := by
  simp only [validateInWords, validate, all_sum?_iff]
  rfl

/-! ## Element counts -/

theorem ways_eq (config : Config) : config.ways = 2 ^ config.wayBits.toNat := Nat.one_shiftLeft _

def DefaultPolicies (config : Config) : Prop :=
  config.writePolicy = .writeBack ∧ config.writeAllocation = .writeAllocate ∧
    config.replacement = .lru

inductive CountFault (blocks lines ways : UInt32) : ConfigError → Prop
  | blocks (noPower : ¬ blocks.toNat.isPowerOfTwo) :
      CountFault blocks lines ways (.notPowerOfTwo .blocks blocks)
  | lines (first : blocks.toNat.isPowerOfTwo) (noPower : ¬ lines.toNat.isPowerOfTwo) :
      CountFault blocks lines ways (.notPowerOfTwo .lines lines)
  | ways (first : blocks.toNat.isPowerOfTwo) (second : lines.toNat.isPowerOfTwo)
      (noPower : ¬ ways.toNat.isPowerOfTwo) :
      CountFault blocks lines ways (.notPowerOfTwo .ways ways)
  | geometry {config : Config} {error : ConfigError} (sameBlocks : config.blocks = blocks.toNat)
      (sameLines : config.lines = lines.toNat) (sameWays : config.ways = ways.toNat)
      (invalid : config.validate = .error error) : CountFault blocks lines ways error

def exactLog2InWords (dimension : Dimension) (count : UInt32) : Except ConfigError UInt32 :=
  if Word.isPowerOfTwo count then
    .ok (Word.trailingZeros count)
  else
    .error (.notPowerOfTwo dimension count)

section

variable {dimension : Dimension} {count bits : UInt32}

theorem exists_bits (power : count.toNat.isPowerOfTwo) :
    ∃ bits : UInt32, count.toNat = 2 ^ bits.toNat := by
  obtain ⟨exponent, power⟩ := power
  exact ⟨Word.trailingZeros count, by rw [Word.toNat_trailingZeros power, power]⟩

theorem exactLog2_of_power (power : count.toNat = 2 ^ bits.toNat) :
    exactLog2 dimension count = .ok bits := by
  have exponent : count.toNat.log2 = bits.toNat := by rw [power, Nat.log2_two_pow]
  rw [exactLog2, exponent, if_pos (by rw [power, Nat.one_shiftLeft])]
  exact congrArg Except.ok UInt32.ofNat_toNat

theorem exactLog2_of_not_power (noPower : ¬ count.toNat.isPowerOfTwo) :
    exactLog2 dimension count = .error (.notPowerOfTwo dimension count) :=
  if_neg fun power => noPower ⟨_, power.trans (Nat.one_shiftLeft _)⟩

theorem exactLog2_eq_ok_iff :
    exactLog2 dimension count = .ok bits ↔ count.toNat = 2 ^ bits.toNat := by
  refine ⟨fun found => ?_, exactLog2_of_power⟩
  by_cases power : count.toNat.isPowerOfTwo
  · obtain ⟨exponent, power⟩ := exists_bits power
    rw [exactLog2_of_power power] at found
    cases found
    exact power
  · rw [exactLog2_of_not_power power] at found
    cases found

theorem exactLog2_eq_error_iff : exactLog2 dimension count = .error error ↔
    ¬ count.toNat.isPowerOfTwo ∧ .notPowerOfTwo dimension count = error := by
  by_cases power : count.toNat.isPowerOfTwo
  · obtain ⟨exponent, exact⟩ := exists_bits power
    simp [exactLog2_of_power exact, power]
  · simp [exactLog2_of_not_power power, power]

theorem exactLog2InWords_eq : exactLog2InWords dimension count = exactLog2 dimension count := by
  by_cases power : count.toNat.isPowerOfTwo
  · obtain ⟨bits, exact⟩ := exists_bits power
    have same : Word.trailingZeros count = bits := UInt32.toNat_inj.1 (Word.toNat_trailingZeros exact)
    rw [exactLog2InWords, if_pos (Word.isPowerOfTwo_iff.2 power), exactLog2_of_power exact, same]
  · rw [exactLog2InWords, if_neg (mt Word.isPowerOfTwo_iff.1 power), exactLog2_of_not_power power]

end

theorem validated_eq_ok_iff {result : Config} :
    config.validated = .ok result ↔ config.Valid ∧ config = result := by
  rw [← validate_eq_ok_iff, validated]
  cases config.validate <;> simp [Except.map]

theorem validated_eq_error_iff :
    config.validated = .error error ↔ config.validate = .error error := by
  rw [validated]
  cases config.validate <;> simp [Except.map]

theorem ofCounts_eq_ok_iff : ofCounts blocks lines ways = .ok config ↔
    config.Valid ∧ config.DefaultPolicies ∧ config.blocks = blocks.toNat ∧
      config.lines = lines.toNat ∧ config.ways = ways.toNat := by
  simp only [ofCounts, bind_eq_ok_iff, exactLog2_eq_ok_iff, validated_eq_ok_iff, blocks_eq, lines_eq,
    ways_eq]
  constructor
  · rintro ⟨_, sameBlocks, _, sameLines, _, sameWays, valid, rfl⟩
    exact ⟨valid, ⟨rfl, rfl, rfl⟩, sameBlocks.symm, sameLines.symm, sameWays.symm⟩
  · cases config with
    | mk blockBits lineBits wayBits =>
        rintro ⟨valid, ⟨rfl, rfl, rfl⟩, sameBlocks, sameLines, sameWays⟩
        exact ⟨blockBits, sameBlocks.symm, lineBits, sameLines.symm, wayBits, sameWays.symm, valid,
          rfl⟩

theorem ofCounts_eq_error_iff :
    ofCounts blocks lines ways = .error error ↔ CountFault blocks lines ways error := by
  simp only [ofCounts, bind_eq_error_iff, exactLog2_eq_ok_iff, exactLog2_eq_error_iff,
    validated_eq_error_iff]
  constructor
  · rintro (⟨noPower, rfl⟩ | ⟨blockBits, sameBlocks, ⟨noPower, rfl⟩ | ⟨lineBits, sameLines,
      ⟨noPower, rfl⟩ | ⟨wayBits, sameWays, invalid⟩⟩⟩)
    · exact .blocks noPower
    · exact .lines ⟨_, sameBlocks⟩ noPower
    · exact .ways ⟨_, sameBlocks⟩ ⟨_, sameLines⟩ noPower
    · let config : Config := { blockBits, lineBits, wayBits }
      exact .geometry (config.blocks_eq.trans sameBlocks.symm) (config.lines_eq.trans sameLines.symm)
        (config.ways_eq.trans sameWays.symm) invalid
  · rintro (noPower | ⟨first, noPower⟩ | ⟨first, second, noPower⟩ |
      ⟨sameBlocks, sameLines, sameWays, invalid⟩)
    · exact .inl ⟨noPower, rfl⟩
    · obtain ⟨_, sameBlocks⟩ := exists_bits first
      exact .inr ⟨_, sameBlocks, .inl ⟨noPower, rfl⟩⟩
    · obtain ⟨_, sameBlocks⟩ := exists_bits first
      obtain ⟨_, sameLines⟩ := exists_bits second
      exact .inr ⟨_, sameBlocks, .inr ⟨_, sameLines, .inl ⟨noPower, rfl⟩⟩⟩
    · rw [blocks_eq] at sameBlocks
      rw [lines_eq] at sameLines
      rw [ways_eq] at sameWays
      exact .inr ⟨_, sameBlocks.symm, .inr ⟨_, sameLines.symm, .inr ⟨_, sameWays.symm, invalid⟩⟩⟩

theorem exists_ok_ofCounts_iff : (∃ config, ofCounts blocks lines ways = .ok config) ↔
    blocks.toNat.isPowerOfTwo ∧ lines.toNat.isPowerOfTwo ∧ ways.toNat.isPowerOfTwo ∧
      ways.toNat ≤ 32 ∧ blocks.toNat * lines.toNat ≤ 2 ^ 30 := by
  constructor
  · rintro ⟨config, accepted⟩
    obtain ⟨valid, -, sameBlocks, sameLines, sameWays⟩ := ofCounts_eq_ok_iff.1 accepted
    -- a product of powers is a power of the sum, which is what the check of the geometry bounds
    have fits : config.blocks * config.lines ≤ 2 ^ 30 := by
      rw [blocks_eq, lines_eq, ← Nat.pow_add]
      exact Nat.pow_le_pow_right (by decide) valid.2
    rw [← sameBlocks, ← sameLines, ← sameWays]
    exact ⟨⟨_, config.blocks_eq⟩, ⟨_, config.lines_eq⟩, ⟨_, config.ways_eq⟩, valid.ways_le, fits⟩
  · rintro ⟨first, second, third, few, fits⟩
    obtain ⟨blockBits, sameBlocks⟩ := exists_bits first
    obtain ⟨lineBits, sameLines⟩ := exists_bits second
    obtain ⟨wayBits, sameWays⟩ := exists_bits third
    rw [sameBlocks, sameLines, ← Nat.pow_add] at fits
    have few : 2 ^ wayBits.toNat ≤ 2 ^ 5 := sameWays ▸ few
    have valid : wayBits.toNat ≤ 5 ∧ blockBits.toNat + lineBits.toNat ≤ 30 :=
      ⟨(Nat.pow_le_pow_iff_right (by decide)).1 few, (Nat.pow_le_pow_iff_right (by decide)).1 fits⟩
    let config : Config := { blockBits, lineBits, wayBits }
    exact ⟨config, ofCounts_eq_ok_iff.2 ⟨valid, ⟨rfl, rfl, rfl⟩,
      config.blocks_eq.trans sameBlocks.symm, config.lines_eq.trans sameLines.symm,
      config.ways_eq.trans sameWays.symm⟩⟩

theorem Valid.bounds (valid : config.Valid) :
    config.wayBits.toNat ≤ 5 ∧ config.blockBits.toNat + config.lineBits.toNat ≤ 30 := valid

theorem Valid.toNat_counts (valid : config.Valid) :
    ((1 : UInt32) <<< config.blockBits).toNat = config.blocks ∧
      ((1 : UInt32) <<< config.lineBits).toNat = config.lines ∧
      ((1 : UInt32) <<< config.wayBits).toNat = config.ways := by
  have bounds := valid.bounds
  rw [config.blocks_eq, config.lines_eq, config.ways_eq]
  exact ⟨Word.toNat_bit (by omega), Word.toNat_bit (by omega), Word.toNat_bit (by omega)⟩

theorem ofCounts_of_valid (valid : config.Valid) (policies : config.DefaultPolicies) :
    ofCounts (1 <<< config.blockBits) (1 <<< config.lineBits) (1 <<< config.wayBits) =
      .ok config := by
  obtain ⟨sameBlocks, sameLines, sameWays⟩ := valid.toNat_counts
  exact ofCounts_eq_ok_iff.2 ⟨valid, policies, sameBlocks.symm, sameLines.symm, sameWays.symm⟩

def ofCountsInWords (blocks lines ways : UInt32) : Except ConfigError Config := do
  let blockBits ← exactLog2InWords .blocks blocks
  let lineBits ← exactLog2InWords .lines lines
  let wayBits ← exactLog2InWords .ways ways
  let config : Config := { blockBits, lineBits, wayBits }
  config.validateInWords
  return config

theorem ofCountsInWords_eq : ofCountsInWords blocks lines ways = ofCounts blocks lines ways := by
  simp only [ofCountsInWords, ofCounts, exactLog2InWords_eq, validateInWords_eq, validated]
  rfl

theorem validate_of_ways (many : 5 < config.wayBits.toNat) :
    config.validate = .error (.wayBitsOutOfRange config.wayBits) := if_pos many

theorem validate_of_index (few : config.wayBits.toNat ≤ 5)
    (wide : 30 < config.blockBits.toNat + config.lineBits.toNat) :
    config.validate = .error (.addressBitsExceeded config.blockBits config.lineBits) :=
  (if_neg (Nat.not_lt.2 few)).trans (if_pos wide)

theorem geometry_exact :
    (∀ config : Config, config.validateInWords = config.validate ∧
      (config.validate = .ok () ↔
        config.wayBits.toNat ≤ 5 ∧ config.blockBits.toNat + config.lineBits.toNat ≤ 30) ∧
      (5 < config.wayBits.toNat → config.validate = .error (.wayBitsOutOfRange config.wayBits)) ∧
      (config.wayBits.toNat ≤ 5 → 30 < config.blockBits.toNat + config.lineBits.toNat →
        config.validate = .error (.addressBitsExceeded config.blockBits config.lineBits))) ∧
      (∀ blocks lines ways : UInt32,
        ofCountsInWords blocks lines ways = ofCounts blocks lines ways ∧
        ((∃ config, ofCounts blocks lines ways = .ok config) ↔
          blocks.toNat.isPowerOfTwo ∧ lines.toNat.isPowerOfTwo ∧ ways.toNat.isPowerOfTwo ∧
            ways.toNat ≤ 32 ∧ blocks.toNat * lines.toNat ≤ 2 ^ 30) ∧
        (∀ config, ofCounts blocks lines ways = .ok config → config.DefaultPolicies ∧
          config.blocks = blocks.toNat ∧ config.lines = lines.toNat ∧ config.ways = ways.toNat) ∧
        ∀ error, ofCounts blocks lines ways = .error error ↔ CountFault blocks lines ways error) ∧
      ∀ config : Config, config.validate = .ok () → config.DefaultPolicies →
        (((1 : UInt32) <<< config.blockBits).toNat = config.blocks ∧
          ((1 : UInt32) <<< config.lineBits).toNat = config.lines ∧
          ((1 : UInt32) <<< config.wayBits).toNat = config.ways) ∧
        ofCounts (1 <<< config.blockBits) (1 <<< config.lineBits) (1 <<< config.wayBits) =
          .ok config := by
  refine ⟨fun config => ?_, fun blocks lines ways => ?_, fun config valid policies => ?_⟩
  · exact ⟨config.validateInWords_eq, config.validate_eq_ok_iff, validate_of_ways, validate_of_index⟩
  · exact ⟨ofCountsInWords_eq, exists_ok_ofCounts_iff,
      fun config accepted => (ofCounts_eq_ok_iff.1 accepted).2, fun error => ofCounts_eq_error_iff⟩
  · have valid := config.validate_eq_ok_iff.1 valid
    exact ⟨valid.toNat_counts, ofCounts_of_valid valid policies⟩

/-- A sum of bit counts that wraps around, too many ways beside it, and the widest geometry from its
counts and back. -/
theorem geometry_exact_widest :
    let wrapping : Config := { blockBits := 0xFFFFFFFF, lineBits := 1 }
    let widest : Config := { blockBits := 10, lineBits := 20, wayBits := 5 }
    wrapping.validate = .error (.addressBitsExceeded 0xFFFFFFFF 1) ∧
      { wrapping with wayBits := 6 }.validate = .error (.wayBitsOutOfRange 6) ∧
      (ofCounts 1024 1048576 32 = .ok widest ∧ widest.DefaultPolicies ∧ widest.blocks = 1024 ∧
        widest.lines = 1048576 ∧ widest.ways = 32) ∧
      ((1 : UInt32) <<< widest.blockBits).toNat = widest.blocks := by
  intro wrapping widest
  obtain ⟨checked, counted, back⟩ := geometry_exact
  obtain ⟨same, accepted⟩ := back widest rfl ⟨rfl, rfl, rfl⟩
  exact ⟨(checked wrapping).2.2.2 (by decide) (by decide), (checked _).2.2.1 (by decide),
    ⟨accepted, (counted 1024 1048576 32).2.2.1 widest accepted⟩, same.1⟩

end Config

end SetAssoc
