import SetAssoc.Access
/-!
# Cache configurations

A configuration holds the geometry of one cache as bit counts and its three policies. A geometry is
valid if it has at most 32 ways and its block and line indices fit into the 30 index bits of an
address.
-/

namespace SetAssoc

inductive WritePolicy where
  | writeThrough
  | writeBack
  deriving DecidableEq, Repr

inductive WriteAllocation where
  | writeAllocate
  | noWriteAllocate
  deriving DecidableEq, Repr

inductive Replacement where
  | random
  | lru
  deriving DecidableEq, Repr

def WritePolicy.label : WritePolicy → String
  | writeThrough => "Write-through"
  | writeBack => "Write-back"

def WriteAllocation.label : WriteAllocation → String
  | writeAllocate => "Write allocate"
  | noWriteAllocate => "No write allocate"

def Replacement.label : Replacement → String
  | random => "Random"
  | lru => "LRU"

/-- Geometry and policies of one cache. The defaults describe 32 lines of one four-word way. -/
structure Config where
  blockBits : UInt32 := 2
  lineBits : UInt32 := 5
  wayBits : UInt32 := 0
  writePolicy : WritePolicy := .writeBack
  writeAllocation : WriteAllocation := .writeAllocate
  replacement : Replacement := .lru
  deriving DecidableEq, Repr

inductive Dimension where
  | blocks
  | lines
  | ways
  deriving DecidableEq, Repr

def Dimension.name : Dimension → String
  | blocks => "blocks"
  | lines => "lines"
  | ways => "ways"

def maxWayBits : Nat := 5

def indexBits : Nat := addressBits - byteOffsetBits

inductive ConfigError where
  | wayBitsOutOfRange (wayBits : UInt32)
  | addressBitsExceeded (blockBits lineBits : UInt32)
  | notPowerOfTwo (dimension : Dimension) (count : UInt32)
  | malformedDocument
  deriving DecidableEq, Repr

def ConfigError.message : ConfigError → String
  | wayBitsOutOfRange wayBits =>
      s!"way bits {wayBits} exceed the maximum of {maxWayBits}"
  | addressBitsExceeded blockBits lineBits =>
      s!"block bits ({blockBits}) + line bits ({lineBits}) exceed the {indexBits} index bits of a {addressBits}-bit address"
  | notPowerOfTwo dimension count =>
      s!"{dimension.name} count {count} is not a power of two"
  | malformedDocument => "invalid configuration document: malformed or mistyped JSON"

namespace Config

instance : Inhabited Config := ⟨{}⟩

def blocks (config : Config) : Nat := 1 <<< config.blockBits.toNat

def lines (config : Config) : Nat := 1 <<< config.lineBits.toNat

def ways (config : Config) : Nat := 1 <<< config.wayBits.toNat

def entries (config : Config) : Nat := config.lines * config.ways

def tagBits (config : Config) : Nat :=
  indexBits - config.blockBits.toNat - config.lineBits.toNat

/-- Checks the associativity first and the address bits second. -/
def validate (config : Config) : Except ConfigError Unit :=
  if maxWayBits < config.wayBits.toNat then
    .error (.wayBitsOutOfRange config.wayBits)
  else if indexBits < config.blockBits.toNat + config.lineBits.toNat then
    .error (.addressBitsExceeded config.blockBits config.lineBits)
  else
    .ok ()

def Valid (config : Config) : Prop :=
  config.wayBits.toNat ≤ maxWayBits ∧
    config.blockBits.toNat + config.lineBits.toNat ≤ indexBits

instance (config : Config) : Decidable config.Valid :=
  inferInstanceAs (Decidable (_ ∧ _))

theorem validate_eq_ok_iff (config : Config) : config.validate = .ok () ↔ config.Valid := by
  unfold validate Valid
  split
  · simp only [reduceCtorEq, false_iff]; omega
  · split <;> simp only [reduceCtorEq, false_iff, true_iff] <;> omega

theorem ways_pos (config : Config) : 0 < config.ways := by
  rw [ways, Nat.one_shiftLeft]
  exact Nat.two_pow_pos _

theorem Valid.ways_le {config : Config} (h : config.Valid) : config.ways ≤ 32 := by
  rw [ways, Nat.one_shiftLeft]
  exact Nat.pow_le_pow_right (n := 2) (by decide) h.1

def validated (config : Config) : Except ConfigError Config :=
  config.validate.map fun _ => config

def exactLog2 (dimension : Dimension) (count : UInt32) : Except ConfigError UInt32 :=
  if count.toNat = 1 <<< count.toNat.log2 then
    .ok count.toNat.log2.toUInt32
  else
    .error (.notPowerOfTwo dimension count)

def ofCounts (blocks lines ways : UInt32) : Except ConfigError Config := do
  let blockBits ← exactLog2 .blocks blocks
  let lineBits ← exactLog2 .lines lines
  let wayBits ← exactLog2 .ways ways
  validated { blockBits, lineBits, wayBits }

end Config

end SetAssoc
