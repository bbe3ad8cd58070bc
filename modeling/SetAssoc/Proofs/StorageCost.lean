import Mathlib.Tactic.Ring
import SetAssoc.Proofs.Cache.Reachable
import SetAssoc.Proofs.Config.Geometry
import SetAssoc.Proofs.Hierarchy.Walk
import SetAssoc.Statistics

/-!
# The storage cost of a configuration

The cost of a valid configuration fits into a double word by far, and so does every number on the
way to it. The size in the statistics of a cache is the cost of its configuration, whatever it
holds.
-/

namespace SetAssoc

/-! ## The cost as a number -/

namespace StorageCost

theorem bits_eq_sum (cost : StorageCost) : cost.bits = (cost.components.map Prod.snd).sum := by
  rw [bits, List.sum_eq_foldl, List.foldl_map]

end StorageCost

namespace Config

variable {config : Config}

def hardwareBits (config : Config) : Nat :=
  2 ^ (config.lineBits.toNat + config.wayBits.toNat) *
    (1 + (if config.writePolicy = .writeBack then 1 else 0) +
      (if config.replacement = .lru then config.wayBits.toNat else 0) +
      (30 - config.blockBits.toNat - config.lineBits.toNat) + 32 * 2 ^ config.blockBits.toNat)

theorem entries_eq (config : Config) :
    config.entries = 2 ^ (config.lineBits.toNat + config.wayBits.toNat) := by
  rw [entries, lines_eq, ways_eq, Nat.pow_add]
  rfl

theorem bits_storageCost (config : Config) : config.storageCost.bits = config.hardwareBits := by
  have tag : config.tagBits = 30 - config.blockBits.toNat - config.lineBits.toNat := rfl
  have data : wordBits * config.blocks = 32 * 2 ^ config.blockBits.toNat :=
    congrArg (32 * ·) config.blocks_eq
  rw [StorageCost.bits_eq_sum, hardwareBits, ← entries_eq, ← tag, ← data]
  cases policy : config.writePolicy <;> cases replacement : config.replacement <;>
    simp [storageCost, Component.all, Component.bitsPerWay, policy, replacement] <;> ring

def parts (config : Config) (components : List Component) : List (Component × Nat) :=
  components.filterMap fun component =>
    (component.bitsPerWay config).map fun bits => (component, bits * config.entries)

theorem parts_append (config : Config) (above below : List Component) :
    config.parts (above ++ below) = config.parts above ++ config.parts below := List.filterMap_append

theorem components_storageCost (config : Config) :
    config.storageCost.components = config.parts Component.all := rfl

theorem map_fst_parts (config : Config) (components : List Component) :
    (config.parts components).map Prod.fst =
      components.filter fun component => (component.bitsPerWay config).isSome := by
  induction components with
  | nil => rfl
  | cons component rest ih =>
      rw [← List.singleton_append, parts_append, List.map_append, ih, List.filter_append]
      cases needed : component.bitsPerWay config <;> simp [parts, needed]

theorem mem_map_fst_components {component : Component} :
    component ∈ config.storageCost.components.map Prod.fst ↔
      (component.bitsPerWay config).isSome = true := by
  have all : component ∈ Component.all := by cases component <;> decide
  rw [components_storageCost, map_fst_parts]
  simp [all]

namespace Valid

variable (valid : config.Valid)
include valid

theorem entries_le : config.entries ≤ 2 ^ 35 := by
  have bounds := valid.bounds
  rw [entries_eq]
  exact Nat.pow_le_pow_right (by decide) (by omega)

theorem entries_mul_blocks_le : config.entries * config.blocks ≤ 2 ^ 35 := by
  have bounds := valid.bounds
  have blocks : config.blocks = 2 ^ config.blockBits.toNat := config.blocks_eq
  rw [entries_eq, blocks, ← Nat.pow_add]
  exact Nat.pow_le_pow_right (by decide) (by omega)

theorem hardwareBits_lt : config.hardwareBits < 2 ^ 64 := by
  have bounds := valid.bounds
  have data := valid.entries_mul_blocks_le
  have blocks : config.blocks = 2 ^ config.blockBits.toNat := config.blocks_eq
  -- beside its data a way has a valid and a dirty bit, up to 5 bits of rank and up to 30 of tag
  have flags : 1 + (if config.writePolicy = .writeBack then 1 else 0) +
      (if config.replacement = .lru then config.wayBits.toNat else 0) +
      (30 - config.blockBits.toNat - config.lineBits.toNat) ≤ 37 := by
    split <;> split <;> omega
  have others := Nat.mul_le_mul valid.entries_le flags
  rw [hardwareBits, ← entries_eq, Nat.mul_add, Nat.mul_left_comm, ← blocks]
  omega

end Valid

end Config

/-! ## The cost in words -/

structure WordCost where
  components : List (Component × UInt64) := []
  bits : UInt64 := 0

def WordCost.add? (cost : WordCost) (component : Component) (bits : UInt64) : Option WordCost := do
  let total ← DoubleWord.sum? cost.bits bits
  return { components := cost.components ++ [(component, bits)], bits := total }

namespace Config

variable {config : Config}

def entries? (config : Config) : Option UInt64 := do
  let lines ← Word.bit? config.lineBits
  let ways ← Word.bit? config.wayBits
  DoubleWord.product? lines.toUInt64 ways.toUInt64

def tagBits? (config : Config) : Option UInt32 := do
  let aboveBlock ← Word.difference? 30 config.blockBits
  Word.difference? aboveBlock config.lineBits

end Config

def Component.bits? (config : Config) (entries : UInt64) : Component → Option (Option UInt64)
  | valid => some entries
  | dirty => some (if config.writePolicy = .writeBack then some entries else none)
  | lru =>
      if config.replacement = .lru then
        (DoubleWord.product? config.wayBits.toUInt64 entries).map some
      else
        some none
  | tag => do
      let tagBits ← config.tagBits?
      (DoubleWord.product? tagBits.toUInt64 entries).map some
  | data => do
      let words ← DoubleWord.product? 32 entries
      let blocks ← Word.bit? config.blockBits
      (DoubleWord.product? words blocks.toUInt64).map some

def WordCost.push? (config : Config) (entries : UInt64) (cost : WordCost) (component : Component) :
    Option WordCost := do
  match ← component.bits? config entries with
  | some bits => cost.add? component bits
  | none => return cost

/-- The cost, worked out component by component; none if a number on the way does not fit. -/
def Config.storageCostInWords? (config : Config) : Option WordCost := do
  let entries ← config.entries?
  Component.all.foldlM (WordCost.push? config entries) {}

structure WordCost.Represents (cost : WordCost) (parts : List (Component × Nat)) : Prop where
  components_eq : cost.components.map (fun part => (part.1, part.2.toNat)) = parts
  bits_eq : cost.bits.toNat = (parts.map Prod.snd).sum

theorem WordCost.Represents.add? {cost : WordCost} {parts : List (Component × Nat)}
    (represents : cost.Represents parts) (component : Component) {bits : UInt64}
    (fits : (parts.map Prod.snd).sum + bits.toNat < 2 ^ 64) :
    ∃ next, cost.add? component bits = some next ∧
      next.Represents (parts ++ [(component, bits.toNat)]) := by
  rw [← represents.bits_eq] at fits
  obtain ⟨total, added, exact⟩ := DoubleWord.exists_sum? fits
  refine ⟨_, by rw [WordCost.add?, added]; rfl, ?_, ?_⟩
  · simp [represents.components_eq]
  · simp [exact, represents.bits_eq]

namespace Config.Valid

variable {config : Config} {entries : UInt64} (valid : config.Valid)
include valid

theorem exists_entries? :
    ∃ entries, config.entries? = some entries ∧ entries.toNat = config.entries := by
  have bounds := valid.bounds
  obtain ⟨lines, foundLines, sameLines⟩ := Word.exists_bit? (show config.lineBits.toNat < 32 by omega)
  obtain ⟨ways, foundWays, sameWays⟩ := Word.exists_bit? (show config.wayBits.toNat < 32 by omega)
  have same : lines.toUInt64.toNat * ways.toUInt64.toNat = config.entries := by
    rw [UInt32.toNat_toUInt64, UInt32.toNat_toUInt64, sameLines, sameWays, ← Nat.pow_add, entries_eq]
  have fits : lines.toUInt64.toNat * ways.toUInt64.toNat < 2 ^ 64 := by
    rw [same]
    exact Nat.lt_of_le_of_lt valid.entries_le (by decide)
  obtain ⟨entries, found, exact⟩ := DoubleWord.exists_product? fits
  exact ⟨entries, by simp [entries?, foundLines, foundWays, found], exact.trans same⟩

theorem exists_tagBits? : ∃ bits, config.tagBits? = some bits ∧ bits.toNat = config.tagBits := by
  have bounds := valid.bounds
  have index : (30 : UInt32).toNat = 30 := rfl
  obtain ⟨aboveBlock, foundAbove, sameAbove⟩ := Word.exists_difference?
    (show config.blockBits.toNat ≤ (30 : UInt32).toNat by omega)
  obtain ⟨bits, found, exact⟩ := Word.exists_difference?
    (show config.lineBits.toNat ≤ aboveBlock.toNat by omega)
  exact ⟨bits, by simp [tagBits?, foundAbove, found], by rw [exact, sameAbove]; rfl⟩

section

variable (same : entries.toNat = config.entries)
include same

theorem exists_product? {bits : UInt32} (small : bits.toNat ≤ 32) :
    ∃ product, DoubleWord.product? bits.toUInt64 entries = some product ∧
      product.toNat = bits.toNat * config.entries := by
  have fits : bits.toUInt64.toNat * entries.toNat < 2 ^ 64 := by
    rw [UInt32.toNat_toUInt64, same]
    exact Nat.lt_of_le_of_lt (Nat.mul_le_mul small valid.entries_le) (by decide)
  rw [← same, ← UInt32.toNat_toUInt64 bits]
  exact DoubleWord.exists_product? fits

theorem exists_data? : ∃ words, DoubleWord.product? 32 entries = some words ∧
    ∃ blocks, Word.bit? config.blockBits = some blocks ∧
      ∃ product, DoubleWord.product? words blocks.toUInt64 = some product ∧
        product.toNat = wordBits * config.blocks * config.entries := by
  have bounds := valid.bounds
  obtain ⟨words, foundWords, sameWords⟩ :=
    valid.exists_product? same (show (32 : UInt32).toNat ≤ 32 by decide)
  obtain ⟨blocks, foundBlocks, sameBlocks⟩ :=
    Word.exists_bit? (show config.blockBits.toNat < 32 by omega)
  have total : words.toNat * blocks.toUInt64.toNat = 32 * (config.entries * config.blocks) := by
    rw [sameWords, UInt32.toNat_toUInt64, sameBlocks, blocks_eq, Nat.mul_assoc]
    rfl
  have fits : words.toNat * blocks.toUInt64.toNat < 2 ^ 64 := by
    have bound := valid.entries_mul_blocks_le
    omega
  obtain ⟨product, found, exact⟩ := DoubleWord.exists_product? fits
  refine ⟨words, foundWords, blocks, foundBlocks, product, found, ?_⟩
  rw [exact, total, Nat.mul_comm config.entries, ← Nat.mul_assoc]
  rfl

theorem exists_bits? (component : Component) : ∃ bits, component.bits? config entries = some bits ∧
    bits.map UInt64.toNat = (component.bitsPerWay config).map (· * config.entries) := by
  have bounds := valid.bounds
  cases component with
  | valid => exact ⟨some entries, rfl, by simp [Component.bitsPerWay, same]⟩
  | dirty =>
      refine ⟨_, rfl, ?_⟩
      by_cases policy : config.writePolicy = .writeBack <;> simp [Component.bitsPerWay, policy, same]
  | lru =>
      obtain ⟨product, found, exact⟩ :=
        valid.exists_product? same (show config.wayBits.toNat ≤ 32 by omega)
      by_cases policy : config.replacement = .lru
      · exact ⟨some product, by simp [Component.bits?, policy, found],
          by simp [Component.bitsPerWay, policy, exact]⟩
      · exact ⟨none, by simp [Component.bits?, policy], by simp [Component.bitsPerWay, policy]⟩
  | tag =>
      obtain ⟨bits, foundBits, sameBits⟩ := valid.exists_tagBits?
      have small : bits.toNat ≤ 32 := by
        have widest : config.tagBits ≤ 30 := by
          simp only [tagBits, indexBits, addressBits, byteOffsetBits]
          omega
        omega
      obtain ⟨product, found, exact⟩ := valid.exists_product? same small
      exact ⟨some product, by simp [Component.bits?, foundBits, found],
        by simp [Component.bitsPerWay, exact, sameBits]⟩
  | data =>
      obtain ⟨words, foundWords, blocks, foundBlocks, product, found, exact⟩ :=
        valid.exists_data? same
      exact ⟨some product, by simp [Component.bits?, foundWords, foundBlocks, found],
        by simp [Component.bitsPerWay, exact]⟩

theorem exists_push? {cost : WordCost} {parts : List (Component × Nat)}
    (represents : cost.Represents parts) {component : Component}
    (fits : ((parts ++ config.parts [component]).map Prod.snd).sum < 2 ^ 64) :
    ∃ next, cost.push? config entries component = some next ∧
      next.Represents (parts ++ config.parts [component]) := by
  obtain ⟨bits, found, exact⟩ := valid.exists_bits? same component
  cases bits with
  | none =>
      have lacks : component.bitsPerWay config = none := by simpa using exact.symm
      have part : config.parts [component] = [] := by simp [Config.parts, lacks]
      exact ⟨cost, by simp [WordCost.push?, found], by rwa [part, List.append_nil]⟩
  | some bits =>
      obtain ⟨perWay, needed, total⟩ := Option.map_eq_some_iff.1 exact.symm
      have part : config.parts [component] = [(component, bits.toNat)] := by
        simp [Config.parts, needed, total]
      rw [part] at fits ⊢
      have fits : (parts.map Prod.snd).sum + bits.toNat < 2 ^ 64 := by simpa using fits
      obtain ⟨next, added, represents⟩ := represents.add? component fits
      exact ⟨next, by simp [WordCost.push?, found, added], represents⟩

theorem exists_foldlM_push? {cost : WordCost} {parts : List (Component × Nat)}
    (represents : cost.Represents parts) (components : List Component)
    (fits : ((parts ++ config.parts components).map Prod.snd).sum < 2 ^ 64) :
    ∃ final, components.foldlM (WordCost.push? config entries) cost = some final ∧
      final.Represents (parts ++ config.parts components) := by
  induction components generalizing cost parts with
  | nil => exact ⟨cost, rfl, by simpa [Config.parts] using represents⟩
  | cons component rest ih =>
      rw [← List.singleton_append, config.parts_append, ← List.append_assoc] at fits ⊢
      -- the total only grows, so the bound on the last one covers this one
      have fitsHere : ((parts ++ config.parts [component]).map Prod.snd).sum < 2 ^ 64 := by
        rw [List.map_append, List.sum_append] at fits
        omega
      obtain ⟨next, pushed, represents⟩ := valid.exists_push? same represents fitsHere
      obtain ⟨final, folded, represents⟩ := ih represents fits
      exact ⟨final, by simp [pushed, folded], represents⟩

end

theorem exists_storageCostInWords : ∃ cost, config.storageCostInWords? = some cost ∧
    cost.Represents config.storageCost.components := by
  obtain ⟨entries, found, same⟩ := valid.exists_entries?
  have fits : (config.storageCost.components.map Prod.snd).sum < 2 ^ 64 := by
    rw [← StorageCost.bits_eq_sum, bits_storageCost]
    exact valid.hardwareBits_lt
  have none : WordCost.Represents {} [] := ⟨rfl, rfl⟩
  obtain ⟨cost, folded, represents⟩ := valid.exists_foldlM_push? same none Component.all fits
  exact ⟨cost, by rw [storageCostInWords?, found]; exact folded, represents⟩

end Config.Valid

/-! ## Caches and hierarchies -/

def Config.after (config : Config) : Operation → Config
  | .set setting =>
      if setting.isPolicy = true ∨ (config.change setting).Valid then
        config.change setting
      else
        config
  | _ => config

namespace Cache

theorem config_perform_eq (cache : Cache) (operation : Operation) :
    (cache.perform operation).2.config = cache.config.after operation := by
  cases operation with
  | set setting =>
      obtain ⟨accepted, performed⟩ | ⟨refused, error, performed⟩ := cache.perform_set_cases setting
      · rw [performed, Config.after, if_pos accepted]
        rfl
      · rw [performed, Config.after, if_neg refused]
  | undo => exact (congrArg (·.2.config) cache.perform_undo).trans config_undo
  | access | setUndoDepth | reset | subscribe => rfl

theorem config_run_eq_foldl (cache : Cache) (operations : List Operation) :
    (cache.run operations).2.1.config = operations.foldl Config.after cache.config := by
  induction operations generalizing cache with
  | nil => rfl
  | cons operation rest ih =>
      have here : (cache.step operation).cache.config = cache.config.after operation :=
        cache.config_perform_eq operation
      rw [List.foldl_cons, ← here]
      exact ih _

theorem sizeBits_statistics (cache : Cache) : cache.statistics.sizeBits = cache.config.hardwareBits :=
  cache.config.bits_storageCost

end Cache

theorem Hierarchy.Sound.sizeBits_statistics {hierarchy : Hierarchy} (sound : hierarchy.Sound) :
    hierarchy.statistics.levels.map (fun entry => (entry.1, entry.2.sizeBits)) =
      Level.all.filterMap fun level =>
        (hierarchy.level? level).map fun cache => (level, cache.config.hardwareBits) := by
  rw [Hierarchy.statistics, List.map_map, sound.enabled_eq, List.map_filterMap]
  refine congrArg (List.filterMap · Level.all) (funext fun level => ?_)
  cases hierarchy.level? level with
  | none => rfl
  | some cache => exact congrArg (fun bits => some (level, bits)) cache.sizeBits_statistics

theorem Config.storage_cost_exact :
    (∀ config : Config, config.validate = .ok () →
      (∃ cost, config.storageCostInWords? = some cost ∧
        cost.components.map (fun part => (part.1, part.2.toNat)) = config.storageCost.components ∧
        cost.bits.toNat = config.storageCost.bits) ∧
      config.storageCost.bits = (config.storageCost.components.map Prod.snd).sum ∧
      config.storageCost.bits = 2 ^ (config.lineBits.toNat + config.wayBits.toNat) *
        (1 + (if config.writePolicy = .writeBack then 1 else 0) +
          (if config.replacement = .lru then config.wayBits.toNat else 0) +
          (30 - config.blockBits.toNat - config.lineBits.toNat) + 32 * 2 ^ config.blockBits.toNat) ∧
      (config.storageCost.components.map Prod.fst).Nodup ∧
      (.dirty ∈ config.storageCost.components.map Prod.fst ↔ config.writePolicy = .writeBack) ∧
      (.lru ∈ config.storageCost.components.map Prod.fst ↔ config.replacement = .lru)) ∧
      (∀ cache : Cache, cache.Reachable → cache.config.validate = .ok () ∧
        cache.config.storageCost.bits = cache.config.hardwareBits ∧
        cache.statistics.sizeBits = cache.config.hardwareBits) ∧
      (∀ config source cache, Cache.new config source = .ok cache → ∀ operations,
        (cache.run operations).2.1.statistics.sizeBits =
          (operations.foldl Config.after config).hardwareBits) ∧
      ∀ hierarchy : Hierarchy, hierarchy.Reachable →
        (∀ level cache, hierarchy.level? level = some cache → cache.config.validate = .ok ()) ∧
        hierarchy.statistics.levels.map (fun entry => (entry.1, entry.2.sizeBits)) =
          Level.all.filterMap fun level =>
            (hierarchy.level? level).map fun cache => (level, cache.config.hardwareBits) := by
  refine ⟨fun config valid => ?_, fun cache reachable => ?_,
    fun config source cache built operations => ?_, fun hierarchy reachable =>
      ⟨fun level cache found => ?_, reachable.sound.sizeBits_statistics⟩⟩
  · have valid := config.validate_eq_ok_iff.1 valid
    obtain ⟨cost, found, represents⟩ := valid.exists_storageCostInWords
    refine ⟨⟨cost, found, represents.components_eq, ?_⟩, config.storageCost.bits_eq_sum,
      config.bits_storageCost, ?_, ?_, ?_⟩
    · rw [represents.bits_eq, StorageCost.bits_eq_sum]
    · have all : Component.all.Nodup := by decide
      rw [components_storageCost, map_fst_parts]
      exact all.filter _
    · simp [mem_map_fst_components, Component.bitsPerWay]
    · simp [mem_map_fst_components, Component.bitsPerWay]
  · exact ⟨cache.config.validate_eq_ok_iff.2 reachable.sound.geometry, cache.config.bits_storageCost,
      cache.sizeBits_statistics⟩
  · obtain ⟨-, rfl⟩ := Cache.new_eq_ok_iff.1 built
    rw [Cache.sizeBits_statistics, Cache.config_run_eq_foldl]
  · have sound := (reachable.sound.reachable level cache found).sound
    exact cache.config.validate_eq_ok_iff.2 sound.geometry

/-- The largest blocks in 32 ways, a cache that was changed between accesses, and two levels. -/
theorem Config.storage_cost_exact_changed :
    let largest : Config := { blockBits := 30, lineBits := 0, wayBits := 5 }
    let cache := (Cache.run {} [.access 0 .write, .set (.wayBits 1), .set (.wayBits 6),
      .set (.replacement .random), .access 64 .read]).2.1
    let hierarchy := (Hierarchy.run {} [.enable .l1 {}, .enable .l2 { lineBits := 6 },
      .access 0 .write]).2.1
    (largest.storageCost.bits = 1099511628000 ∧ ∃ cost, largest.storageCostInWords? = some cost ∧
      cost.components.map (fun part => (part.1, part.2.toNat)) = largest.storageCost.components ∧
      cost.bits.toNat = largest.storageCost.bits) ∧
      (cache.config.validate = .ok () ∧ cache.statistics.sizeBits = cache.config.hardwareBits ∧
        cache.statistics.sizeBits = 9792) ∧
      (∃ cache, hierarchy.level? .l2 = some cache ∧ cache.config.validate = .ok ()) ∧
      hierarchy.statistics.levels.map (fun entry => (entry.1, entry.2.sizeBits)) =
        [(.l1, 4896), (.l2, 9728)] := by
  intro largest cache hierarchy
  obtain ⟨configs, caches, runs, hierarchies⟩ := storage_cost_exact
  have built : Cache.new {} = .ok {} := rfl
  obtain ⟨words, -, bits, -⟩ := configs largest rfl
  obtain ⟨valid, -, size⟩ := caches cache (Cache.Reachable.run (.new built) _)
  obtain ⟨validLevels, levels⟩ := hierarchies hierarchy (Hierarchy.Reachable.new.run _)
  obtain ⟨second, found⟩ : ∃ cache, hierarchy.level? .l2 = some cache :=
    Hierarchy.isEnabled_eq_true_iff.1 (by decide)
  have changed := runs {} _ {} built [.access 0 .write, .set (.wayBits 1), .set (.wayBits 6),
    .set (.replacement .random), .access 64 .read]
  exact ⟨⟨bits.trans (by decide), words⟩, ⟨valid, size, changed.trans (by decide)⟩,
    ⟨second, found, validLevels .l2 second found⟩, levels.trans (by decide)⟩

end SetAssoc
