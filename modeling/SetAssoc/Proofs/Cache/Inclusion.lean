import SetAssoc.Proofs.Address
import SetAssoc.Proofs.Cache.History
import SetAssoc.Proofs.Cache.RecencyList
import SetAssoc.Proofs.Line.Inclusion

/-!
# A larger cache never does worse

The two caches split an address differently, so their recency lists are compared by block numbers.
With as many lines in both, a list of the small cache is a sublist of one of the large cache.
Otherwise it is shared by several lines of the large cache, and the blocks of each of these are at
its front.
-/

namespace SetAssoc

open scoped List

namespace RecencyLists

def blocks (config : Config) (lists : RecencyLists) (index : Nat) : List Nat :=
  (lists index).map fun tag => tag * config.lines + index

theorem injective_block (config : Config) (index : Nat) :
    Function.Injective fun tag => tag * config.lines + index := by
  intro tag other same
  exact Nat.eq_of_mul_eq_mul_right config.lines_pos (Nat.add_right_cancel same)

theorem mem_blocks_iff (valid : config.Valid) (lists : RecencyLists) (address : UInt32) :
    (config.layout.split (wordAddress address)).tag ∈
        lists (config.layout.split (wordAddress address)).line ↔
      config.layout.blockNumber address ∈
        lists.blocks config (config.layout.blockNumber address % config.lines) := by
  rw [Layout.split_wordAddress valid, blocks]
  have mem := List.mem_map_of_injective
    (injective_block config (config.layout.blockNumber address % config.lines))
    (a := config.layout.blockNumber address / config.lines)
    (l := lists (config.layout.blockNumber address % config.lines))
  rw [Nat.div_add_mod'] at mem
  exact mem.symm

theorem blocks_access (valid : config.Valid) (lists : RecencyLists) (request : Request) (index : Nat) :
    (lists.access config request).blocks config index =
      if config.layout.blockNumber request.address % config.lines = index then
        RecencyList.access config.ways (lists.blocks config index)
          (config.layout.blockNumber request.address)
          (decide (request.kind = .read ∨ config.writeAllocation = .writeAllocate))
      else lists.blocks config index := by
  rw [access, Layout.split_wordAddress valid]
  dsimp only
  split
  · rename_i same
    subst same
    have moved := RecencyList.map_access config.ways
      (lists (config.layout.blockNumber request.address % config.lines))
      (config.layout.blockNumber request.address / config.lines)
      (decide (request.kind = .read ∨ config.writeAllocation = .writeAllocate))
      (injective_block config (config.layout.blockNumber request.address % config.lines))
    rw [Nat.div_add_mod'] at moved
    rw [blocks, Function.update_self]
    exact moved
  · rename_i distinct
    rw [blocks, Function.update_of_ne (Ne.symm distinct)]
    rfl

/-! ## Relations between the lists of two caches -/

/-- A relation between recency lists that accesses keep and that puts the blocks of the small cache
into the large one. -/
structure Simulation (small large : Config) (permits : Request → Prop)
    (related : RecencyLists → RecencyLists → Prop) : Prop where
  start : related (fun _ => []) fun _ => []
  step : ∀ {lists others} request, permits request → related lists others →
    related (lists.access small request) (others.access large request)
  covers : ∀ {lists others}, related lists others → ∀ block,
    block ∈ lists.blocks small (block % small.lines) → block ∈ others.blocks large (block % large.lines)

section

variable {small large : Config} (smallValid : small.Valid) (largeValid : large.Valid)
  (blockBits : small.blockBits = large.blockBits)
  (allocation : small.writeAllocation = large.writeAllocation) (ways : small.ways ≤ large.ways)

include smallValid largeValid blockBits allocation ways

theorem nested_simulation (lines : small.lines = large.lines) :
    Simulation small large (fun _ => True) fun lists others =>
      ∀ index, RecencyList.Nested small.ways (lists.blocks small index) (others.blocks large index) where
  start index := ⟨List.Sublist.refl _, fun _ => rfl⟩
  step {lists others} request _ nested index := by
    rw [blocks_access smallValid, blocks_access largeValid,
      Layout.blockNumber_congr blockBits, lines, allocation]
    split
    · exact (nested index).access small.ways_pos ways _ _
    · exact nested index
  covers {lists others} nested block mem := by
    rw [← lines]
    exact (nested _).sublist.subset mem

theorem front_simulation (lines : small.lines ∣ large.lines) :
    Simulation small large
      (fun request => request.kind = .read ∨ small.writeAllocation = .writeAllocate)
      fun lists others => ∀ index,
        (lists.blocks small index).length ≤ small.ways ∧
        (lists.blocks small (index % small.lines)).filter (· % large.lines == index) <+:
          others.blocks large index where
  start index := ⟨Nat.zero_le _, List.prefix_refl _⟩
  step {lists others} request loads related index := by
    have loads := decide_eq_true loads
    have loadsLarge := allocation ▸ loads
    rw [blocks_access smallValid, blocks_access smallValid,
      blocks_access largeValid, Layout.blockNumber_congr blockBits, loads, loadsLarge]
    obtain ⟨bounded, front⟩ := related index
    constructor
    · split
      · exact RecencyList.length_access_le small.ways_pos bounded
      · exact bounded
    by_cases here : large.layout.blockNumber request.address % large.lines = index
    · have shared : large.layout.blockNumber request.address % small.lines = index % small.lines := by
        rw [← here, Nat.mod_mod_of_dvd _ lines]
      rw [if_pos shared, if_pos here]
      exact RecencyList.filter_access_prefix front (by simpa using here) small.ways_pos ways
        (related _).1
    · rw [if_neg here]
      split
      · exact (RecencyList.filter_access_prefix_of_other (by simpa using here)).trans front
      · exact front
  covers {lists others} related block mem := by
    apply (related (block % large.lines)).2.subset
    rw [List.mem_filter, Nat.mod_mod_of_dvd _ lines]
    exact ⟨mem, by simp⟩

end

end RecencyLists

namespace Cache

/-! ## From lists to caches -/

structure Lists (cache : Cache) (config : Config) (lists : RecencyLists) : Prop where
  sound : cache.Sound
  config_eq : cache.config = config
  lru : config.replacement = .lru
  listed : ∀ index, Ways.Listed (cache.way index) (lists index)

namespace Lists

variable {cache : Cache} {config : Config} {lists : RecencyLists}

theorem access (known : cache.Lists config lists) (request : Request) :
    (cache.access request.address request.kind).2.Lists config (lists.access config request) := by
  obtain ⟨sound, rfl, lru, listed⟩ := known
  exact ⟨sound.access request.address request.kind, rfl, lru, sound.listed_access lru listed request⟩

theorem contains_iff (known : cache.Lists config lists) (address : UInt32) :
    cache.contains address = true ↔ config.layout.blockNumber address ∈
      lists.blocks config (config.layout.blockNumber address % config.lines) := by
  obtain ⟨sound, rfl, -, listed⟩ := known
  rw [Cache.contains_iff, ← (listed _).mem_iff, sound.location_eq]
  exact RecencyLists.mem_blocks_iff sound.geometry lists address

end Lists

theorem lists_new {config : Config} {source : RandomSource} {cache : Cache}
    (built : Cache.new config source = .ok cache) (lru : config.replacement = .lru) :
    cache.Lists config fun _ => [] := by
  have sound := sound_new built
  obtain ⟨-, rfl⟩ := new_eq_ok_iff.1 built
  refine ⟨sound, rfl, lru, fun index => ?_⟩
  rw [way_of_empty rfl]
  exact Ways.listed_empty

abbrev HitsInclude (transactions others : List Transaction) : Prop :=
  List.Forall₂ (fun t u => t.isHit = true → u.isHit = true) transactions others

theorem HitsInclude.countP_le {transactions others : List Transaction}
    (included : HitsInclude transactions others) :
    transactions.countP (·.isHit) ≤ others.countP (·.isHit) := by
  induction included with
  | nil => exact Nat.le_refl _
  | @cons t u _ _ implies _ ih =>
      rw [countP_cons_toNat, countP_cons_toNat]
      apply Nat.add_le_add ih
      cases hit : t.isHit with
      | false => exact Nat.zero_le _
      | true => rw [implies hit]

section

variable {small large : Config} {permits : Request → Prop}
  {related : RecencyLists → RecencyLists → Prop} {less more : Cache} {lists others : RecencyLists}
  (simulation : RecencyLists.Simulation small large permits related)
  (blockBits : small.blockBits = large.blockBits)

include simulation blockBits

theorem contains_of_simulation (known : less.Lists small lists) (knownMore : more.Lists large others)
    (relation : related lists others) (address : UInt32) (contained : less.contains address = true) :
    more.contains address = true := by
  rw [known.contains_iff, Layout.blockNumber_congr blockBits] at contained
  rw [knownMore.contains_iff]
  exact simulation.covers relation _ contained

theorem included_accessAll (known : less.Lists small lists) (knownMore : more.Lists large others)
    (relation : related lists others) {requests : List Request}
    (permitted : ∀ request ∈ requests, permits request) :
    HitsInclude (less.accessAll requests).1 (more.accessAll requests).1 ∧
      ∀ address, (less.accessAll requests).2.contains address = true →
        (more.accessAll requests).2.contains address = true := by
  induction requests generalizing less more lists others with
  | nil =>
      exact ⟨.nil, contains_of_simulation simulation blockBits known knownMore relation⟩
  | cons request rest ih =>
      obtain ⟨here, later⟩ := List.forall_mem_cons.1 permitted
      obtain ⟨hits, contains⟩ := ih (known.access request) (knownMore.access request)
        (simulation.step request here relation) later
      have first : (less.access request.address request.kind).1.isHit = true →
          (more.access request.address request.kind).1.isHit = true := by
        rw [known.sound.isHit_iff_contains, knownMore.sound.isHit_iff_contains]
        exact contains_of_simulation simulation blockBits known knownMore relation request.address
      exact ⟨.cons first hits, contains⟩

end

theorem exists_simulation {small large : Config} (smallValid : small.Valid) (largeValid : large.Valid)
    (blockBits : small.blockBits = large.blockBits)
    (allocation : small.writeAllocation = large.writeAllocation)
    (lineBits : small.lineBits ≤ large.lineBits) (wayBits : small.wayBits ≤ large.wayBits)
    {requests : List Request}
    (allocating : small.lineBits ≠ large.lineBits →
      small.writeAllocation = .writeAllocate ∨ ∀ request ∈ requests, request.kind = .read) :
    ∃ permits related, RecencyLists.Simulation small large permits related ∧
      ∀ request ∈ requests, permits request := by
  have ways : small.ways ≤ large.ways := by
    rw [Config.ways, Config.ways, Nat.one_shiftLeft, Nat.one_shiftLeft]
    exact Nat.pow_le_pow_right (by decide) (UInt32.le_iff_toNat_le.1 wayBits)
  by_cases same : small.lineBits = large.lineBits
  · have lines : small.lines = large.lines := by rw [Config.lines, Config.lines, same]
    exact ⟨_, _, RecencyLists.nested_simulation smallValid largeValid blockBits allocation ways lines,
      fun _ _ => trivial⟩
  · have lines : small.lines ∣ large.lines := by
      rw [Config.lines, Config.lines, Nat.one_shiftLeft, Nat.one_shiftLeft]
      exact Nat.pow_dvd_pow 2 (UInt32.le_iff_toNat_le.1 lineBits)
    refine ⟨_, _, RecencyLists.front_simulation smallValid largeValid blockBits allocation ways lines, ?_⟩
    intro request mem
    exact (allocating same).symm.imp_left fun reads => reads request mem

theorem Told.hits_accessAll {cache : Cache} (told : cache.Told []) (requests : List Request) :
    (cache.accessAll requests).2.counters.latest.hits =
      (cache.accessAll requests).1.countP (·.isHit) := by
  have final := told.accessAll requests
  rw [List.append_nil] at final
  rw [final.counters_eq, CounterLog.latest_ofLog, Counters.ofLog_reverse]
  rfl

/-- Of two caches with least recently used replacement and blocks of one size, the one with at least
as many lines and ways contains what the other contains, after every access of a run, and hits
whenever the other hits. The write policies do not matter; if the numbers of lines differ, every
access has to allocate. -/
theorem larger_never_worse {small large : Config} (smallValid : small.Valid) (largeValid : large.Valid)
    (smallLru : small.replacement = .lru) (largeLru : large.replacement = .lru)
    (blockBits : small.blockBits = large.blockBits)
    (allocation : small.writeAllocation = large.writeAllocation)
    (lineBits : small.lineBits ≤ large.lineBits) (wayBits : small.wayBits ≤ large.wayBits)
    (source otherSource : RandomSource) :
    ∃ less more, Cache.new small source = .ok less ∧ Cache.new large otherSource = .ok more ∧
      ∀ requests : List Request,
        (small.lineBits ≠ large.lineBits →
          small.writeAllocation = .writeAllocate ∨ ∀ request ∈ requests, request.kind = .read) →
        HitsInclude (less.accessAll requests).1 (more.accessAll requests).1 ∧
        ∀ count,
          let less := (less.accessAll (requests.take count)).2
          let more := (more.accessAll (requests.take count)).2
          (∀ address, less.contains address = true → more.contains address = true) ∧
            less.counters.latest.hits ≤ more.counters.latest.hits := by
  have built : Cache.new small source = .ok { config := small, source } :=
    new_eq_ok_iff.2 ⟨smallValid, rfl⟩
  have builtMore : Cache.new large otherSource = .ok { config := large, source := otherSource } :=
    new_eq_ok_iff.2 ⟨largeValid, rfl⟩
  refine ⟨_, _, built, builtMore, fun requests allocating => ?_⟩
  obtain ⟨permits, related, simulation, permitted⟩ := exists_simulation smallValid largeValid
    blockBits allocation lineBits wayBits allocating
  have included {requests : List Request} (permitted : ∀ request ∈ requests, permits request) :=
    included_accessAll simulation blockBits (lists_new built smallLru) (lists_new builtMore largeLru)
      simulation.start permitted
  refine ⟨(included permitted).1, fun count => ?_⟩
  obtain ⟨hits, contains⟩ := included fun request mem => permitted request (List.mem_of_mem_take mem)
  refine ⟨contains, ?_⟩
  rw [(told_new built).hits_accessAll, (told_new builtMore).hits_accessAll]
  exact hits.countP_le

/-- One line of two ways that writes through, and two lines of four ways that write back. -/
theorem larger_never_worse_two_lines :
    let small : Config :=
      { blockBits := 1, lineBits := 0, wayBits := 1, writePolicy := .writeThrough }
    let large : Config := { blockBits := 1, lineBits := 1, wayBits := 2 }
    let requests : List Request :=
      [⟨.write, 0⟩, ⟨.read, 8⟩, ⟨.read, 4⟩, ⟨.write, 16⟩, ⟨.read, 8⟩, ⟨.read, 20⟩]
    ((small.Valid ∧ large.Valid ∧ small.replacement = .lru ∧ large.replacement = .lru) ∧
      small.blockBits = large.blockBits ∧ small.writeAllocation = large.writeAllocation ∧
      small.lineBits ≤ large.lineBits ∧ small.wayBits ≤ large.wayBits ∧
      (small.lineBits ≠ large.lineBits →
        small.writeAllocation = .writeAllocate ∨ ∀ request ∈ requests, request.kind = .read)) ∧
      ∃ less more, Cache.new small = .ok less ∧ Cache.new large = .ok more ∧
        HitsInclude (less.accessAll requests).1 (more.accessAll requests).1 ∧
        ∀ count,
          let less := (less.accessAll (requests.take count)).2
          let more := (more.accessAll (requests.take count)).2
          (∀ address, less.contains address = true → more.contains address = true) ∧
            less.counters.latest.hits ≤ more.counters.latest.hits := by
  intro small large requests
  have valid : small.Valid ∧ large.Valid := by decide
  have lineBits : small.lineBits ≤ large.lineBits := by decide
  have wayBits : small.wayBits ≤ large.wayBits := by decide
  obtain ⟨less, more, built, builtMore, run⟩ :=
    larger_never_worse valid.1 valid.2 rfl rfl rfl rfl lineBits wayBits default default
  exact ⟨⟨⟨valid.1, valid.2, rfl, rfl⟩, rfl, rfl, lineBits, wayBits, fun _ => Or.inl rfl⟩,
    less, more, built, builtMore, run requests fun _ => Or.inl rfl⟩

end Cache

end SetAssoc
