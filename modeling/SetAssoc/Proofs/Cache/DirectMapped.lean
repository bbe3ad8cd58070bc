import SetAssoc.Proofs.Cache.LogContents
import SetAssoc.Proofs.Cache.RecencyList
import SetAssoc.Proofs.Line.DirectMapped

/-!
# Direct-mapped caches

With one way per line the replacement policy decides nothing. `Cache.asRandom` is the cache as it
would be under random replacement, and operations can be carried out before or after passing to it.
-/

namespace SetAssoc

theorem Config.ways_of_direct {config : Config} (direct : config.wayBits = 0) : config.ways = 1 := by
  rw [ways, direct]
  rfl

def UndoRecord.asRandom (record : UndoRecord) : UndoRecord :=
  { record with previous := record.previous.asRandom }

theorem Transaction.ofPlacement_asRandom (config : Config) (layout : Layout) (address : UInt32)
    (kind : AccessKind) (placement : Option Placement) :
    ofPlacement config.asRandom layout address kind (placement.map Placement.asRandom) =
      ofPlacement config layout address kind placement := by
  cases placement <;> rfl

namespace Cache

def asRandom (cache : Cache) (source : RandomSource) : Cache :=
  { cache with
    config := cache.config.asRandom
    lines := cache.lines.map fun _ => Line.asRandom
    undoStack := cache.undoStack.map UndoRecord.asRandom
    source }

variable {cache : Cache} (source : RandomSource)

theorem lines_asRandom : (cache.asRandom source).lines = cache.lines.map fun _ => Line.asRandom := rfl

theorem line_asRandom (index : Nat) :
    (cache.asRandom source).line index = (cache.line index).asRandom := by
  rw [line, line, lines_asRandom, Std.ExtTreeMap.getElem?_map]
  cases cache.lines[index]? with
  | none => exact map_empty.symm
  | some _ => rfl

theorem way_asRandom (index i : Nat) :
    (cache.asRandom source).way index i = (cache.way index i).asRandom := by
  rw [way, way, line_asRandom, Line.way_asRandom]

/-! ## Accesses and undos -/

section

variable (single : cache.config.ways = 1) (address : UInt32) (kind : AccessKind)

include single

theorem placement?_asRandom : (cache.asRandom source).placement? address kind =
    (cache.placement? address kind).map Placement.asRandom := by
  rw [placement?, line_asRandom]
  exact Config.place_asRandom _ single _ _ _ _

theorem transaction_asRandom :
    ((cache.asRandom source).access address kind).1 = (cache.access address kind).1 := by
  rw [transaction_access, transaction_access, placement?_asRandom source single]
  exact Transaction.ofPlacement_asRandom _ _ _ _ _

theorem lines_access_asRandom : ((cache.asRandom source).access address kind).2.lines =
    (cache.access address kind).2.lines.map fun _ => Line.asRandom := by
  rw [lines_access, lines_access, placement?_asRandom source single]
  cases cache.placement? address kind with
  | none => rfl
  | some placement =>
      rw [map_insert, ← Placement.settle_asRandom]
      rfl

theorem undoStack_access_asRandom : ((cache.asRandom source).access address kind).2.undoStack =
    (cache.access address kind).2.undoStack.map UndoRecord.asRandom := by
  have previous :
      (((cache.asRandom source).placement? address kind).map Placement.previous).getD .empty =
        (((cache.placement? address kind).map Placement.previous).getD .empty).asRandom := by
    rw [placement?_asRandom source single]
    cases cache.placement? address kind <;> rfl
  rw [undoStack_access, undoStack_access, transaction_asRandom source single, previous, List.map_take]
  rfl

theorem asRandom_access : ∃ next, (cache.asRandom source).access address kind =
    ((cache.access address kind).1, (cache.access address kind).2.asRandom next) := by
  have transaction := transaction_asRandom source single address kind
  refine ⟨((cache.asRandom source).access address kind).2.source, Prod.ext transaction ?_⟩
  apply Cache.ext
  · rfl
  · rfl
  · exact lines_access_asRandom source single address kind
  · rw [counters_access, transaction]
    rfl
  · exact undoStack_access_asRandom source single address kind
  · rfl
  · rfl
  · rfl

end

theorem asRandom_undo : (cache.asRandom source).undo = (cache.undo.1, cache.undo.2.asRandom source) := by
  have pending : (cache.asRandom source).undoStack = cache.undoStack.map UndoRecord.asRandom := rfl
  rw [undo, undo, pending]
  cases cache.undoStack with
  | nil => rfl
  | cons record records =>
      obtain ⟨transaction, before⟩ := record
      refine Prod.ext rfl (Cache.ext rfl rfl ?_ rfl rfl rfl rfl rfl)
      simp only [List.map_cons, UndoRecord.asRandom]
      cases transaction.way with
      | none => rfl
      | some way =>
          refine (map_alter fun line => ?_).symm
          exact (Config.restore_asRandom line way before).symm

/-! ## Operations and runs -/

theorem asRandom_setUndoDepth (depth : Nat) :
    (cache.asRandom source).setUndoDepth depth = (cache.setUndoDepth depth).asRandom source := by
  simp [setUndoDepth, asRandom, List.map_take]

theorem asRandom_reset : (cache.asRandom source).reset = cache.reset.asRandom source := by
  simp only [reset, asRandom, map_empty]
  rfl

theorem asRandom_perform (single : cache.config.ways = 1) {operation : Operation}
    (keeps : ∀ setting, operation ≠ .set setting) :
    ∃ next, (cache.asRandom source).perform operation =
      ((cache.perform operation).1, (cache.perform operation).2.asRandom next) := by
  cases operation with
  | access address kind =>
      obtain ⟨next, accessed⟩ := asRandom_access source single address kind
      exact ⟨next, by simp only [perform_access, accessed]⟩
  | undo => exact ⟨source, by simp only [perform_undo, asRandom_undo]⟩
  | setUndoDepth depth => exact ⟨source, by simp only [perform_setUndoDepth, asRandom_setUndoDepth]⟩
  | reset => exact ⟨source, by simp only [perform_reset, asRandom_reset]⟩
  | set setting => exact absurd rfl (keeps setting)
  | subscribe observer => exact ⟨source, rfl⟩

theorem config_perform {operation : Operation} (keeps : ∀ setting, operation ≠ .set setting) :
    (cache.perform operation).2.config = cache.config := by
  cases operation with
  | undo => exact (congrArg (·.2.config) cache.perform_undo).trans config_undo
  | set setting => exact absurd rfl (keeps setting)
  | access | setUndoDepth | reset | subscribe => rfl

theorem config_run {operations : List Operation}
    (keeps : ∀ operation ∈ operations, ∀ setting, operation ≠ .set setting) :
    (cache.run operations).2.1.config = cache.config := by
  induction operations generalizing cache with
  | nil => rfl
  | cons operation rest ih =>
      obtain ⟨keepsHere, keeps⟩ := List.forall_mem_cons.1 keeps
      exact (ih keeps).trans (config_perform keepsHere)

theorem asRandom_run (single : cache.config.ways = 1) {operations : List Operation}
    (keeps : ∀ operation ∈ operations, ∀ setting, operation ≠ .set setting) :
    ∃ next, ((cache.asRandom source).run operations).1 = (cache.run operations).1 ∧
      ((cache.asRandom source).run operations).2.1 = (cache.run operations).2.1.asRandom next := by
  induction operations generalizing cache source with
  | nil => exact ⟨source, rfl, rfl⟩
  | cons operation rest ih =>
      obtain ⟨keepsHere, keeps⟩ := List.forall_mem_cons.1 keeps
      obtain ⟨middle, performed⟩ := asRandom_perform source single keepsHere
      have reply : ((cache.asRandom source).step operation).reply = (cache.step operation).reply :=
        congrArg Prod.fst performed
      have after : ((cache.asRandom source).step operation).cache =
          (cache.step operation).cache.asRandom middle := congrArg Prod.snd performed
      have single : (cache.step operation).cache.config.ways = 1 :=
        (congrArg Config.ways (config_perform keepsHere)).trans single
      obtain ⟨next, replies, final⟩ := ih middle single keeps
      refine ⟨next, ?_, ?_⟩
      · simp only [run, reply, after, replies]
      · simp only [run, after, final]

end Cache

/-! ## What hits -/

def newestPlaced? (log : List Transaction) (line : Nat) : Option Transaction :=
  log.find? fun transaction => transaction.location.line == line && transaction.way.isSome

def PlacedNewest (log : List Transaction) (line tag : Nat) : Prop :=
  ∃ newest, newestPlaced? log line = some newest ∧ newest.location.tag = tag

section

variable {config : Config} {transaction : Transaction} {older log : List Transaction} {line tag : Nat}

theorem placedNewest_cons_of_uses {way : Nat} (uses : transaction.Uses line way) :
    PlacedNewest (transaction :: older) line tag ↔ transaction.location.tag = tag := by
  have newest : newestPlaced? (transaction :: older) line = some transaction :=
    List.find?_cons_of_pos (by simp [uses.1, uses.2])
  simp [PlacedNewest, newest]

theorem placedNewest_cons_of_not_uses (unused : ∀ way, ¬ transaction.Uses line way) :
    PlacedNewest (transaction :: older) line tag ↔ PlacedNewest older line tag := by
  have newest : newestPlaced? (transaction :: older) line = newestPlaced? older line := by
    apply List.find?_cons_of_neg
    rw [Bool.and_eq_true, beq_iff_eq, Option.isSome_iff_exists]
    rintro ⟨same, way, resolved⟩
    exact unused way ⟨same, resolved⟩
  rw [PlacedNewest, newest, PlacedNewest]

theorem Logged.holds_iff_placedNewest (single : config.ways = 1) (logged : Logged config log)
    (sound : (Contents.ofLog config log).Sound config) (line tag : Nat) :
    (∃ i, (Contents.ofLog config log line i).holds tag = true) ↔ PlacedNewest log line tag := by
  induction logged with
  | nil => simp [Contents.ofLog, Way.holds, Way.empty, PlacedNewest, newestPlaced?]
  | @cons transaction older logged before follows ih =>
      by_cases used : ∃ way, transaction.Uses line way
      · obtain ⟨way, uses⟩ := used
        have held := follows.holds_record uses
        rw [placedNewest_cons_of_uses uses]
        constructor
        · rintro ⟨i, holds⟩
          -- both ways are way 0
          have bound := (sound line).index_lt (Way.holds_iff.1 holds).1
          have boundUsed := (sound line).index_lt (Way.holds_iff.1 held).1
          obtain rfl : way = i := by omega
          exact (Way.holds_iff.1 held).2.symm.trans (Way.holds_iff.1 holds).2
        · rintro rfl
          exact ⟨way, held⟩
      · have unused := not_exists.1 used
        rw [placedNewest_cons_of_not_uses unused, ← ih before]
        refine exists_congr fun i => ?_
        rw [Way.holds_iff, Way.holds_iff, Contents.ofLog, Contents.record_of_not_uses (unused i)]

end

namespace Cache

/-- An access hits just if the newest access that placed a block in its line placed the same one. -/
def HitsNewest (cache : Cache) (log : List Transaction) : Prop :=
  ∀ address kind,
    let transaction := (cache.access address kind).1
    transaction.isHit = true ↔
      PlacedNewest log transaction.location.line transaction.location.tag

theorem Told.hitsNewest {cache : Cache} {log : List Transaction} (told : cache.Told log)
    (single : cache.config.ways = 1) : cache.HitsNewest log := by
  intro address kind
  have sound := told.sound.rewindable.sound
  rw [told.way_eq] at sound
  refine (told.sound.isHit_access address kind).trans ?_
  rw [told.way_eq]
  exact told.logged.holds_iff_placedNewest single sound _ _

/-! ## Two replacement policies -/

structure SameBlocks (cache other : Cache) : Prop where
  entries_eq : cache.counters.entries = other.counters.entries
  undoAvailable_eq : cache.undoAvailable = other.undoAvailable
  mem_lines_iff : ∀ index, index ∈ cache.lines ↔ index ∈ other.lines
  mem_line_iff : ∀ index i, i ∈ cache.line index ↔ i ∈ other.line index
  tag_eq : ∀ index i, (cache.way index i).tag = (other.way index i).tag
  valid_eq : ∀ index i, (cache.way index i).valid = (other.way index i).valid
  dirty_eq : ∀ index i, (cache.way index i).dirty = (other.way index i).dirty
  dirtyBlocks_eq : ∀ index i, (cache.way index i).dirtyBlocks = (other.way index i).dirtyBlocks

theorem sameBlocks_asRandom (cache : Cache) (source : RandomSource) :
    cache.SameBlocks (cache.asRandom source) where
  entries_eq := rfl
  undoAvailable_eq := (List.length_map _).symm
  mem_lines_iff index := by rw [lines_asRandom, Std.ExtTreeMap.mem_map]
  mem_line_iff index i := by rw [line_asRandom, Line.mem_asRandom]
  tag_eq index i := by rw [way_asRandom]; rfl
  valid_eq index i := by rw [way_asRandom]; rfl
  dirty_eq index i := by rw [way_asRandom]; rfl
  dirtyBlocks_eq index i := by rw [way_asRandom]; rfl

/-- Direct-mapped caches that were built alike but for their replacement policies and sources do the
same while their configurations are kept, and hit as the newest surviving accesses tell. -/
theorem direct_mapped_run {config : Config} {cache other : Cache} {source sourceOther : RandomSource}
    (direct : config.wayBits = 0)
    (built : Cache.new { config with replacement := .lru } source = .ok cache)
    (builtOther : Cache.new { config with replacement := .random } sourceOther = .ok other)
    {operations : List Operation}
    (keeps : ∀ operation ∈ operations, ∀ setting, operation ≠ .set setting) :
    (cache.run operations).1 = (other.run operations).1 ∧
      (cache.run operations).2.1.SameBlocks (other.run operations).2.1 ∧
      (cache.run operations).2.1.HitsNewest (logOf (cache.run operations).1) ∧
      (other.run operations).2.1.HitsNewest (logOf (other.run operations).1) := by
  have told := (told_new built).run operations
  have toldOther := (told_new builtOther).run operations
  have random : cache.asRandom sourceOther = other := by
    obtain ⟨-, rfl⟩ := new_eq_ok_iff.1 built
    obtain ⟨-, rfl⟩ := new_eq_ok_iff.1 builtOther
    simp only [asRandom, map_empty]
    rfl
  have single : cache.config.ways = 1 := by
    obtain ⟨-, rfl⟩ := new_eq_ok_iff.1 built
    exact Config.ways_of_direct direct
  obtain ⟨next, replies, after⟩ := asRandom_run sourceOther single keeps
  rw [random] at replies after
  refine ⟨replies.symm, ?_, told.hitsNewest ?_, toldOther.hitsNewest ?_⟩
  · rw [after]
    exact sameBlocks_asRandom _ next
  · rw [config_run keeps]
    exact single
  · rw [config_run keeps, ← random]
    exact single

/-- Two lines of one way. A written block is evicted and comes back with an undo, the history is
cut, and a block of the other line is accessed in between. -/
theorem direct_mapped_run_two_lines :
    let config : Config := { blockBits := 0, lineBits := 1, wayBits := 0, replacement := .lru }
    let operations : List Operation := [.access 0 .write, .access 8 .read, .undo, .access 4 .write,
      .setUndoDepth 1, .access 0 .read, .access 8 .write, .reset, .access 12 .read]
    let cache : Cache := { config, source := .ofList [] }
    let other : Cache :=
      { config := { config with replacement := .random }, source := .ofList [1, 4294967295] }
    (config.wayBits = 0 ∧ Cache.new config (.ofList []) = .ok cache ∧
        Cache.new { config with replacement := .random } (.ofList [1, 4294967295]) = .ok other ∧
        ∀ operation ∈ operations, ∀ setting, operation ≠ .set setting) ∧
      (cache.run operations).1 = (other.run operations).1 ∧
      (cache.run operations).2.1.SameBlocks (other.run operations).2.1 ∧
      (cache.run operations).2.1.HitsNewest (logOf (cache.run operations).1) ∧
      (other.run operations).2.1.HitsNewest (logOf (other.run operations).1) := by
  intro config operations cache other
  have built : Cache.new config (.ofList []) = .ok cache := rfl
  have builtOther : Cache.new { config with replacement := .random } (.ofList [1, 4294967295]) =
    .ok other := rfl
  have keeps : ∀ operation ∈ operations, ∀ setting, operation ≠ .set setting := by
    simp [operations]
  have direct : config.wayBits = 0 := rfl
  exact ⟨⟨direct, built, builtOther, keeps⟩, direct_mapped_run direct built builtOther keeps⟩

end Cache

end SetAssoc
