import SetAssoc.Proofs.Cache.Draws
import SetAssoc.Proofs.Cache.RecencyList
import SetAssoc.Proofs.Cache.WellFormed

/-!
# The effect of one access

An access changes the line of its address and no other one. In that line it changes the way that it
uses, and under least recently used replacement the ranks of other ways.
-/

namespace SetAssoc

open Function (update update_self update_of_ne)

theorem AccessKind.isWrite_iff {kind : AccessKind} : kind.isWrite = true ↔ kind = .write := by
  cases kind <;> decide

namespace Cache

variable {cache : Cache} {address : UInt32} {kind : AccessKind}

def HeldIn (cache : Cache) (address : UInt32) (line way : Nat) : Prop :=
  (cache.location address).line = line ∧
    (cache.way line way).holds (cache.location address).tag = true

def Loses (cache : Cache) (transaction : Transaction) (address : UInt32) : Prop :=
  transaction.tagChanged = true ∧
    ∃ way, transaction.way = some way ∧ cache.HeldIn address transaction.location.line way

namespace Sound

theorem tagChanged_of_used (sound : cache.Sound) {way : Nat}
    (used : (cache.access address kind).1.way = some way) :
    (cache.access address kind).1.tagChanged = !(cache.access address kind).1.isHit := by
  rw [(sound.follows_access address kind).tagChanged_eq, used]
  rfl

theorem valid_tag_access (sound : cache.Sound) {way : Nat}
    (used : (cache.access address kind).1.way = some way) :
    let after := (cache.access address kind).2.way (cache.location address).line way
    after.valid = true ∧ after.tag = (cache.location address).tag := by
  have uses : (cache.access address kind).1.Uses (cache.location address).line way := ⟨rfl, used⟩
  have held := (sound.follows_access address kind).holds_record uses
  rw [← sound.way_access] at held
  exact Way.holds_iff.1 held

theorem holds_access (sound : cache.Sound) (address : UInt32) (kind : AccessKind) (line way tag : Nat) :
    ((cache.access address kind).2.way line way).holds tag = true ↔
      if line = (cache.location address).line ∧ (cache.access address kind).1.way = some way then
        tag = (cache.location address).tag
      else (cache.way line way).holds tag = true := by
  by_cases uses : line = (cache.location address).line ∧ (cache.access address kind).1.way = some way
  · obtain ⟨rfl, used⟩ := uses
    obtain ⟨valid, held⟩ := sound.valid_tag_access used
    rw [if_pos ⟨rfl, used⟩, Way.holds_iff, valid, held]
    simp [eq_comm]
  · have unused : ¬ (cache.access address kind).1.Uses line way := fun used => uses ⟨used.1.symm, used.2⟩
    rw [if_neg uses, sound.way_access, Contents.record_of_not_uses unused]
    rfl

theorem contains_access (sound : cache.Sound) (address : UInt32) (kind : AccessKind) (other : UInt32) :
    (cache.access address kind).2.contains other = true ↔
      (cache.access address kind).1.way ≠ none ∧
          cache.layout.blockNumber other = cache.layout.blockNumber address ∨
        cache.contains other = true ∧ ¬ cache.Loses (cache.access address kind).1 other := by
  have location : (cache.access address kind).2.location other = cache.location other := rfl
  have follows := sound.follows_access address kind
  rw [contains_iff, contains_iff, location, sound.layout_eq,
    Layout.blockNumber_eq_iff sound.geometry, ← sound.location_eq, ← sound.location_eq]
  simp only [sound.holds_access]
  constructor
  · rintro ⟨i, holds⟩
    split at holds
    · rename_i uses
      exact .inl ⟨by simp [uses.2], uses.1, holds⟩
    · rename_i unused
      refine .inr ⟨⟨i, holds⟩, ?_⟩
      rintro ⟨-, way, used, line, held⟩
      -- a block is in one way only, and this one is in a way that was not used
      rw [← line] at held
      have same := (sound.line (cache.location other).line).eq_of_holds holds held
      exact unused ⟨line, same ▸ used⟩
  · rintro (⟨used, line, tag⟩ | ⟨⟨i, holds⟩, kept⟩)
    · obtain ⟨way, used⟩ := Option.ne_none_iff_exists'.1 used
      exact ⟨way, by rw [if_pos ⟨line, used⟩]; exact tag⟩
    · refine ⟨i, ?_⟩
      split
      · rename_i uses
        obtain ⟨line, used⟩ := uses
        by_contra other
        apply kept
        refine ⟨?_, i, used, line, line ▸ holds⟩
        rw [sound.tagChanged_of_used used]
        cases hit : (cache.access address kind).1.isHit with
        | false => rfl
        | true =>
            have held := follows.holds_of_hit ⟨rfl, used⟩ hit
            rw [line] at holds
            exact absurd ((Way.holds_iff.1 holds).2.symm.trans (Way.holds_iff.1 held).2) other
      · exact holds

end Sound

/-! ## Everything that an access does -/

/-- What the transaction of an access tells of it, and what the cache is after it. -/
structure Effect (cache : Cache) (address : UInt32) (kind : AccessKind) (t : Transaction)
    (after : Cache) : Prop where
  address_eq : t.address = wordAddress address
  kind_eq : t.kind = kind
  location_eq : t.location = cache.config.layout.split (wordAddress address)
  isHit_iff : t.isHit = true ↔ cache.contains address = true
  hit : t.isHit = true → t.becameValid = false ∧ t.tagChanged = false ∧
    ∃ way, t.way = some way ∧
      ∀ i, (cache.way t.location.line i).holds t.location.tag = true ↔ i = way
  bypass : t.isHit = false → kind = .write → cache.config.writeAllocation = .noWriteAllocate →
    t.way = none ∧ t.isWriteback = true ∧ t.becameValid = false ∧ t.tagChanged = false ∧
      after.lines = cache.lines
  fill : t.isHit = false → kind = .read ∨ cache.config.writeAllocation = .writeAllocate →
    t.tagChanged = true ∧ ∃ way, t.way = some way ∧ way < cache.config.ways ∧
      (t.becameValid = true ↔ (cache.way t.location.line way).valid = false) ∧
      ((cache.way t.location.line way).valid = true →
        (cache.way t.location.line way).tag ≠ t.location.tag)
  isWriteback_iff : ∀ way, t.way = some way →
    (t.isWriteback = true ↔ kind = .write ∧ cache.config.writePolicy = .writeThrough ∨
      t.tagChanged = true ∧ (cache.way t.location.line way).dirty = true)
  other_lines : ∀ index, index ≠ t.location.line → after.lines[index]? = cache.lines[index]?
  other_ways : ∀ i, t.way ≠ some i →
    let before := cache.way t.location.line i
    ∃ rank, after.way t.location.line i = { before with rank } ∧
      (rank = before.rank ∨
        cache.config.replacement = .lru ∧ before.valid = true ∧ rank = before.rank + 1)
  used_way : ∀ way, t.way = some way →
    let before := cache.way t.location.line way
    let held := after.way t.location.line way
    held.valid = true ∧ held.tag = t.location.tag ∧
      (∀ block, block ∈ held.dirtyBlocks ↔
        kind = .write ∧ cache.config.writePolicy = .writeBack ∧ block = t.location.block ∨
          t.isHit = true ∧ block ∈ before.dirtyBlocks) ∧
      (held.dirty = true ↔ kind = .write ∧ cache.config.writePolicy = .writeBack ∨
        t.isHit = true ∧ before.dirty = true) ∧
      held.rank = if cache.config.replacement = .lru then 0 else Way.unranked
  contains_iff : ∀ other, after.contains other = true ↔
    t.way ≠ none ∧ cache.layout.blockNumber other = cache.layout.blockNumber address ∨
      cache.contains other = true ∧ ¬ cache.Loses t other
  counters_eq : after.counters = cache.counters.push t
  config_eq : after.config = cache.config
  layout_eq : after.layout = cache.layout
  undoDepth_eq : after.undoDepth = cache.undoDepth
  observers_eq : after.observers = cache.observers

namespace Sound

theorem becameValid_iff (sound : cache.Sound) {way : Nat}
    (used : (cache.access address kind).1.way = some way) :
    (cache.access address kind).1.becameValid = true ↔
      (cache.access address kind).1.isHit = false ∧
        (cache.way (cache.location address).line way).valid = false := by
  rw [(sound.follows_access address kind).becameValid_eq, used, sound.tagChanged_of_used used,
    Option.all_some, Bool.and_eq_true, Bool.not_eq_true', Bool.not_eq_true']
  rfl

theorem rank_access_of_ne (sound : cache.Sound) {i : Nat}
    (unused : (cache.access address kind).1.way ≠ some i) :
    let before := cache.way (cache.location address).line i
    ∃ rank, (cache.access address kind).2.way (cache.location address).line i = { before with rank } ∧
      (rank = before.rank ∨
        cache.config.replacement = .lru ∧ before.valid = true ∧ rank = before.rank + 1) := by
  intro before
  have idle : ¬ (cache.access address kind).1.Uses (cache.location address).line i :=
    fun uses => unused uses.2
  rw [sound.way_access]
  refine ⟨_, Contents.record_of_not_uses idle, ?_⟩
  unfold Contents.record
  cases used : (cache.access address kind).1.way with
  | none => exact .inl rfl
  | some way =>
      have distinct : i ≠ way := by
        rintro rfl
        exact unused used
      have line : (cache.access address kind).1.location.line = (cache.location address).line := rfl
      dsimp only
      rw [line, update_self, Ways.rank_store_of_ne distinct]
      split
      · rename_i older
        exact .inr ⟨older.1, older.2.1, rfl⟩
      · exact .inl rfl

theorem isWriteback_iff (sound : cache.Sound) {way : Nat}
    (used : (cache.access address kind).1.way = some way) :
    (cache.access address kind).1.isWriteback = true ↔
      kind = .write ∧ cache.config.writePolicy = .writeThrough ∨
        (cache.access address kind).1.tagChanged = true ∧
          (cache.way (cache.location address).line way).dirty = true := by
  have wrote : (cache.access address kind).1.kind = kind := rfl
  have line : (cache.access address kind).1.location.line = (cache.location address).line := rfl
  rw [(sound.follows_access address kind).isWriteback_eq way used, wrote, line]
  simp only [Bool.or_eq_true, Bool.and_eq_true, beq_iff_eq, AccessKind.isWrite_iff]
  constructor
  · rintro (forwarded | ⟨⟨loaded, -⟩, dirty⟩)
    · exact .inl forwarded
    · exact .inr ⟨loaded, dirty⟩
  · rintro (forwarded | ⟨loaded, dirty⟩)
    · exact .inl forwarded
    · exact .inr ⟨⟨loaded, sound.valid_of_dirty dirty⟩, dirty⟩

theorem unplaced_of_bypass (sound : cache.Sound) (miss : (cache.access address kind).1.isHit = false)
    (bypass : kind.allocates cache.config.writeAllocation = false) :
    cache.placement? address kind = none := by
  have absent := (sound.follows_access address kind).miss miss
  exact Config.place_eq_none_iff.2 ⟨absent, bypass⟩

end Sound

theorem Reachable.rank_used_way (reachable : cache.Reachable) {way : Nat}
    (used : (cache.access address kind).1.way = some way) :
    ((cache.access address kind).2.way (cache.location address).line way).rank =
      if cache.config.replacement = .lru then 0 else Way.unranked := by
  have line : (cache.access address kind).1.location.line = (cache.location address).line := rfl
  cases policy : cache.config.replacement with
  | random =>
      have unranked := (reachable.access address kind).wellFormed.unranked policy
      exact unranked _ way
  | lru =>
      rw [reachable.sound.way_access]
      simp only [Contents.record, used, line, update_self, Ways.store_self, policy, if_true]

theorem Sound.dirty_used_way (sound : cache.Sound) {way : Nat}
    (used : (cache.access address kind).1.way = some way) :
    let before := cache.way (cache.location address).line way
    let held := (cache.access address kind).2.way (cache.location address).line way
    (∀ block, block ∈ held.dirtyBlocks ↔
      kind = .write ∧ cache.config.writePolicy = .writeBack ∧ block = (cache.location address).block ∨
        (cache.access address kind).1.isHit = true ∧ block ∈ before.dirtyBlocks) ∧
      (held.dirty = true ↔ kind = .write ∧ cache.config.writePolicy = .writeBack ∨
        (cache.access address kind).1.isHit = true ∧ before.dirty = true) := by
  have uses : (cache.access address kind).1.Uses (cache.location address).line way := ⟨rfl, used⟩
  have wrote : (cache.access address kind).1.kind = kind := rfl
  have word : (cache.access address kind).1.location.block = (cache.location address).block := rfl
  intro before held
  have stored : held = _ :=
    (congrFun (congrFun (sound.way_access address kind) _) way).trans (Contents.record_of_uses uses)
  have loaded := sound.tagChanged_of_used used
  constructor
  · intro block
    rw [stored]
    simp only [Transaction.mem_dirtyBlocks_stored, loaded, wrote, word, Bool.not_eq_false']
    rw [and_left_comm, eq_comm (a := block)]
  · rw [stored]
    simp only [Transaction.dirty_stored, loaded, wrote, Bool.not_not, Bool.or_eq_true, Bool.and_eq_true,
      beq_iff_eq, AccessKind.isWrite_iff]
    rfl

namespace Sound

theorem effect_hit (sound : cache.Sound) (hit : (cache.access address kind).1.isHit = true) :
    let t := (cache.access address kind).1
    t.becameValid = false ∧ t.tagChanged = false ∧
      ∃ way, t.way = some way ∧
        ∀ i, (cache.way t.location.line i).holds t.location.tag = true ↔ i = way := by
  have follows := sound.follows_access address kind
  obtain ⟨way, used, holds⟩ := follows.hit hit
  have kept := sound.tagChanged_of_used used
  rw [hit, Bool.not_true] at kept
  have unfilled : (cache.access address kind).1.becameValid = false := by
    rw [follows.becameValid_eq, kept, Bool.false_and]
  refine ⟨unfilled, kept, way, used, fun i => ⟨fun held => ?_, fun same => same ▸ holds⟩⟩
  exact (sound.line (cache.location address).line).eq_of_holds held holds

theorem effect_bypass (sound : cache.Sound) (miss : (cache.access address .write).1.isHit = false)
    (policy : cache.config.writeAllocation = .noWriteAllocate) :
    let t := (cache.access address .write).1
    t.way = none ∧ t.isWriteback = true ∧ t.becameValid = false ∧ t.tagChanged = false ∧
      (cache.access address .write).2.lines = cache.lines := by
  have bypass : AccessKind.write.allocates cache.config.writeAllocation = false := by
    rw [policy]
    rfl
  have unplaced := sound.unplaced_of_bypass miss bypass
  have lines := cache.lines_access address .write
  rw [unplaced] at lines
  rw [transaction_access, unplaced]
  exact ⟨rfl, Bool.or_true _, rfl, rfl, lines⟩

theorem effect_fill (sound : cache.Sound) (miss : (cache.access address kind).1.isHit = false)
    (allocates : kind = .read ∨ cache.config.writeAllocation = .writeAllocate) :
    let t := (cache.access address kind).1
    t.tagChanged = true ∧ ∃ way, t.way = some way ∧ way < cache.config.ways ∧
      (t.becameValid = true ↔ (cache.way t.location.line way).valid = false) ∧
      ((cache.way t.location.line way).valid = true →
        (cache.way t.location.line way).tag ≠ t.location.tag) := by
  have absent := (sound.follows_access address kind).miss miss
  obtain ⟨placement, placed, -⟩ := sound.exists_fill absent (allocates_iff.2 allocates)
  have used : (cache.access address kind).1.way = some placement.way := by
    rw [way_access_fst, placed, Option.map_some]
  have loaded := sound.tagChanged_of_used used
  rw [miss, Bool.not_false] at loaded
  refine ⟨loaded, placement.way, used, (sound.suits placed).way_lt, ?_, ?_⟩
  · rw [sound.becameValid_iff used, miss]
    exact and_iff_right rfl
  · intro valid same
    have holds := Way.holds_iff.2 ⟨valid, same⟩
    exact Bool.false_ne_true ((absent placement.way).symm.trans holds)

end Sound

theorem Reachable.effect_access (reachable : cache.Reachable) (address : UInt32) (kind : AccessKind) :
    cache.Effect address kind (cache.access address kind).1 (cache.access address kind).2 := by
  have sound := reachable.sound
  refine
    { address_eq := rfl
      kind_eq := rfl
      location_eq := sound.location_eq address
      isHit_iff := sound.isHit_iff_contains address kind
      hit := sound.effect_hit
      bypass := ?_
      fill := sound.effect_fill
      isWriteback_iff := fun way => sound.isWriteback_iff
      other_lines := fun index => cache.getElem?_lines_access address kind
      other_ways := fun i => sound.rank_access_of_ne
      used_way := ?_
      contains_iff := sound.contains_access address kind
      counters_eq := rfl
      config_eq := rfl
      layout_eq := rfl
      undoDepth_eq := rfl
      observers_eq := rfl }
  · rintro miss rfl policy
    exact sound.effect_bypass miss policy
  · intro way used
    obtain ⟨valid, tag⟩ := sound.valid_tag_access used
    obtain ⟨blocks, dirty⟩ := sound.dirty_used_way used
    exact ⟨valid, tag, blocks, dirty, reachable.rank_used_way used⟩

/-- In a full line of two ways a write evicts the older one, which is dirty. -/
theorem effect_access_evicting :
    let cache : Cache := { config := { blockBits := 1, lineBits := 0, wayBits := 1 } }
    let before := (cache.run [.access 4 .write, .access 8 .read, .setUndoDepth 1]).2.1
    let (transaction, after) := before.access 16 .write
    before.Reachable ∧ (transaction.way = some 0 ∧ transaction.isWriteback = true) ∧
      before.Effect 16 .write transaction after := by
  intro cache before
  have built : Cache.new cache.config default = .ok cache := rfl
  have reachable : before.Reachable := (Reachable.new built).run _
  exact ⟨reachable, by decide, reachable.effect_access 16 .write⟩

end Cache

end SetAssoc
