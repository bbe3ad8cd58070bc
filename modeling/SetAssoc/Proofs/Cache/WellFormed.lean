import SetAssoc.Proofs.Address
import SetAssoc.Proofs.Cache.LogContents

/-!
# Well-formed caches

What the stored lines look like is read off the log, in which an access that was undone has left no
trace, so that no lemma has to follow what an undo brings back.
-/

namespace SetAssoc

open Function (update update_self update_of_ne)

structure Way.Within (config : Config) (way : Way) : Prop where
  tag_lt : way.valid = true → way.tag < 2 ^ config.tagBits
  block_lt : ∀ block ∈ way.dirtyBlocks, block < config.blocks

theorem Way.within_empty (config : Config) : Way.empty.Within config where
  tag_lt valid := by cases valid
  block_lt block mem := by simp [Way.empty] at mem

section

variable {config : Config} {transaction : Transaction} {previous : Way}

theorem Transaction.within_stored (located : transaction.location.Within config)
    (before : previous.Within config) : (transaction.stored config previous).Within config := by
  constructor
  · rw [valid_stored, tag_stored]
    cases transaction.tagChanged with
    | true => exact fun _ => located.tag_lt
    | false => exact before.tag_lt
  · intro block mem
    rcases mem_dirtyBlocks_stored.1 mem with ⟨-, -, rfl⟩ | ⟨-, mem⟩
    · exact located.block_lt
    · exact before.block_lt block mem

theorem Transaction.unranked_stored (before : previous.rank = Way.unranked) :
    (transaction.stored config previous).rank = Way.unranked := by
  unfold stored
  cases transaction.tagChanged <;> dsimp only <;> split
  · exact before
  · exact before
  · rfl
  · rfl

end

namespace Contents

variable {config : Config} {contents : Contents} {transaction : Transaction} {log : List Transaction}

theorem within_ofLog (located : ∀ t ∈ log, t.location.Within config) (line way : Nat) :
    (ofLog config log line way).Within config := by
  induction log with
  | nil => exact Way.within_empty config
  | cons transaction older ih =>
      obtain ⟨here, older⟩ := List.forall_mem_cons.1 located
      have before := ih older
      rw [ofLog]
      by_cases uses : transaction.Uses line way
      · rw [record_of_uses uses]
        have after := Transaction.within_stored here before
        exact ⟨after.tag_lt, after.block_lt⟩
      · rw [record_of_not_uses uses]
        exact ⟨before.tag_lt, before.block_lt⟩

theorem unranked_record (random : config.replacement = .random)
    (before : ∀ line way, (contents line way).rank = Way.unranked) (line way : Nat) :
    (contents.record config transaction line way).rank = Way.unranked := by
  have notLru : config.replacement ≠ .lru := by
    rw [random]
    decide
  unfold record
  cases transaction.way with
  | none => exact before line way
  | some used =>
      dsimp only
      rw [Ways.store, if_neg notLru]
      by_cases same : line = transaction.location.line
      · rw [same, update_self]
        by_cases here : way = used
        · rw [here, update_self]
          apply Transaction.unranked_stored
          apply before
        · rw [update_of_ne here]
          apply before
      · rw [update_of_ne same]
        apply before

theorem unranked_ofLog (random : config.replacement = .random) (log : List Transaction) :
    ∀ line way, (ofLog config log line way).rank = Way.unranked := by
  induction log with
  | nil => exact fun _ _ => rfl
  | cons transaction older ih => exact unranked_record random ih

end Contents

namespace Cache

variable {cache : Cache}

/-! ## The log and the lines of a reachable cache -/

theorem Sound.within_location (sound : cache.Sound) (address : UInt32) :
    (cache.location address).Within cache.config := by
  rw [sound.location_eq]
  exact Layout.within_split sound.geometry address

theorem Reachable.exists_located_log (reachable : cache.Reachable) :
    ∃ log, cache.Told log ∧ ∀ t ∈ log, t.location.Within cache.config := by
  induction reachable using Reachable.induct with
  | empty reachable lines counters stack =>
      exact ⟨[], told_of_empty reachable.sound lines counters stack, by simp⟩
  | access reachable address kind ih =>
      obtain ⟨log, told, located⟩ := ih
      have here := reachable.sound.within_location address
      exact ⟨_, told.access address kind, List.forall_mem_cons.2 ⟨here, located⟩⟩
  | @undo cache reachable ih =>
      obtain ⟨log, told, located⟩ := ih
      refine ⟨_, told.undo, ?_⟩
      rw [config_undo]
      cases cache.undo.1 with
      | none => exact located
      | some _ => exact fun t mem => located t (List.mem_of_mem_tail mem)
  | setUndoDepth reachable depth ih =>
      obtain ⟨log, told, located⟩ := ih
      exact ⟨log, told.perform (.setUndoDepth depth), located⟩
  | subscribe reachable observer ih =>
      obtain ⟨log, told, located⟩ := ih
      exact ⟨log, told.perform (.subscribe observer), located⟩

def LinesBounded (cache : Cache) : Prop := ∀ index ∈ cache.lines, index < cache.config.lines

theorem LinesBounded.access (bounded : cache.LinesBounded) (sound : cache.Sound) (address : UInt32)
    (kind : AccessKind) : (cache.access address kind).2.LinesBounded := by
  intro index mem
  rw [lines_access] at mem
  rw [config_access]
  cases placed : cache.placement? address kind with
  | none =>
      rw [placed] at mem
      exact bounded index mem
  | some placement =>
      rw [placed] at mem
      rcases Std.ExtTreeMap.mem_insert.1 mem with same | mem
      · rw [← Std.LawfulEqCmp.compare_eq_iff_eq.1 same]
        exact (sound.within_location address).line_lt
      · exact bounded index mem

theorem mem_lines_undo {index : Nat} : index ∈ cache.undo.2.lines ↔ index ∈ cache.lines := by
  unfold Cache.undo
  split
  · rfl
  · dsimp only
    split
    · rw [Std.ExtTreeMap.mem_alter]
      simp only [Std.LawfulEqCmp.compare_eq_iff_eq, Option.isSome_map,
        ← Std.ExtTreeMap.mem_iff_isSome_getElem?]
      split
      · rename_i same
        rw [same]
      · rfl
    · rfl

theorem LinesBounded.undo (bounded : cache.LinesBounded) : cache.undo.2.LinesBounded := by
  intro index mem
  rw [config_undo]
  exact bounded index (mem_lines_undo.1 mem)

theorem Reachable.linesBounded (reachable : cache.Reachable) : cache.LinesBounded := by
  induction reachable using Reachable.induct with
  | empty reachable lines counters stack =>
      intro index mem
      rw [lines] at mem
      exact absurd mem Std.ExtTreeMap.not_mem_empty
  | access reachable address kind ih => exact ih.access reachable.sound address kind
  | undo reachable ih => exact ih.undo
  | setUndoDepth reachable depth ih => exact ih
  | subscribe reachable observer ih => exact ih

/-! ## Well-formed caches -/

theorem Sound.hit_of_holds (sound : cache.Sound) {address : UInt32} {i : Nat} (kind : AccessKind)
    (holds : (cache.way (cache.location address).line i).holds (cache.location address).tag = true) :
    (cache.access address kind).1.isHit = true ∧ (cache.access address kind).1.way = some i := by
  have follows := sound.follows_access address kind
  have hit : (cache.access address kind).1.isHit = true := by
    by_contra miss
    have absent := follows.miss (Bool.eq_false_of_not_eq_true miss) i
    exact Bool.false_ne_true (absent.symm.trans holds)
  obtain ⟨way, used, holdsUsed⟩ := follows.hit hit
  have same := (sound.line (cache.location address).line).eq_of_holds holdsUsed holds
  exact ⟨hit, same ▸ used⟩

structure WellFormed (cache : Cache) : Prop where
  validate_eq : cache.config.validate = .ok ()
  layout_eq : cache.layout = cache.config.layout
  line_lt : ∀ index ∈ cache.lines, index < cache.config.lines
  way_lt : ∀ index, ∀ i ∈ cache.line index, i < cache.config.ways
  tag_injective : ∀ index i j, (cache.way index i).valid = true → (cache.way index j).valid = true →
    (cache.way index i).tag = (cache.way index j).tag → i = j
  tag_lt : ∀ index i, (cache.way index i).valid = true →
    (cache.way index i).tag < 2 ^ cache.config.tagBits
  hit_join : ∀ index i, (cache.way index i).valid = true → ∀ block < cache.config.blocks,
    let location := { tag := (cache.way index i).tag, line := index, block }
    let address := cache.layout.join location
    cache.layout.split (wordAddress address) = location ∧ cache.contains address = true ∧
      ∀ kind, (cache.access address kind).1.isHit = true ∧
        (cache.access address kind).1.way = some i
  valid_of_dirty : ∀ index i, (cache.way index i).dirty = true → (cache.way index i).valid = true
  dirty_iff : ∀ index i, (cache.way index i).dirty = true ↔ (cache.way index i).dirtyBlocks ≠ ∅
  block_lt : ∀ index i, ∀ block ∈ (cache.way index i).dirtyBlocks, block < cache.config.blocks
  clean : cache.config.writePolicy = .writeThrough →
    ∀ index i, (cache.way index i).dirty = false
  unranked : cache.config.replacement = .random →
    ∀ index i, (cache.way index i).rank = Way.unranked

theorem Reachable.wellFormed (reachable : cache.Reachable) : cache.WellFormed := by
  obtain ⟨log, told, located⟩ := reachable.exists_located_log
  have sound := told.sound
  have within (index i : Nat) : (cache.way index i).Within cache.config := by
    rw [told.way_eq]
    exact Contents.within_ofLog located index i
  refine
    { validate_eq := (Config.validate_eq_ok_iff _).2 sound.geometry
      layout_eq := sound.layout_eq
      line_lt := reachable.linesBounded
      way_lt := fun index => sound.bounded index
      tag_injective := fun index i j => (sound.line index).tag_injective
      tag_lt := fun index i => (within index i).tag_lt
      hit_join := ?_
      valid_of_dirty := fun index i => sound.valid_of_dirty
      dirty_iff := ?_
      block_lt := fun index i => (within index i).block_lt
      clean := ?_
      unranked := ?_ }
  · intro index i valid block bound location address
    have line : index < cache.config.lines := by
      apply reachable.linesBounded
      exact mem_lines_of_mem_line (Line.mem_of_valid valid)
    have split : cache.location address = location := by
      show cache.layout.split (wordAddress (cache.layout.join location)) = location
      rw [sound.layout_eq]
      exact Layout.split_join sound.geometry ⟨(within index i).tag_lt valid, line, bound⟩
    have holds : (cache.way (cache.location address).line i).holds
        (cache.location address).tag = true := by
      rw [split]
      exact Way.holds_iff.2 ⟨valid, rfl⟩
    exact ⟨split, (cache.contains_iff address).2 ⟨i, holds⟩, fun kind => sound.hit_of_holds kind holds⟩
  · intro index i
    rw [told.way_eq]
    exact Contents.dirty_ofLog
  · intro writeThrough index i
    rw [told.way_eq]
    exact Contents.clean_ofLog writeThrough log index i
  · intro random
    rw [told.way_eq]
    exact Contents.unranked_ofLog random log

/-- Two lines of two ways with random replacement. A write that evicts is undone, and another one is
made after the associativity was changed. -/
theorem wellFormed_two_ways :
    let cache : Cache :=
      { config := { blockBits := 1, lineBits := 1, wayBits := 1, replacement := .random } }
    let after := (cache.run [.access 0 .write, .access 20 .write, .access 32 .write, .undo,
      .set (.wayBits 2), .access 48 .write, .access 12 .read]).2.1
    after.Reachable ∧ after.WellFormed :=
  have reachable := (Reachable.new (show Cache.new
    { blockBits := 1, lineBits := 1, wayBits := 1, replacement := .random } = .ok _ from rfl)).run _
  ⟨reachable, reachable.wellFormed⟩

end Cache

end SetAssoc
