import SetAssoc.Proofs.Cache.Census
import SetAssoc.Proofs.Cache.Log

/-!
# Reading the contents off the log

What a way holds follows from the transactions that used it since its last fill.
-/

namespace SetAssoc

open Function (update update_self update_of_ne)

namespace Transaction

def Uses (transaction : Transaction) (line way : Nat) : Prop :=
  transaction.location.line = line ∧ transaction.way = some way

def Fills (transaction : Transaction) (line way : Nat) : Prop :=
  transaction.Uses line way ∧ transaction.tagChanged = true

variable {transaction : Transaction} {config : Config} {way : Way}

def place (transaction : Transaction) : Nat × Nat :=
  (transaction.location.line, transaction.way.getD 0)

theorem Uses.place_eq {line way : Nat} (uses : transaction.Uses line way) :
    transaction.place = (line, way) := by
  obtain ⟨rfl, resolved⟩ := uses
  rw [place, resolved, Option.getD_some]

theorem valid_stored : (transaction.stored config way).valid =
    (transaction.tagChanged || way.valid) := by
  unfold stored
  cases transaction.tagChanged <;> dsimp only <;> split <;> rfl

theorem tag_stored : (transaction.stored config way).tag =
    if transaction.tagChanged then transaction.location.tag else way.tag := by
  unfold stored
  cases transaction.tagChanged <;> dsimp only <;> split <;> rfl

theorem dirty_stored : (transaction.stored config way).dirty =
    (transaction.kind.isWrite && config.writePolicy == .writeBack ||
      !transaction.tagChanged && way.dirty) := by
  unfold stored
  cases transaction.tagChanged <;> dsimp only <;> split <;>
      simp_all [Way.markDirty, Way.loaded, Way.empty]

theorem mem_dirtyBlocks_stored {block : Nat} : block ∈ (transaction.stored config way).dirtyBlocks ↔
    (config.writePolicy = .writeBack ∧ transaction.kind = .write ∧ transaction.location.block = block) ∨
      transaction.tagChanged = false ∧ block ∈ way.dirtyBlocks := by
  unfold stored
  cases transaction.kind <;> cases config.writePolicy <;> cases transaction.tagChanged <;>
    simp [AccessKind.isWrite, Way.markDirty, Way.loaded, Way.empty]

end Transaction

namespace Contents

variable {config : Config} {contents : Contents} {transaction fill : Transaction} {previous : Way}
  {line way : Nat}
  {log newer older : List Transaction}

theorem record_of_uses (uses : transaction.Uses line way) :
    contents.record config transaction line way =
      { transaction.stored config (contents line way) with
        rank := (contents.record config transaction line way).rank } := by
  obtain ⟨rfl, resolved⟩ := uses
  simp only [record, resolved, update_self, Ways.store_self]

theorem record_of_not_uses (unused : ¬ transaction.Uses line way) :
    contents.record config transaction line way =
      { contents line way with rank := (contents.record config transaction line way).rank } := by
  unfold record
  cases resolved : transaction.way with
  | none => rfl
  | some used =>
      dsimp only
      by_cases same : line = transaction.location.line
      · subst same
        have distinct : way ≠ used := fun e => unused ⟨rfl, e ▸ resolved⟩
        rw [update_self, Ways.store_of_ne distinct]
      · rw [update_of_ne same]

theorem valid_ofLog : (ofLog config log line way).valid = true ↔ ∃ t ∈ log, t.Fills line way := by
  induction log with
  | nil => simp [ofLog, Way.empty]
  | cons transaction older ih =>
      rw [ofLog]
      by_cases uses : transaction.Uses line way
      · rw [record_of_uses uses]
        simp [Transaction.valid_stored, Transaction.Fills, uses, ih]
      · rw [record_of_not_uses uses]
        simp [Transaction.Fills, uses, ih]

theorem dirty_stored_iff (before : previous.dirty = true ↔ previous.dirtyBlocks ≠ ∅) :
    (transaction.stored config previous).dirty = true ↔
      (transaction.stored config previous).dirtyBlocks ≠ ∅ := by
  unfold Transaction.stored
  cases transaction.tagChanged <;> dsimp only <;> split <;>
    simp [Way.markDirty, Way.loaded, Way.empty, before]

theorem dirty_ofLog :
    (ofLog config log line way).dirty = true ↔ (ofLog config log line way).dirtyBlocks ≠ ∅ := by
  induction log with
  | nil => simp [ofLog, Way.empty]
  | cons transaction older ih =>
      rw [ofLog]
      by_cases uses : transaction.Uses line way
      · rw [record_of_uses uses]
        exact dirty_stored_iff ih
      · rw [record_of_not_uses uses]
        exact ih

theorem clean_ofLog (writeThrough : config.writePolicy = .writeThrough)
    (log : List Transaction) (line way : Nat) : (ofLog config log line way).dirty = false := by
  induction log with
  | nil => rfl
  | cons transaction older ih =>
      rw [ofLog]
      by_cases uses : transaction.Uses line way
      · rw [record_of_uses uses]
        simp [Transaction.dirty_stored, writeThrough, ih]
      · rw [record_of_not_uses uses]
        exact ih

theorem ofLog_since_fill (config : Config) (older : List Transaction) (fills : fill.Fills line way)
    (unfilled : ∀ t ∈ newer, ¬ t.Fills line way) :
    let held := ofLog config (newer ++ fill :: older) line way
    held.tag = fill.location.tag ∧
      ∀ block, block ∈ held.dirtyBlocks ↔ config.writePolicy = .writeBack ∧
        ∃ t ∈ newer ++ [fill], t.Uses line way ∧ t.kind = .write ∧ t.location.block = block := by
  induction newer with
  | nil =>
      obtain ⟨uses, loaded⟩ := fills
      simp only [List.nil_append, ofLog]
      rw [record_of_uses uses]
      simp [Transaction.tag_stored, Transaction.mem_dirtyBlocks_stored, loaded, uses]
  | cons transaction newer ih =>
      obtain ⟨unfilledHere, unfilled⟩ := List.forall_mem_cons.1 unfilled
      obtain ⟨tag, blocks⟩ := ih unfilled
      simp only [List.cons_append, ofLog]
      by_cases uses : transaction.Uses line way
      · have kept : transaction.tagChanged = false :=
          Bool.eq_false_of_not_eq_true fun loaded => unfilledHere ⟨uses, loaded⟩
        rw [record_of_uses uses]
        simp [Transaction.tag_stored, Transaction.mem_dirtyBlocks_stored, kept, uses, tag, blocks,
          and_or_left]
      · rw [record_of_not_uses uses]
        simp [uses, tag, blocks]

end Contents

namespace Transaction.Follows

variable {config : Config} {contents : Contents} {transaction : Transaction} {line way : Nat}

theorem holds_of_hit (follows : transaction.Follows config contents) (uses : transaction.Uses line way)
    (hit : transaction.isHit = true) :
    (contents line way).holds transaction.location.tag = true := by
  obtain ⟨used, resolved, holds⟩ := follows.hit hit
  obtain rfl : way = used := Option.some.inj (uses.2.symm.trans resolved)
  rwa [uses.1] at holds

theorem holds_record (follows : transaction.Follows config contents) (uses : transaction.Uses line way) :
    (contents.record config transaction line way).holds transaction.location.tag = true := by
  rw [Way.holds_iff, Contents.record_of_uses uses, valid_stored, tag_stored]
  have loaded := follows.tagChanged_eq
  rw [uses.2] at loaded
  cases hit : transaction.isHit with
  | false => simp [loaded, hit]
  | true => simpa [loaded, hit] using Way.holds_iff.1 (follows.holds_of_hit uses hit)

end Transaction.Follows

/-! ## First fills -/

section

variable {config : Config} {transaction : Transaction} {line way : Nat}
  {log newer older : List Transaction}

namespace Transaction.Follows

variable (follows : transaction.Follows config (Contents.ofLog config older))

include follows

theorem fills_place (loaded : transaction.tagChanged = true) :
    transaction.Fills transaction.place.1 transaction.place.2 := by
  have resolved := follows.tagChanged_eq
  rw [loaded, eq_comm, Bool.and_eq_true, Option.isSome_iff_exists] at resolved
  obtain ⟨⟨way, resolved⟩, -⟩ := resolved
  have uses : transaction.Uses transaction.location.line way := ⟨rfl, resolved⟩
  rw [uses.place_eq]
  exact ⟨uses, loaded⟩

theorem becameValid_iff : transaction.becameValid = true ↔ transaction.tagChanged = true ∧
    ∀ t ∈ older, ¬ t.Fills transaction.place.1 transaction.place.2 := by
  rw [follows.becameValid_eq, Bool.and_eq_true]
  refine and_congr_right fun loaded => ?_
  have uses := (follows.fills_place loaded).1
  rw [uses.2, Option.all_some, uses.1, Bool.not_eq_true', ← Bool.not_eq_true, Contents.valid_ofLog]
  simp

end Transaction.Follows

namespace Logged

theorem mem_first_fills (logged : Logged config log) :
    (line, way) ∈ (log.filter (·.becameValid)).map (·.place) ↔ ∃ t ∈ log, t.Fills line way := by
  induction logged with
  | nil => simp
  | @cons transaction older logged sound follows ih =>
      simp only [List.mem_cons, exists_eq_or_imp]
      cases became : transaction.becameValid with
      | true =>
          have fills := follows.fills_place (follows.becameValid_iff.1 became).1
          rw [List.filter_cons_of_pos became, List.map_cons, List.mem_cons, ih]
          refine or_congr_left ⟨fun same => ?_, fun fills => fills.1.place_eq.symm⟩
          rwa [← same] at fills
      | false =>
          rw [List.filter_cons_of_neg (by simp [became]), ih]
          refine (or_iff_right_of_imp fun fills => ?_).symm
          -- a fill that is not the first of its way has an older one
          by_contra! fresh
          rw [follows.becameValid_iff.2 ⟨fills.2, by rwa [fills.1.place_eq]⟩] at became
          cases became

theorem nodup_first_fills (logged : Logged config log) :
    ((log.filter (·.becameValid)).map (·.place)).Nodup := by
  induction logged with
  | nil => exact List.nodup_nil
  | @cons transaction older logged sound follows ih =>
      cases became : transaction.becameValid with
      | true =>
          rw [List.filter_cons_of_pos became, List.map_cons, List.nodup_cons]
          refine ⟨fun mem => ?_, ih⟩
          obtain ⟨t, mem, fills⟩ := logged.mem_first_fills.1 mem
          exact (follows.becameValid_iff.1 became).2 t mem fills
      | false => rwa [List.filter_cons_of_neg (by simp [became])]

end Logged

end

namespace Cache

variable {cache : Cache} {log : List Transaction}

/-! ## What the log tells -/

structure Explained (cache : Cache) (log : List Transaction) : Prop where
  way_eq : cache.way = Contents.ofLog cache.config log
  valid_iff : ∀ line way, (cache.way line way).valid = true ↔ ∃ t ∈ log, t.Fills line way
  since_fill : ∀ line way newer fill older, log = newer ++ fill :: older → fill.Fills line way →
    (∀ t ∈ newer, ¬ t.Fills line way) →
    (cache.way line way).tag = fill.location.tag ∧
      ∀ block, block ∈ (cache.way line way).dirtyBlocks ↔ cache.config.writePolicy = .writeBack ∧
        ∃ t ∈ newer ++ [fill], t.Uses line way ∧ t.kind = .write ∧ t.location.block = block
  dirty_iff : ∀ line way,
    (cache.way line way).dirty = true ↔ (cache.way line way).dirtyBlocks ≠ ∅
  becameValid_iff : ∀ newer t older, log = newer ++ t :: older →
    (t.becameValid = true ↔ t.tagChanged = true ∧
      ∀ line way, t.Uses line way → ∀ u ∈ older, ¬ u.Fills line way)
  length_valid : (cache.waysWhere (·.valid)).length = log.countP (·.becameValid)

theorem Told.explained (told : cache.Told log) : cache.Explained log where
  way_eq := told.way_eq
  valid_iff line way := by rw [told.way_eq, Contents.valid_ofLog]
  since_fill line way newer fill older split fills unfilled := by
    rw [told.way_eq, split]
    exact Contents.ofLog_since_fill _ _ fills unfilled
  dirty_iff line way := by rw [told.way_eq, Contents.dirty_ofLog]
  becameValid_iff newer t older split := by
    have logged := told.logged
    rw [split] at logged
    rw [logged.follows.becameValid_iff]
    refine and_congr_right fun loaded => ⟨fun fresh line way uses => ?_, fun fresh => ?_⟩
    · rw [uses.place_eq] at fresh
      exact fresh
    · exact fresh _ _ (logged.follows.fills_place loaded).1
  length_valid := by
    have same : (cache.waysWhere (·.valid)).Perm ((log.filter (·.becameValid)).map (·.place)) := by
      rw [List.perm_ext_iff_of_nodup (nodup_waysWhere _ _) told.logged.nodup_first_fills]
      rintro ⟨line, way⟩
      rw [mem_waysWhere rfl, told.logged.mem_first_fills, told.way_eq, Contents.valid_ofLog]
    rw [same.length_eq, List.length_map, List.countP_eq_length_filter]

/-- After any operations on a new cache, accepted or rejected, the log of their replies explains the
contents. -/
theorem explained_run {config : Config} {source : RandomSource}
    (built : Cache.new config source = .ok cache) (operations : List Operation) :
    (cache.run operations).2.1.Explained (logOf (cache.run operations).1) :=
  ((told_new built).run operations).explained

/-- A full line loses its older way to a write, which is undone and made again; the history is cut
and a setting is rejected in between. -/
theorem explained_run_two_ways :
    let config : Config := { blockBits := 1, lineBits := 0, wayBits := 1 }
    let cache : Cache := { config }
    Cache.new config = .ok cache ∧
      let result := cache.run [.access 0 .read, .access 12 .write, .access 16 .write, .undo,
        .setUndoDepth 1, .set (.wayBits 6), .access 20 .write, .access 24 .read]
      result.2.1.Explained (logOf result.1) :=
  ⟨rfl, explained_run
    (show Cache.new { blockBits := 1, lineBits := 0, wayBits := 1 } default = .ok _ from rfl) _⟩

end Cache

end SetAssoc
