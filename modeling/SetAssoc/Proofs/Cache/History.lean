import SetAssoc.Proofs.Cache.Log
import SetAssoc.Proofs.Cache.Undo

/-!
# One history behind the counters and the undo stack

The counter log has an entry for each access that survives, and the undo stack a record for the
newest of them. An operation that shortened one and not the other would let an undo take back the
wrong entry.
-/

namespace SetAssoc

theorem Counters.ofLog_reverse (log : List Transaction) : ofLog log.reverse = ofLog log := by
  simp only [ofLog, List.countP_reverse]

namespace CounterLog

theorem entries_ofLog_cons (transaction : Transaction) (older : List Transaction) :
    (ofLog (transaction :: older)).entries =
      (ofLog older).entries ++ [Counters.ofLog (transaction :: older)] := by
  rw [Counters.ofLog_cons, ← latest_ofLog]
  exact List.reverse_cons

theorem length_entries_ofLog (log : List Transaction) : (ofLog log).entries.length = log.length := by
  induction log with
  | nil => rfl
  | cons transaction older ih => rw [entries_ofLog_cons, List.length_append, ih]; rfl

theorem getElem?_entries_ofLog (log : List Transaction) {i : Nat} (bound : i < log.length) :
    (ofLog log).entries[i]? = some (Counters.ofLog (log.reverse.take (i + 1))) := by
  induction log with
  | nil => cases bound
  | cons transaction older ih =>
      rw [entries_ofLog_cons, List.reverse_cons]
      by_cases last : i < older.length
      · rw [List.getElem?_append_left (by rwa [length_entries_ofLog]), ih last,
          List.take_append_of_le_length (by rwa [List.length_reverse])]
      · obtain rfl : i = older.length := by
          rw [List.length_cons] at bound
          omega
        rw [List.getElem?_append_right (by rw [length_entries_ofLog]), length_entries_ofLog,
          Nat.sub_self, List.take_of_length_le (by simp), ← List.reverse_cons, Counters.ofLog_reverse]
        rfl

end CounterLog

theorem Contents.map_transaction_undoRecords (config : Config) (log : List Transaction) :
    (undoRecords config log).map (·.transaction) = log := by
  induction log with
  | nil => rfl
  | cons transaction older ih => rw [undoRecords, List.map_cons, ih]; rfl

namespace Cache

/-! ## Undoing as often as one likes -/

theorem undoMany_fst (cache : Cache) (count : Nat) : (cache.undoMany count).1 =
    (cache.undoStack.take count).map (fun record => some record.transaction) ++
      List.replicate (count - cache.undoAvailable) none := by
  induction count generalizing cache with
  | zero => simp [undoMany]
  | succ count ih =>
      rw [undoMany_succ, ih, undoAvailable, undoAvailable, undoStack_undo]
      cases stack : cache.undoStack with
      | nil => rw [undo_of_nil stack]; simp [List.replicate_succ]
      | cons record rest => rw [undo_fst_of_cons stack]; simp

theorem counters_undoMany (cache : Cache) (count : Nat) :
    (cache.undoMany count).2.counters.newestFirst =
      cache.counters.newestFirst.drop (min count cache.undoAvailable) := by
  induction count generalizing cache with
  | zero => simp [undoMany]
  | succ count ih =>
      rw [undoMany_succ, ih, undoAvailable, undoAvailable, undoStack_undo]
      cases stack : cache.undoStack with
      | nil => rw [undo_of_nil stack]; simp
      | cons record rest =>
          rw [counters_undo_of_cons stack, CounterLog.pop, List.drop_tail, List.tail_cons,
            List.length_cons, Nat.succ_min_succ]

/-! ## Two views of one history -/

structure Reflects (cache : Cache) (history : List Transaction) : Prop where
  length_entries : cache.counters.entries.length = history.length
  getElem?_entries : ∀ i < history.length,
    let past := history.take (i + 1)
    cache.counters.entries[i]? = some
      { hits := past.countP (·.isHit)
        misses := past.countP (!·.isHit)
        reads := past.countP (·.kind == .read)
        writes := past.countP (·.kind == .write)
        writebacks := past.countP (·.isWriteback) }
  undoStack_suffix : (cache.undoStack.map (·.transaction)).reverse <:+ history
  undoAvailable_le : cache.undoAvailable ≤ min cache.undoDepth history.length
  undoMany_eq : ∀ count, (cache.undoMany count).1 =
    ((cache.undoStack.map (·.transaction)).take count).map some ++
      List.replicate (count - cache.undoAvailable) none
  entries_undoMany : ∀ count, (cache.undoMany count).2.counters.entries =
    cache.counters.entries.take (history.length - min count cache.undoAvailable)

variable {cache : Cache} {log : List Transaction}

theorem Told.accessAll (told : cache.Told log)
    (requests : List Request) :
    (cache.accessAll requests).2.Told ((cache.accessAll requests).1.reverse ++ log) := by
  induction requests generalizing cache log with
  | nil => exact told
  | cons request rest ih =>
      rw [accessAll_cons, List.reverse_cons, List.append_assoc]
      exact ih (told.access request.address request.kind)

theorem Told.map_undoStack_prefix (told : cache.Told log) :
    cache.undoStack.map (·.transaction) <+: log := by
  have records := told.undoStack_prefix.map (·.transaction)
  rwa [Contents.map_transaction_undoRecords] at records

theorem Told.reflects (told : cache.Told log) : cache.Reflects log.reverse where
  length_entries := by
    rw [told.counters_eq, CounterLog.length_entries_ofLog, List.length_reverse]
  getElem?_entries i bound := by
    rw [List.length_reverse] at bound
    rw [told.counters_eq, CounterLog.getElem?_entries_ofLog log bound]
    have reads : (fun t : Transaction => !t.kind.isWrite) = fun t => t.kind == .read := by
      funext t
      cases t.kind <;> rfl
    have writes : (fun t : Transaction => t.kind.isWrite) = fun t => t.kind == .write := by
      funext t
      cases t.kind <;> rfl
    rw [Counters.ofLog, reads, writes]
  undoStack_suffix := List.reverse_suffix.2 told.map_undoStack_prefix
  undoAvailable_le := by
    have stack := told.map_undoStack_prefix.length_le
    rw [List.length_map] at stack
    rw [List.length_reverse]
    exact Nat.le_min.2 ⟨told.sound.undo_le, stack⟩
  undoMany_eq count := by
    rw [undoMany_fst, ← List.map_take, List.map_map]
    rfl
  entries_undoMany count := by
    rw [CounterLog.entries, counters_undoMany, List.reverse_drop, ← List.length_reverse,
      ← CounterLog.entries, told.counters_eq, CounterLog.length_entries_ofLog, List.length_reverse]

/-- After any operations on a new cache, accepted or rejected, the counters and the undo stack are
views of the accesses that survive. -/
theorem reflects_run {config : Config} {source : RandomSource}
    (built : Cache.new config source = .ok cache) (operations : List Operation) :
    (cache.run operations).2.1.Reflects (logOf (cache.run operations).1).reverse :=
  ((told_new built).run operations).reflects

/-- Two of four accesses can be undone after the depth was cut, and a setting is rejected in
between. -/
theorem reflects_run_two_ways :
    let config : Config := { blockBits := 1, lineBits := 0, wayBits := 1 }
    let cache : Cache := { config }
    Cache.new config = .ok cache ∧
      let result := cache.run [.access 0 .read, .access 12 .write, .undo, .access 16 .write,
        .set (.wayBits 6), .setUndoDepth 2, .access 0 .read, .access 20 .write]
      result.2.1.Reflects (logOf result.1).reverse :=
  ⟨rfl, reflects_run
    (show Cache.new { blockBits := 1, lineBits := 0, wayBits := 1 } default = .ok _ from rfl) _⟩

end Cache

end SetAssoc
