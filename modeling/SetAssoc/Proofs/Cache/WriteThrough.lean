import Mathlib.Data.List.Forall2
import SetAssoc.Proofs.Cache.Operation
import SetAssoc.Proofs.Line.WriteThrough

/-!
# The write policy does not matter for placement

`Cache.asWriteThrough` is the cache as it would be if every write had been forwarded: nothing in it
is dirty. Operations can be carried out before or after passing to it.
-/

namespace SetAssoc

/-! ## Results under write-through -/

def Transaction.asWriteThrough (transaction : Transaction) : Transaction :=
  { transaction with isWriteback := transaction.kind.isWrite }

def Counters.asWriteThrough (counters : Counters) : Counters :=
  { counters with writebacks := counters.writes }

def CounterLog.asWriteThrough (log : CounterLog) : CounterLog :=
  ⟨log.newestFirst.map Counters.asWriteThrough⟩

def UndoRecord.asWriteThrough (record : UndoRecord) : UndoRecord where
  transaction := record.transaction.asWriteThrough
  previous := record.previous.asWriteThrough

theorem CounterLog.latest_asWriteThrough (log : CounterLog) :
    log.asWriteThrough.latest = log.latest.asWriteThrough := by
  obtain ⟨newestFirst⟩ := log
  cases newestFirst <;> rfl

theorem CounterLog.asWriteThrough_push (log : CounterLog) (transaction : Transaction) :
    (log.push transaction).asWriteThrough = log.asWriteThrough.push transaction.asWriteThrough := by
  rw [push, push, latest_asWriteThrough]
  rfl

theorem CounterLog.asWriteThrough_pop (log : CounterLog) :
    log.pop.2.asWriteThrough = log.asWriteThrough.pop.2 := by
  simp [pop, asWriteThrough]

theorem Transaction.asWriteThrough_ofPlacement (config : Config) (layout : Layout) (address : UInt32)
    {kind : AccessKind} {placement : Option Placement} (bypass : placement = none → kind.isWrite = true) :
    (ofPlacement config layout address kind placement).asWriteThrough =
      ofPlacement config.asWriteThrough layout address kind (placement.map Placement.asWriteThrough) := by
  cases placement with
  | none => simp [ofPlacement, asWriteThrough, bypass rfl]
  | some placement =>
      simp [ofPlacement, asWriteThrough, Config.asWriteThrough, Placement.asWriteThrough,
        Placement.evictsDirty, Placement.becameValid, Way.asWriteThrough]

namespace Cache

def asWriteThrough (cache : Cache) : Cache where
  config := cache.config.asWriteThrough
  layout := cache.layout
  lines := cache.lines.map fun _ => Line.asWriteThrough
  counters := cache.counters.asWriteThrough
  undoStack := cache.undoStack.map UndoRecord.asWriteThrough
  undoDepth := cache.undoDepth
  source := cache.source
  observers := cache.observers

variable {cache other : Cache} {address : UInt32} {kind : AccessKind}

theorem lines_asWriteThrough : cache.asWriteThrough.lines =
    cache.lines.map fun _ => Line.asWriteThrough := rfl

theorem line_asWriteThrough (index : Nat) :
    cache.asWriteThrough.line index = (cache.line index).asWriteThrough := by
  rw [line, line, lines_asWriteThrough, Std.ExtTreeMap.getElem?_map]
  cases cache.lines[index]? with
  | none => exact map_empty.symm
  | some _ => rfl

theorem contains_asWriteThrough : cache.asWriteThrough.contains address = cache.contains address := by
  rw [contains, contains, line_asWriteThrough, Line.find?_asWriteThrough]
  rfl

/-! ## Accesses and undos -/

theorem placement?_asWriteThrough : cache.asWriteThrough.placement? address kind =
    (cache.placement? address kind).map Placement.asWriteThrough := by
  rw [placement?, line_asWriteThrough]
  exact congrArg Prod.fst (Config.place_asWriteThrough _ _ _ _ _)

theorem isWrite_of_bypass (bypass : cache.placement? address kind = none) : kind.isWrite = true := by
  have skips := (Config.place_eq_none_iff.1 bypass).2
  cases kind with
  | read => cases skips
  | write => rfl

theorem transaction_asWriteThrough : (cache.asWriteThrough.access address kind).1 =
    (cache.access address kind).1.asWriteThrough := by
  rw [transaction_access, transaction_access, placement?_asWriteThrough,
    Transaction.asWriteThrough_ofPlacement _ _ _ isWrite_of_bypass]
  rfl

theorem lines_access_asWriteThrough : (cache.asWriteThrough.access address kind).2.lines =
    (cache.access address kind).2.asWriteThrough.lines := by
  rw [lines_asWriteThrough, lines_access, lines_access, placement?_asWriteThrough]
  cases cache.placement? address kind with
  | none => rfl
  | some placement =>
      rw [map_insert, ← Placement.settle_asWriteThrough]
      rfl

theorem source_access_asWriteThrough : (cache.asWriteThrough.access address kind).2.source =
    (cache.access address kind).2.source := by
  have drawn := congrArg Prod.snd <| Config.place_asWriteThrough cache.config cache.source
    (cache.line (cache.location address).line) (cache.location address).tag
    (kind.allocates cache.config.writeAllocation)
  rw [source_access, source_access, line_asWriteThrough]
  exact drawn

theorem counters_access_asWriteThrough : (cache.asWriteThrough.access address kind).2.counters =
    (cache.access address kind).2.counters.asWriteThrough := by
  rw [counters_access, counters_access, CounterLog.asWriteThrough_push, transaction_asWriteThrough]
  rfl

theorem undoStack_access_asWriteThrough : (cache.asWriteThrough.access address kind).2.undoStack =
    (cache.access address kind).2.undoStack.map UndoRecord.asWriteThrough := by
  have previous : ((cache.asWriteThrough.placement? address kind).map Placement.previous).getD .empty =
      (((cache.placement? address kind).map Placement.previous).getD .empty).asWriteThrough := by
    rw [placement?_asWriteThrough]
    cases cache.placement? address kind <;> rfl
  rw [undoStack_access, undoStack_access, transaction_asWriteThrough, previous, List.map_take]
  rfl

theorem asWriteThrough_access : cache.asWriteThrough.access address kind =
    ((cache.access address kind).1.asWriteThrough, (cache.access address kind).2.asWriteThrough) := by
  apply Prod.ext transaction_asWriteThrough
  apply Cache.ext
  · rfl
  · rfl
  · exact lines_access_asWriteThrough
  · exact counters_access_asWriteThrough
  · exact undoStack_access_asWriteThrough
  · rfl
  · exact source_access_asWriteThrough
  · rfl

theorem asWriteThrough_undo : cache.asWriteThrough.undo =
    (cache.undo.1.map Transaction.asWriteThrough, cache.undo.2.asWriteThrough) := by
  have pending : cache.asWriteThrough.undoStack = cache.undoStack.map UndoRecord.asWriteThrough := rfl
  have counters := cache.counters.asWriteThrough_pop
  rw [undo, undo, pending]
  cases cache.undoStack with
  | nil => rfl
  | cons record records =>
      obtain ⟨transaction, before⟩ := record
      refine Prod.ext rfl (Cache.ext rfl rfl ?_ counters.symm rfl rfl rfl rfl)
      have way : transaction.asWriteThrough.way = transaction.way := rfl
      simp only [List.map_cons, UndoRecord.asWriteThrough, way]
      cases transaction.way with
      | none => rfl
      | some way =>
          refine (map_alter fun line => ?_).symm
          exact (Config.restore_asWriteThrough _ line way before).symm

end Cache

/-! ## Operations and runs -/

def Setting.asWriteThrough : Setting → Setting
  | .writePolicy _ => .writePolicy .writeThrough
  | .config given => .config given.asWriteThrough
  | .preset given => .preset { given with config := given.config.asWriteThrough }
  | setting => setting

def Operation.asWriteThrough : Operation → Operation
  | .set setting => .set setting.asWriteThrough
  | operation => operation

def Reply.asWriteThrough : Reply → Reply
  | .accessed transaction => .accessed transaction.asWriteThrough
  | .undone transaction => .undone (transaction.map Transaction.asWriteThrough)
  | .configured config => .configured config.asWriteThrough
  | reply => reply

theorem Config.change_asWriteThrough (config : Config) (setting : Setting) :
    config.asWriteThrough.change setting.asWriteThrough = (config.change setting).asWriteThrough := by
  cases setting <;> rfl

theorem Setting.isPolicy_asWriteThrough (setting : Setting) :
    setting.asWriteThrough.isPolicy = setting.isPolicy := by
  cases setting <;> rfl

theorem Config.validate_asWriteThrough (config : Config) :
    config.asWriteThrough.validate = config.validate := rfl

namespace Cache

variable {cache other : Cache}

theorem asWriteThrough_reset : cache.asWriteThrough.reset = cache.reset.asWriteThrough := by
  simp only [reset, asWriteThrough, map_empty]
  rfl

theorem asWriteThrough_reconfigure (config : Config) :
    cache.asWriteThrough.reconfigure config.asWriteThrough =
      (cache.reconfigure config).asWriteThrough := by
  simp only [reconfigure, ← asWriteThrough_reset]
  rfl

theorem asWriteThrough_setUndoDepth (depth : Nat) :
    cache.asWriteThrough.setUndoDepth depth = (cache.setUndoDepth depth).asWriteThrough := by
  simp [setUndoDepth, asWriteThrough, List.map_take]

theorem asWriteThrough_set (setting : Setting) : cache.asWriteThrough.set setting.asWriteThrough =
    (cache.set setting).map asWriteThrough := by
  have change : cache.asWriteThrough.config.change setting.asWriteThrough =
      (cache.config.change setting).asWriteThrough := Config.change_asWriteThrough _ _
  rw [set, set, change, setting.isPolicy_asWriteThrough, Config.validate_asWriteThrough,
    asWriteThrough_reconfigure]
  cases setting.isPolicy with
  | true => rfl
  | false => cases (cache.config.change setting).validate <;> rfl

theorem asWriteThrough_perform (operation : Operation) :
    cache.asWriteThrough.perform operation.asWriteThrough =
      ((cache.perform operation).1.asWriteThrough, (cache.perform operation).2.asWriteThrough) := by
  cases operation with
  | access address kind =>
      simp only [Operation.asWriteThrough, perform_access, asWriteThrough_access,
        Reply.asWriteThrough]
  | undo =>
      simp only [Operation.asWriteThrough, perform_undo, asWriteThrough_undo, Reply.asWriteThrough]
  | setUndoDepth depth =>
      simp only [Operation.asWriteThrough, perform_setUndoDepth, asWriteThrough_setUndoDepth,
        Reply.asWriteThrough]
  | reset =>
      simp only [Operation.asWriteThrough, perform_reset, asWriteThrough_reset, Reply.asWriteThrough]
  | set setting =>
      simp only [Operation.asWriteThrough, perform_set, asWriteThrough_set]
      cases cache.set setting <;> rfl
  | subscribe observer => rfl

theorem asWriteThrough_run (cache : Cache) (operations : List Operation) :
    (cache.asWriteThrough.run (operations.map Operation.asWriteThrough)).1 =
        (cache.run operations).1.map Reply.asWriteThrough ∧
      (cache.asWriteThrough.run (operations.map Operation.asWriteThrough)).2.1 =
        (cache.run operations).2.1.asWriteThrough := by
  induction operations generalizing cache with
  | nil => exact ⟨rfl, rfl⟩
  | cons operation rest ih =>
      have performed := cache.asWriteThrough_perform operation
      have reply : (cache.asWriteThrough.step operation.asWriteThrough).reply =
        (cache.step operation).reply.asWriteThrough := congrArg Prod.fst performed
      have after : (cache.asWriteThrough.step operation.asWriteThrough).cache =
        (cache.step operation).cache.asWriteThrough := congrArg Prod.snd performed
      obtain ⟨replies, final⟩ := ih (cache.step operation).cache
      simp only [List.map_cons, run, reply, after, replies, final, and_self]

theorem run_congr (same : cache.asWriteThrough = other.asWriteThrough) (operations : List Operation) :
    (cache.run operations).1.map Reply.asWriteThrough =
        (other.run operations).1.map Reply.asWriteThrough ∧
      (cache.run operations).2.1.asWriteThrough = (other.run operations).2.1.asWriteThrough := by
  obtain ⟨replies, after⟩ := cache.asWriteThrough_run operations
  obtain ⟨repliesOther, afterOther⟩ := other.asWriteThrough_run operations
  rw [← replies, ← after, same]
  exact ⟨repliesOther, afterOther⟩

end Cache

/-! ## Two write policies -/

def Transaction.PlacedAlike (transaction other : Transaction) : Prop :=
  { transaction with isWriteback := other.isWriteback } = other

def Reply.PlacedAlike : Reply → Reply → Prop
  | .accessed transaction, .accessed other => transaction.PlacedAlike other
  | .undone transaction, .undone other => Option.Rel Transaction.PlacedAlike transaction other
  | .configured config, .configured other => { config with writePolicy := other.writePolicy } = other
  | reply, other => reply = other

/-- Two caches that differ at most in what is dirty and in how often they wrote back. -/
structure Cache.PlacedAlike (cache other : Cache) : Prop where
  contains_eq : ∀ address, cache.contains address = other.contains address
  mem_lines_iff : ∀ index, index ∈ cache.lines ↔ index ∈ other.lines
  mem_line_iff : ∀ index i, i ∈ cache.line index ↔ i ∈ other.line index
  tag_eq : ∀ index i, (cache.way index i).tag = (other.way index i).tag
  valid_eq : ∀ index i, (cache.way index i).valid = (other.way index i).valid
  rank_eq : ∀ index i, (cache.way index i).rank = (other.way index i).rank
  undoAvailable_eq : cache.undoAvailable = other.undoAvailable
  entries_eq : cache.counters.entries.map ({ · with writebacks := 0 }) =
    other.counters.entries.map ({ · with writebacks := 0 })

theorem Transaction.placedAlike_of_asWriteThrough {transaction other : Transaction}
    (same : transaction.asWriteThrough = other.asWriteThrough) : transaction.PlacedAlike other := by
  cases transaction
  cases other
  simp only [asWriteThrough, mk.injEq] at same
  simp [PlacedAlike, same]

theorem Reply.placedAlike_of_asWriteThrough {reply other : Reply}
    (same : reply.asWriteThrough = other.asWriteThrough) : reply.PlacedAlike other := by
  cases reply with
  | accessed transaction =>
      cases other with
      | accessed other => exact Transaction.placedAlike_of_asWriteThrough (accessed.inj same)
      | _ => cases same
  | undone transaction =>
      cases other with
      | undone other =>
          have undone := undone.inj same
          cases transaction with
          | none =>
              rw [Option.map_none, eq_comm, Option.map_eq_none_iff] at undone
              rw [undone]
              exact .none
          | some transaction =>
              obtain ⟨again, rfl, alike⟩ := Option.map_eq_some_iff.1 undone.symm
              exact .some (Transaction.placedAlike_of_asWriteThrough alike.symm)
      | _ => cases same
  | configured config =>
      cases other with
      | configured other =>
          have fields := configured.inj same
          simp only [Config.asWriteThrough, Config.mk.injEq] at fields
          simp [PlacedAlike, fields]
      | _ => cases same
  | emptied | rejected | done =>
      cases other with
      | emptied | rejected | done => exact same
      | _ => cases same

namespace Cache

variable {cache other : Cache}

theorem way_asWriteThrough (index i : Nat) :
    cache.asWriteThrough.way index i = (cache.way index i).asWriteThrough := by
  rw [way, way, line_asWriteThrough, Line.way_asWriteThrough]

theorem entries_asWriteThrough : cache.asWriteThrough.counters.entries =
    cache.counters.entries.map Counters.asWriteThrough := List.map_reverse.symm

theorem placedAlike_of_asWriteThrough (same : cache.asWriteThrough = other.asWriteThrough) :
    cache.PlacedAlike other := by
  have ways (index i : Nat) :
      (cache.way index i).asWriteThrough = (other.way index i).asWriteThrough := by
    rw [← way_asWriteThrough, ← way_asWriteThrough, same]
  constructor
  · intro address
    rw [← contains_asWriteThrough, same, contains_asWriteThrough]
  · intro index
    have lines := congrArg (index ∈ ·.lines) same
    simpa [lines_asWriteThrough] using lines
  · intro index i
    rw [← Line.mem_asWriteThrough, ← line_asWriteThrough, same, line_asWriteThrough,
      Line.mem_asWriteThrough]
  · intro index i
    simpa only [Way.asWriteThrough] using congrArg Way.tag (ways index i)
  · intro index i
    simpa only [Way.asWriteThrough] using congrArg Way.valid (ways index i)
  · intro index i
    simpa only [Way.asWriteThrough] using congrArg Way.rank (ways index i)
  · have pending := congrArg (·.undoStack.length) same
    simpa [asWriteThrough, undoAvailable] using pending
  · have entries := congrArg (·.counters.entries.map ({ · with writebacks := 0 })) same
    simp only [entries_asWriteThrough, List.map_map] at entries
    exact entries

/-- Caches that were built alike but for their write policies place every block alike, whatever is
done to both of them. -/
theorem placedAlike_run {config : Config} {policy : WritePolicy} {source : RandomSource}
    (built : Cache.new config source = .ok cache)
    (builtOther : Cache.new { config with writePolicy := policy } source = .ok other)
    (operations : List Operation) :
    List.Forall₂ Reply.PlacedAlike (cache.run operations).1 (other.run operations).1 ∧
      (cache.run operations).2.1.PlacedAlike (other.run operations).2.1 := by
  have same : cache.asWriteThrough = other.asWriteThrough := by
    obtain ⟨-, rfl⟩ := new_eq_ok_iff.1 built
    obtain ⟨-, rfl⟩ := new_eq_ok_iff.1 builtOther
    rfl
  obtain ⟨replies, after⟩ := run_congr same operations
  rw [← List.forall₂_eq_eq_eq, List.forall₂_map_left_iff, List.forall₂_map_right_iff] at replies
  exact ⟨replies.imp fun _ _ => Reply.placedAlike_of_asWriteThrough, placedAlike_of_asWriteThrough after⟩

/-- One line of two ways. Under write-back the eviction of a dirty way is undone, and a setting is
refused before another one empties the cache. -/
theorem placedAlike_run_two_ways :
    let config : Config := { blockBits := 0, lineBits := 0, wayBits := 1 }
    let forwarding : Config := { config with writePolicy := .writeThrough }
    let cache : Cache := { config }
    let other : Cache := { config := forwarding }
    let operations : List Operation := [.access 0 .write, .access 4 .read, .access 8 .read, .undo,
      .set (.lineBits 31), .setUndoDepth 1, .access 8 .write, .set (.writeAllocation .noWriteAllocate),
      .access 0 .write]
    (Cache.new config = .ok cache ∧ Cache.new forwarding = .ok other) ∧
      (cache.run operations).1 ≠ (other.run operations).1 ∧
      List.Forall₂ Reply.PlacedAlike (cache.run operations).1 (other.run operations).1 ∧
        (cache.run operations).2.1.PlacedAlike (other.run operations).2.1 := by
  intro config forwarding cache other operations
  have built : Cache.new config = .ok cache := rfl
  have builtOther : Cache.new forwarding = .ok other := rfl
  exact ⟨⟨built, builtOther⟩, by decide, placedAlike_run built builtOther operations⟩

end Cache

end SetAssoc
