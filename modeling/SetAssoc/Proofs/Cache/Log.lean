import SetAssoc.Proofs.Cache.Counters
import SetAssoc.Proofs.Cache.Reachable

/-!
# The log of a cache

The log holds the transactions of the accesses that survive, the newest first. It follows from the
replies of a cache alone, and yet it determines the contents, the counters and what can be undone.
-/

namespace SetAssoc

open Function (update update_self update_of_ne)

def logAfter (log : List Transaction) : Reply → List Transaction
  | .accessed transaction => transaction :: log
  | .undone (some _) => log.tail
  | .emptied | .configured _ => []
  | .undone none | .rejected _ | .done => log

def logOf (replies : List Reply) : List Transaction := replies.foldl logAfter []

/-! ## Replaying transactions -/

def Transaction.stored (transaction : Transaction) (config : Config) (previous : Way) : Way :=
  let way := if transaction.tagChanged then .loaded transaction.location.tag else previous
  if transaction.kind.isWrite && config.writePolicy == .writeBack then
    way.markDirty transaction.location.block
  else
    way

namespace Contents

def record (config : Config) (contents : Contents) (transaction : Transaction) : Contents :=
  let line := transaction.location.line
  match transaction.way with
  | some way =>
      update contents line
        (Ways.store config (contents line) way (transaction.stored config (contents line way)))
  | none => contents

def ofLog (config : Config) : List Transaction → Contents
  | [] => fun _ _ => Way.empty
  | transaction :: older => (ofLog config older).record config transaction

def undoRecord (contents : Contents) (transaction : Transaction) : UndoRecord where
  transaction
  previous :=
    match transaction.way with
    | some way => contents transaction.location.line way
    | none => .empty

def undoRecords (config : Config) : List Transaction → List UndoRecord
  | [] => []
  | transaction :: older =>
      (ofLog config older).undoRecord transaction :: undoRecords config older

variable {config : Config} {contents : Contents}

theorem rewind_record (geometry : config.Valid) (sound : contents.Sound config)
    (transaction : Transaction) :
    (contents.record config transaction).rewind config (contents.undoRecord transaction) =
      contents := by
  cases resolved : transaction.way with
  | none => simp only [record, rewind, undoRecord, resolved]
  | some way =>
      simp only [record, rewind, undoRecord, resolved, update_self, Function.update_idem]
      rw [(sound transaction.location.line).withdraw_store geometry, Function.update_eq_self]

end Contents

structure Transaction.Follows (transaction : Transaction) (config : Config) (contents : Contents) :
    Prop where
  hit : transaction.isHit = true → ∃ way, transaction.way = some way ∧
    (contents transaction.location.line way).holds transaction.location.tag = true
  miss : transaction.isHit = false →
    ∀ way, (contents transaction.location.line way).holds transaction.location.tag = false
  bypass : transaction.way = none → transaction.kind = .write ∧ transaction.isWriteback = true
  tagChanged_eq : transaction.tagChanged = (transaction.way.isSome && !transaction.isHit)
  becameValid_eq : transaction.becameValid = (transaction.tagChanged && transaction.way.all fun way =>
    !(contents transaction.location.line way).valid)
  isWriteback_eq : ∀ way, transaction.way = some way →
    transaction.isWriteback =
      (transaction.kind.isWrite && config.writePolicy == .writeThrough ||
        transaction.tagChanged && (contents transaction.location.line way).valid &&
          (contents transaction.location.line way).dirty)

/-- Every transaction of the log follows the contents that the older ones describe. -/
inductive Logged (config : Config) : List Transaction → Prop where
  | nil : Logged config []
  | cons {transaction : Transaction} {older : List Transaction} (logged : Logged config older)
      (sound : (Contents.ofLog config older).Sound config)
      (follows : transaction.Follows config (Contents.ofLog config older)) :
      Logged config (transaction :: older)

namespace Logged

variable {config : Config} {transaction : Transaction} {newer older : List Transaction}

theorem suffix (logged : Logged config (newer ++ older)) : Logged config older := by
  induction newer with
  | nil => exact logged
  | cons transaction newer ih =>
      cases logged with
      | cons logged _ _ => exact ih logged

theorem earlier (logged : Logged config (newer ++ transaction :: older)) : Logged config older := by
  cases logged.suffix with
  | cons logged _ _ => exact logged

theorem sound (logged : Logged config (newer ++ transaction :: older)) :
    (Contents.ofLog config older).Sound config := by
  cases logged.suffix with
  | cons _ sound _ => exact sound

theorem follows (logged : Logged config (newer ++ transaction :: older)) :
    transaction.Follows config (Contents.ofLog config older) := by
  cases logged.suffix with
  | cons _ _ follows => exact follows

end Logged

namespace Cache

namespace Sound

variable {cache : Cache}

theorem follows_access (sound : cache.Sound) (address : UInt32) (kind : AccessKind) :
    (cache.access address kind).1.Follows cache.config cache.way := by
  rw [transaction_access]
  cases placed : cache.placement? address kind with
  | none =>
      obtain ⟨miss, bypass⟩ := Config.place_eq_none_iff.1 placed
      refine ⟨?_, fun _ => miss, fun _ => ⟨?_, ?_⟩, rfl, rfl, ?_⟩
      · intro hit
        cases hit
      · cases kind with
        | read => cases bypass
        | write => rfl
      · simp [Transaction.ofPlacement]
      · intro way resolved
        cases resolved
  | some placement =>
      have suits := sound.suits placed
      have previous : placement.previous = cache.way (cache.location address).line placement.way :=
        suits.previous_eq
      refine ⟨fun hit => ⟨placement.way, rfl, (suits.hit hit).2⟩, fun miss => (suits.fill miss).2.1,
        ?_, rfl, ?_, ?_⟩
      · intro bypass
        cases bypass
      · simp only [Transaction.ofPlacement, Placement.becameValid, Option.any_some, Option.map_some,
          Option.all_some, previous]
        rfl
      · intro way resolved
        cases resolved
        simp only [Transaction.ofPlacement, Placement.evictsDirty, Option.any_some, Option.all_some,
          previous]
        rfl

theorem way_access (sound : cache.Sound) (address : UInt32) (kind : AccessKind) :
    (cache.access address kind).2.way =
      Contents.record cache.config cache.way (cache.access address kind).1 := by
  rw [transaction_access]
  cases placed : cache.placement? address kind with
  | none => exact way_access_of_none placed
  | some placement =>
      have suits := sound.suits placed
      rw [sound.way_access_of_some placed]
      have stored : placement.stored cache.config kind (cache.location address).block =
          (Transaction.ofPlacement cache.config cache.layout (wordAddress address) kind
            (some placement)).stored cache.config
              (cache.way (cache.location address).line placement.way) := by
        cases hit : placement.isHit with
        | true =>
            simp only [Placement.stored, Transaction.stored, Transaction.ofPlacement, (suits.hit hit).1,
              Option.any_some, hit]
            rfl
        | false =>
            simp only [Placement.stored, Transaction.stored, Transaction.ofPlacement, (suits.fill hit).1,
              Option.any_some, hit]
            rfl
      rw [stored]
      rfl

end Sound

/-! ## Operations and the log -/

structure Told (cache : Cache) (log : List Transaction) : Prop where
  sound : cache.Sound
  logged : Logged cache.config log
  way_eq : cache.way = Contents.ofLog cache.config log
  counters_eq : cache.counters = CounterLog.ofLog log
  undoStack_prefix : cache.undoStack <+: Contents.undoRecords cache.config log

variable {cache : Cache} {log : List Transaction}

theorem told_of_empty (sound : cache.Sound) (lines : cache.lines = ∅) (counters : cache.counters = {})
    (stack : cache.undoStack = []) : cache.Told [] where
  sound := sound
  logged := .nil
  way_eq := funext (way_of_empty lines)
  counters_eq := counters
  undoStack_prefix := by
    rw [stack]
    exact List.nil_prefix

theorem told_new {config : Config} {source : RandomSource}
    (built : Cache.new config source = .ok cache) : cache.Told [] := by
  have sound := sound_new built
  obtain ⟨-, rfl⟩ := new_eq_ok_iff.1 built
  exact told_of_empty sound rfl rfl rfl

namespace Told

theorem access (told : cache.Told log) (address : UInt32) (kind : AccessKind) :
    (cache.access address kind).2.Told ((cache.access address kind).1 :: log) where
  sound := told.sound.access address kind
  logged := by
    have follows := told.sound.follows_access address kind
    have sound := told.sound.rewindable.sound
    rw [told.way_eq] at follows sound
    exact .cons told.logged sound follows
  way_eq := by
    rw [told.sound.way_access, told.way_eq]
    rfl
  counters_eq := congrArg (·.push (cache.access address kind).1) told.counters_eq
  undoStack_prefix := by
    have record : cache.undoRecord address kind =
        (Contents.ofLog cache.config log).undoRecord (cache.access address kind).1 := by
      rw [← told.way_eq]
      rfl
    rw [told.sound.undoStack_access, record]
    exact (List.take_prefix _ _).trans ((List.prefix_cons_inj _).2 told.undoStack_prefix)

theorem undo (told : cache.Told log) :
    cache.undo.2.Told (logAfter log (.undone cache.undo.1)) := by
  cases stack : cache.undoStack with
  | nil =>
      rw [undo_of_nil stack]
      exact told
  | cons record rest =>
      have records := told.undoStack_prefix
      rw [stack] at records
      rw [undo_fst_of_cons stack]
      -- the newest record is that of the newest transaction
      cases told.logged with
      | nil => exact absurd records.length_le (Nat.not_succ_le_zero _)
      | @cons transaction older logged sound follows =>
          obtain ⟨rfl, pending⟩ := List.cons_prefix_cons.1 records
          refine ⟨told.sound.undo, ?_, ?_, ?_, ?_⟩
          · rw [config_undo]
            exact logged
          · rw [told.sound.way_undo stack, config_undo, told.way_eq]
            exact Contents.rewind_record told.sound.geometry sound transaction
          · rw [counters_undo_of_cons stack, told.counters_eq]
            rfl
          · rw [undoStack_undo, config_undo, stack]
            exact pending

theorem perform (told : cache.Told log) (operation : Operation) :
    (cache.perform operation).2.Told (logAfter log (cache.perform operation).1) := by
  cases operation with
  | access address kind => exact told.access address kind
  | undo =>
      rw [perform_undo]
      exact told.undo
  | setUndoDepth depth =>
      exact ⟨told.sound.setUndoDepth depth, told.logged, told.way_eq, told.counters_eq,
        (List.take_prefix _ _).trans told.undoStack_prefix⟩
  | reset => exact told_of_empty told.sound.reset rfl rfl rfl
  | set setting =>
      obtain ⟨accepted, performed⟩ | ⟨-, error, performed⟩ := cache.perform_set_cases setting
      · rw [performed]
        exact told_of_empty (told.sound.reconfigure accepted) rfl rfl rfl
      · rw [performed]
        exact told
  | subscribe observer =>
      exact ⟨told.sound.subscribe observer, told.logged, told.way_eq, told.counters_eq,
        told.undoStack_prefix⟩

theorem run (told : cache.Told log) (operations : List Operation) :
    (cache.run operations).2.1.Told ((cache.run operations).1.foldl logAfter log) := by
  induction operations generalizing cache log with
  | nil => exact told
  | cons operation rest ih => exact ih (told.perform operation)

end Told

end Cache

end SetAssoc
