import SetAssoc.Proofs.Cache.Log
import SetAssoc.Proofs.Cache.Undo
import SetAssoc.Proofs.Line.Materialization

/-!
# Created lines and ways can not be observed

An undo leaves behind the lines and ways that its access created, so equal contents may be stored in
different maps. Two caches that differ in nothing else can not be told apart by any operation.
-/

namespace SetAssoc.Cache

/-- Two caches that differ at most in which lines and ways were created. -/
structure Equivalent (cache other : Cache) : Prop where
  config_eq : cache.config = other.config
  undoDepth_eq : cache.undoDepth = other.undoDepth
  counters_eq : cache.counters = other.counters
  way_eq : ∀ line way, cache.way line way = other.way line way
  undoStack_eq : cache.undoStack = other.undoStack
  source_eq : cache.source = other.source
  observers_eq : cache.observers = other.observers

namespace Equivalent

variable {cache other : Cache}

theorem ways_eq (equivalent : cache.Equivalent other) : cache.way = other.way := by
  funext line way
  exact equivalent.way_eq line way

theorem reconfigure (equivalent : cache.Equivalent other) (config : Config) :
    (cache.reconfigure config).Equivalent (other.reconfigure config) where
  config_eq := rfl
  undoDepth_eq := equivalent.undoDepth_eq
  counters_eq := rfl
  way_eq line way := by rw [way_of_empty rfl, way_of_empty rfl]
  undoStack_eq := rfl
  source_eq := equivalent.source_eq
  observers_eq := equivalent.observers_eq

theorem set_eq (equivalent : cache.Equivalent other) (setting : Setting) :
    other.set setting =
      (cache.set setting).map fun _ => other.reconfigure (cache.config.change setting) := by
  rw [Cache.set, Cache.set, equivalent.config_eq]
  cases setting.isPolicy with
  | true => rfl
  | false => cases (other.config.change setting).validate <;> rfl

section

variable (equivalent : cache.Equivalent other) (sound : cache.Sound) (soundOther : other.Sound)

include equivalent sound soundOther

theorem location_eq (address : UInt32) : cache.location address = other.location address := by
  rw [sound.location_eq, soundOther.location_eq, equivalent.config_eq]

theorem contains_eq (address : UInt32) : cache.contains address = other.contains address := by
  rw [Bool.eq_iff_iff, contains_iff, contains_iff, equivalent.ways_eq,
    equivalent.location_eq sound soundOther]

theorem placement_eq (address : UInt32) (kind : AccessKind) :
    (cache.placement? address kind).map (·.choice) = (other.placement? address kind).map (·.choice) ∧
      (cache.access address kind).2.source = (other.access address kind).2.source := by
  have bounded := soundOther.bounded (cache.location address).line
  rw [← equivalent.config_eq] at bounded
  have placed := Config.choice_place_congr cache.source (sound.line (cache.location address).line)
    (sound.bounded _) bounded (congrFun equivalent.ways_eq _) (cache.location address).tag
    (kind.allocates cache.config.writeAllocation)
  have there : other.config.place other.source (other.line (other.location address).line)
      (other.location address).tag (kind.allocates other.config.writeAllocation) =
      cache.config.place cache.source (other.line (cache.location address).line)
        (cache.location address).tag (kind.allocates cache.config.writeAllocation) := by
    rw [equivalent.location_eq sound soundOther, equivalent.config_eq, equivalent.source_eq]
  refine ⟨?_, ?_⟩
  · rw [placement?, placement?, there]
    exact placed.1
  · exact placed.2.trans (congrArg Prod.snd there).symm

theorem transaction_eq (address : UInt32) (kind : AccessKind) :
    (cache.access address kind).1 = (other.access address kind).1 := by
  rw [transaction_access, transaction_access, sound.layout_eq, soundOther.layout_eq,
    ← equivalent.config_eq]
  exact Config.ofPlacement_congr _ _ kind (equivalent.placement_eq sound soundOther address kind).1

theorem access (address : UInt32) (kind : AccessKind) :
    (cache.access address kind).2.Equivalent (other.access address kind).2 := by
  have transaction := equivalent.transaction_eq sound soundOther address kind
  have ways : (cache.access address kind).2.way = (other.access address kind).2.way := by
    rw [sound.way_access, soundOther.way_access, transaction, equivalent.config_eq, equivalent.ways_eq]
  have record : cache.undoRecord address kind = other.undoRecord address kind := by
    rw [undoRecord, undoRecord, transaction, equivalent.location_eq sound soundOther,
      equivalent.ways_eq]
  refine ⟨equivalent.config_eq, equivalent.undoDepth_eq, ?_, ?_, ?_, ?_, equivalent.observers_eq⟩
  · rw [counters_access, counters_access, equivalent.counters_eq, transaction]
  · exact fun line way => congrFun (congrFun ways line) way
  · rw [sound.undoStack_access, soundOther.undoStack_access, record, equivalent.undoStack_eq,
      equivalent.undoDepth_eq]
  · exact (equivalent.placement_eq sound soundOther address kind).2

theorem undo :
    cache.undo.1 = other.undo.1 ∧ cache.undo.2.Equivalent other.undo.2 := by
  cases stack : cache.undoStack with
  | nil =>
      have stackOther := equivalent.undoStack_eq.symm.trans stack
      rw [undo_of_nil stack, undo_of_nil stackOther]
      exact ⟨rfl, equivalent⟩
  | cons record rest =>
      have stackOther := equivalent.undoStack_eq.symm.trans stack
      have ways : cache.undo.2.way = other.undo.2.way := by
        rw [sound.way_undo stack, soundOther.way_undo stackOther, equivalent.config_eq,
          equivalent.ways_eq]
      rw [undo_fst_of_cons stack, undo_fst_of_cons stackOther]
      refine ⟨rfl, ?_, ?_, ?_, ?_, ?_, ?_, ?_⟩
      · rw [config_undo, config_undo, equivalent.config_eq]
      · rw [undoDepth_undo, undoDepth_undo, equivalent.undoDepth_eq]
      · rw [counters_undo_of_cons stack, counters_undo_of_cons stackOther, equivalent.counters_eq]
      · exact fun line way => congrFun (congrFun ways line) way
      · rw [undoStack_undo, undoStack_undo, equivalent.undoStack_eq]
      · rw [source_undo, source_undo, equivalent.source_eq]
      · rw [observers_undo, observers_undo, equivalent.observers_eq]

theorem perform (operation : Operation) :
    (cache.perform operation).1 = (other.perform operation).1 ∧
      (cache.perform operation).2.Equivalent (other.perform operation).2 := by
  cases operation with
  | access address kind =>
      exact ⟨congrArg Reply.accessed (equivalent.transaction_eq sound soundOther address kind),
        equivalent.access sound soundOther address kind⟩
  | undo =>
      obtain ⟨transaction, after⟩ := equivalent.undo sound soundOther
      rw [perform_undo, perform_undo]
      exact ⟨congrArg Reply.undone transaction, after⟩
  | setUndoDepth depth =>
      refine ⟨rfl, equivalent.config_eq, rfl, equivalent.counters_eq, equivalent.way_eq, ?_,
        equivalent.source_eq, equivalent.observers_eq⟩
      exact congrArg (·.take depth) equivalent.undoStack_eq
  | reset =>
      have same := equivalent.reconfigure cache.config
      exact ⟨rfl, equivalent.config_eq, same.undoDepth_eq, rfl, same.way_eq, rfl, same.source_eq,
        same.observers_eq⟩
  | set setting =>
      rw [perform_set, perform_set, equivalent.set_eq setting]
      cases accepted : cache.set setting with
      | ok changed =>
          obtain ⟨-, rfl⟩ := set_eq_ok_iff.1 accepted
          exact ⟨rfl, equivalent.reconfigure _⟩
      | error error => exact ⟨rfl, equivalent⟩
  | subscribe observer =>
      refine ⟨rfl, equivalent.config_eq, equivalent.undoDepth_eq, equivalent.counters_eq,
        equivalent.way_eq, equivalent.undoStack_eq, equivalent.source_eq, ?_⟩
      exact congrArg (· ++ [observer]) equivalent.observers_eq

theorem step (operation : Operation) :
    (cache.step operation).reply = (other.step operation).reply ∧
      (cache.step operation).notices = (other.step operation).notices ∧
      (cache.step operation).cache.Equivalent (other.step operation).cache := by
  obtain ⟨reply, after⟩ := equivalent.perform sound soundOther operation
  refine ⟨reply, ?_, after⟩
  rw [notices_step, notices_step, emits, emits, reply, hitRate, hitRate, after.counters_eq,
    equivalent.observers_eq]

theorem run (operations : List Operation) :
    (cache.run operations).1 = (other.run operations).1 ∧
      (cache.run operations).2.2 = (other.run operations).2.2 ∧
      (cache.run operations).2.1.Equivalent (other.run operations).2.1 := by
  induction operations generalizing cache other with
  | nil => exact ⟨rfl, rfl, equivalent⟩
  | cons operation rest ih =>
      obtain ⟨reply, notices, after⟩ := equivalent.step sound soundOther operation
      obtain ⟨replies, later, final⟩ :=
        ih after (sound.perform operation) (soundOther.perform operation)
      refine ⟨?_, ?_, final⟩
      · exact congrArg₂ List.cons reply replies
      · exact congrArg₂ (· ++ ·) notices later

end

end Equivalent

/-! ## Where equivalent caches come from -/

theorem source_access_of_lru {cache : Cache} (lru : cache.config.replacement = .lru) (address : UInt32)
    (kind : AccessKind) : (cache.access address kind).2.source = cache.source := by
  rw [source_access]
  unfold Config.place Config.chooseWay Config.chooseWay?
  rw [lru]
  cases (cache.line (cache.location address).line).find? (cache.location address).tag with
  | some way => rfl
  | none => by_cases single : cache.config.ways = 1 <;> simp [single] <;> split <;> rfl

/-- An access that is undone again leaves behind what it created, and nothing else if it drew no
random word and pushed no older record out of the undo stack. -/
theorem Sound.equivalent_undo_access {cache : Cache} (sound : cache.Sound)
    (room : cache.undoStack.length < cache.undoDepth) (address : UInt32) (kind : AccessKind)
    (undrawn : (cache.access address kind).2.source = cache.source) :
    cache.Equivalent (cache.access address kind).2.undo.2 := by
  obtain ⟨agrees, -, -⟩ := sound.undoMany_accessAll [⟨kind, address⟩]
    (Nat.lt_of_le_of_lt (Nat.zero_le _) room)
  refine ⟨agrees.config_eq.symm, agrees.undoDepth_eq.symm, agrees.counters_eq.symm,
    fun line way => (agrees.way_eq line way).symm, ?_, ?_, ?_⟩
  · rw [undoStack_undo, sound.undoStack_access, List.take_of_length_le room]
    rfl
  · rw [source_undo, undrawn]
  · rw [observers_undo]
    rfl

/-! ## No operation tells them apart -/

structure Indistinguishable (cache other : Cache) : Prop where
  contains_eq : ∀ address, cache.contains address = other.contains address
  step_eq : ∀ operation,
    let step := cache.step operation
    let same := other.step operation
    step.reply = same.reply ∧
      step.reply.events step.cache.hitRate = same.reply.events same.cache.hitRate ∧
      step.notices = same.notices ∧ step.cache.Equivalent same.cache
  run_eq : ∀ operations,
    let (replies, after, notices) := cache.run operations
    let (sameReplies, sameAfter, sameNotices) := other.run operations
    replies = sameReplies ∧ notices = sameNotices ∧ after.Equivalent sameAfter

theorem Reachable.indistinguishable {cache other : Cache} (reachable : cache.Reachable)
    (reachableOther : other.Reachable) (equivalent : cache.Equivalent other) :
    cache.Indistinguishable other where
  contains_eq := equivalent.contains_eq reachable.sound reachableOther.sound
  step_eq operation := by
    obtain ⟨reply, notices, after⟩ :=
      equivalent.step reachable.sound reachableOther.sound operation
    refine ⟨reply, ?_, notices, after⟩
    rw [reply, hitRate, hitRate, after.counters_eq]
  run_eq := equivalent.run reachable.sound reachableOther.sound

theorem indistinguishable_two_ways :
    let cache : Cache := { config := { blockBits := 1, lineBits := 0, wayBits := 1 } }
    let other := (cache.access 8 .write).2.undo.2
    (cache.Reachable ∧ other.Reachable ∧ cache.Equivalent other) ∧
      (0 ∉ cache.lines ∧ 0 ∈ other.lines) ∧ cache.Indistinguishable other := by
  intro cache other
  have reachable : cache.Reachable := .new (show Cache.new cache.config default = .ok cache from rfl)
  have reachableOther : other.Reachable := (reachable.access 8 .write).undo
  have equivalent : cache.Equivalent other :=
    reachable.sound.equivalent_undo_access (by decide) 8 .write (source_access_of_lru rfl 8 .write)
  exact ⟨⟨reachable, reachableOther, equivalent⟩, by decide,
    reachable.indistinguishable reachableOther equivalent⟩

end SetAssoc.Cache
