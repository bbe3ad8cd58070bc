import SetAssoc.Proofs.Hierarchy.Sound

/-!
# The journal of a hierarchy

The journal lists the accesses that were not taken back, the newest first, each with the undo
records that it left behind. No hierarchy keeps it, but the history and the undo stacks of the
levels are all in line with it.
-/

namespace SetAssoc.Hierarchy

structure Entry where
  depth : Nat
  record? : Level → Option UndoRecord

def entry (hierarchy : Hierarchy) (address : UInt32) (kind : AccessKind) : Entry where
  depth := hierarchy.reach address kind
  record? level :=
    if level ∈ (hierarchy.access address kind).1.visits.map (·.level) then
      (hierarchy.level? level).map (·.undoRecord address kind)
    else
      none

/-- The journal after an operation: an access that visits a level is added in front, and an undo
removes the access that it takes back. -/
def journalAfter (hierarchy : Hierarchy) (journal : List Entry) : Operation → List Entry
  | .access address kind =>
      if hierarchy.reach address kind = 0 then journal else hierarchy.entry address kind :: journal
  | .undo => if hierarchy.undo.1.isSome then journal.tail else journal
  | _ => journal

def journalAfterAll (hierarchy : Hierarchy) (journal : List Entry) : List Operation → List Entry
  | [] => journal
  | operation :: rest =>
      (hierarchy.perform operation).2.journalAfterAll (hierarchy.journalAfter journal operation) rest

/-- The reachable hierarchies, each with a journal of the run that led to it. -/
inductive Recorded : Hierarchy → List Entry → Prop where
  | new : Recorded {} []
  | perform {hierarchy : Hierarchy} {journal : List Entry} (recorded : Recorded hierarchy journal)
      (operation : Operation) :
      Recorded (hierarchy.perform operation).2 (hierarchy.journalAfter journal operation)

def recordsAt (level : Level) (entries : List Entry) : List UndoRecord :=
  entries.filterMap fun entry => entry.record? level

structure Aligned (hierarchy : Hierarchy) (entries : List Entry) : Prop where
  history_eq : hierarchy.history = entries.map (·.depth)
  depth_pos : ∀ entry ∈ entries, 1 ≤ entry.depth
  depth_le : ∀ entry ∈ entries, entry.depth ≤ Level.all.countP hierarchy.isEnabled
  recorded_iff : ∀ entry ∈ entries, ∀ level,
    (entry.record? level).isSome = true ↔ level.index < entry.depth
  records : ∀ level cache, hierarchy.level? level = some cache →
    recordsAt level entries <+: cache.undoStack

variable {hierarchy : Hierarchy} {address : UInt32} {kind : AccessKind} {level : Level}
  {cache : Cache} {entries journal : List Entry}

/-! ## The entry of an access -/

theorem record?_entry_of_lt (visited : level.index < hierarchy.reach address kind)
    (found : hierarchy.level? level = some cache) :
    (hierarchy.entry address kind).record? level = some (cache.undoRecord address kind) := by
  refine (if_pos ((hierarchy.mem_levels_visits address kind level).2 visited)).trans ?_
  rw [found, Option.map_some]

theorem record?_entry_of_le (unvisited : hierarchy.reach address kind ≤ level.index) :
    (hierarchy.entry address kind).record? level = none := by
  refine if_neg fun mem => ?_
  have := (hierarchy.mem_levels_visits address kind level).1 mem
  omega

theorem isSome_record?_entry : ((hierarchy.entry address kind).record? level).isSome = true ↔
    level.index < hierarchy.reach address kind := by
  rcases Nat.lt_or_ge level.index (hierarchy.reach address kind) with visited | unvisited
  · obtain ⟨cache, found⟩ := isEnabled_eq_true_iff.1
      (hierarchy.isEnabled_of_lt_reach address kind visited)
    rw [record?_entry_of_lt visited found]
    exact iff_of_true rfl visited
  · rw [record?_entry_of_le unvisited]
    exact iff_of_false (by decide) (by omega)

/-! ## The records of a level -/

theorem recordsAt_cons_of_some {entry : Entry} {record : UndoRecord}
    (recorded : entry.record? level = some record) (entries : List Entry) :
    recordsAt level (entry :: entries) = record :: recordsAt level entries :=
  List.filterMap_cons_some recorded

theorem recordsAt_cons_of_none {entry : Entry} (unvisited : entry.record? level = none)
    (entries : List Entry) : recordsAt level (entry :: entries) = recordsAt level entries :=
  List.filterMap_cons_none unvisited

theorem recordsAt_take (level : Level) (entries : List Entry) (count : Nat) :
    recordsAt level (entries.take count) <+: (recordsAt level entries).take count := by
  rw [List.prefix_take_iff]
  refine ⟨(List.take_prefix count entries).filterMap _, ?_⟩
  exact Nat.le_trans (List.length_filterMap_le _ _) (List.length_take_le _ _)

/-! ## Operations keep everything aligned -/

theorem aligned_of_nil (cleared : hierarchy.history = []) : hierarchy.Aligned [] where
  history_eq := cleared
  depth_pos _ mem := absurd mem List.not_mem_nil
  depth_le _ mem := absurd mem List.not_mem_nil
  recorded_iff _ mem := absurd mem List.not_mem_nil
  records _ _ _ := List.nil_prefix

namespace Aligned

theorem access (aligned : hierarchy.Aligned entries) (sound : hierarchy.Sound)
    (visits : hierarchy.reach address kind ≠ 0) : (hierarchy.access address kind).2.Aligned
      ((hierarchy.entry address kind :: entries).take hierarchy.undoDepth) where
  history_eq := by
    rw [history_access, if_neg visits, aligned.history_eq, List.map_take, List.map_cons]
    rfl
  depth_pos entry mem := by
    rcases List.mem_cons.1 (List.mem_of_mem_take mem) with rfl | mem
    · exact Nat.pos_of_ne_zero visits
    · exact aligned.depth_pos entry mem
  depth_le entry mem := by
    rw [isEnabled_access]
    rcases List.mem_cons.1 (List.mem_of_mem_take mem) with rfl | mem
    · exact hierarchy.reach_le address kind
    · exact aligned.depth_le entry mem
  recorded_iff entry mem := by
    rcases List.mem_cons.1 (List.mem_of_mem_take mem) with rfl | mem
    · intro level
      exact isSome_record?_entry
    · exact aligned.recorded_iff entry mem
  records level after found := by
    rw [level?_access, Option.map_eq_some_iff] at found
    obtain ⟨cache, found, rfl⟩ := found
    have older := aligned.records level cache found
    refine (recordsAt_take _ _ _).trans ?_
    split
    · rename_i visited
      rw [recordsAt_cons_of_some (record?_entry_of_lt visited found),
        (sound.reachable level cache found).sound.undoStack_access, sound.undoDepth_eq level cache found]
      exact List.IsPrefix.take ((List.prefix_cons_inj _).2 older) _
    · rename_i unvisited
      rw [recordsAt_cons_of_none (record?_entry_of_le (Nat.le_of_not_lt unvisited))]
      exact (List.take_prefix _ _).trans older

theorem access_of_reach_eq_zero (aligned : hierarchy.Aligned entries)
    (nowhere : hierarchy.reach address kind = 0) : (hierarchy.access address kind).2.Aligned entries where
  history_eq := by
    rw [history_access, if_pos nowhere]
    exact aligned.history_eq
  depth_pos := aligned.depth_pos
  depth_le entry mem := by
    rw [isEnabled_access]
    exact aligned.depth_le entry mem
  recorded_iff := aligned.recorded_iff
  records level after found := by
    rw [level?_access, nowhere, Option.map_eq_some_iff] at found
    obtain ⟨cache, found, rfl⟩ := found
    exact aligned.records level cache found

theorem undo {entry : Entry} (aligned : hierarchy.Aligned (entry :: entries)) :
    hierarchy.undo.2.Aligned entries := by
  have pending : hierarchy.history = entry.depth :: entries.map (·.depth) := aligned.history_eq
  refine ⟨?_, ?_, ?_, ?_, ?_⟩
  · rw [history_undo, pending]
    rfl
  · exact fun entry mem => aligned.depth_pos entry (List.mem_cons_of_mem _ mem)
  · rw [isEnabled_undo]
    exact fun entry mem => aligned.depth_le entry (List.mem_cons_of_mem _ mem)
  · exact fun entry mem => aligned.recorded_iff entry (List.mem_cons_of_mem _ mem)
  · intro level after found
    rw [level?_undo pending, Option.map_eq_some_iff] at found
    obtain ⟨cache, found, rfl⟩ := found
    have records := aligned.records level cache found
    have visited := aligned.recorded_iff entry List.mem_cons_self level
    cases record : entry.record? level with
    | some newest =>
        rw [recordsAt_cons_of_some record] at records
        rw [if_pos (visited.1 (by rw [record]; rfl)), Cache.undoStack_undo]
        obtain ⟨older, stack⟩ := records
        rw [← stack]
        exact List.prefix_append _ _
    | none =>
        rw [recordsAt_cons_of_none record] at records
        rw [record] at visited
        rw [if_neg fun lower => Bool.false_ne_true (visited.2 lower)]
        exact records

theorem setUndoDepth (aligned : hierarchy.Aligned entries) (depth : Nat) :
    (hierarchy.setUndoDepth depth).Aligned (entries.take depth) where
  history_eq := by
    rw [Hierarchy.setUndoDepth, aligned.history_eq, List.map_take]
  depth_pos entry mem := aligned.depth_pos entry (List.mem_of_mem_take mem)
  depth_le entry mem := by
    rw [isEnabled_of_levels (hierarchy.level?_setUndoDepth depth)]
    exact aligned.depth_le entry (List.mem_of_mem_take mem)
  recorded_iff entry mem := aligned.recorded_iff entry (List.mem_of_mem_take mem)
  records level after found := by
    rw [level?_setUndoDepth, Option.map_eq_some_iff] at found
    obtain ⟨cache, found, rfl⟩ := found
    exact (recordsAt_take _ _ _).trans ((aligned.records level cache found).take _)

theorem subscribe (aligned : hierarchy.Aligned entries) {observer : Observer} {changed : Hierarchy}
    (accepted : hierarchy.subscribe level observer = .ok changed) : changed.Aligned entries := by
  obtain ⟨-, rfl⟩ := subscribe_eq_ok_iff.1 accepted
  have levels other := hierarchy.level?_update level other (·.subscribe observer)
  refine ⟨aligned.history_eq, aligned.depth_pos, ?_, aligned.recorded_iff, ?_⟩
  · rw [isEnabled_of_levels levels]
    exact aligned.depth_le
  · intro other after found
    rw [levels, Option.map_eq_some_iff] at found
    obtain ⟨cache, found, rfl⟩ := found
    have records := aligned.records other cache found
    split <;> exact records

end Aligned

theorem aligned_access (sound : hierarchy.Sound)
    (aligned : hierarchy.Aligned (journal.take hierarchy.history.length)) (address : UInt32)
    (kind : AccessKind) :
    let after := (hierarchy.access address kind).2
    after.Aligned ((hierarchy.journalAfter journal (.access address kind)).take after.history.length) := by
  intro after
  have history : after.history = _ := hierarchy.history_access address kind
  rw [history, journalAfter]
  by_cases nowhere : hierarchy.reach address kind = 0
  · rw [if_pos nowhere, if_pos nowhere]
    exact aligned.access_of_reach_eq_zero nowhere
  · rw [if_neg nowhere, if_neg nowhere, List.length_take, List.length_cons, ← List.take_take,
      List.take_succ_cons]
    exact aligned.access sound nowhere

theorem aligned_undo (aligned : hierarchy.Aligned (journal.take hierarchy.history.length)) :
    let after := hierarchy.undo.2
    after.Aligned ((hierarchy.journalAfter journal .undo).take after.history.length) := by
  intro after
  cases pending : hierarchy.history with
  | nil =>
      have unchanged : after = hierarchy := congrArg Prod.snd (undo_of_nil pending)
      rw [unchanged, pending]
      exact aligned_of_nil pending
  | cons depth history =>
      have popped : after.history = history := by
        rw [history_undo, pending]
        rfl
      have some : hierarchy.undo.1.isSome = true := by
        rw [← Option.isSome_map, undo_fst_of_cons pending, Option.isSome_some]
      rw [popped, journalAfter, if_pos some]
      rw [pending, List.length_cons] at aligned
      cases journal with
      | nil =>
          have := aligned.history_eq
          rw [pending] at this
          cases this
      | cons entry older => exact aligned.undo

theorem aligned_settle (aligned : hierarchy.Aligned (journal.take hierarchy.history.length))
    {result : Except HierarchyError Hierarchy}
    (keeps : ∀ changed, result = .ok changed →
      changed.Aligned (journal.take changed.history.length)) (reply : Reply) :
    let after := (hierarchy.settle reply result).2
    after.Aligned (journal.take after.history.length) :=
  settle_induction (motive := fun changed => changed.Aligned (journal.take changed.history.length))
    aligned keeps reply

theorem Sound.aligned_perform (sound : hierarchy.Sound)
    (aligned : hierarchy.Aligned (journal.take hierarchy.history.length)) (operation : Operation) :
    let after := (hierarchy.perform operation).2
    after.Aligned ((hierarchy.journalAfter journal operation).take after.history.length) := by
  have cleared {changed : Hierarchy} (history : changed.history = []) :
      changed.Aligned (journal.take changed.history.length) := by
    rw [history]
    exact aligned_of_nil history
  cases operation with
  | access address kind => exact aligned_access sound aligned address kind
  | undo => exact aligned_undo aligned
  | setUndoDepth depth =>
      have length : (hierarchy.setUndoDepth depth).history.length = min depth hierarchy.history.length :=
        List.length_take
      have kept := aligned.setUndoDepth depth
      rw [List.take_take, ← length] at kept
      exact kept
  | reset => exact cleared rfl
  | teardown level => exact cleared rfl
  | enable level config =>
      rw [perform_enable]
      refine aligned_settle aligned (fun changed accepted => ?_) _
      obtain ⟨-, cache, -, rfl⟩ := enable_eq_ok_iff.1 accepted
      exact cleared rfl
  | configure level config =>
      rw [perform_configure]
      refine aligned_settle aligned (fun changed accepted => ?_) _
      obtain ⟨cache, after, -, -, rfl⟩ := configure_eq_ok_iff.1 accepted
      exact cleared rfl
  | disable level =>
      rw [perform_disable]
      refine aligned_settle aligned (fun changed accepted => ?_) _
      obtain ⟨-, rfl⟩ := disable_eq_ok_iff.1 accepted
      split
      · exact cleared rfl
      · exact aligned
  | subscribe level observer =>
      rw [perform_subscribe]
      refine aligned_settle aligned (fun changed accepted => ?_) _
      have kept := aligned.subscribe accepted
      have history : changed.history = hierarchy.history := kept.history_eq.trans aligned.history_eq.symm
      rwa [history]

namespace Recorded

theorem reachable (recorded : Recorded hierarchy journal) : hierarchy.Reachable := by
  induction recorded with
  | new => exact .new
  | perform _ operation ih => exact ih.perform operation

theorem run (recorded : Recorded hierarchy journal) (operations : List Operation) :
    Recorded (hierarchy.run operations).2.1 (hierarchy.journalAfterAll journal operations) := by
  induction operations generalizing hierarchy journal with
  | nil => exact recorded
  | cons operation rest ih => exact ih (recorded.perform operation)

theorem aligned (recorded : Recorded hierarchy journal) :
    hierarchy.Aligned (journal.take hierarchy.history.length) := by
  induction recorded with
  | new => exact aligned_of_nil rfl
  | perform recorded operation ih => exact recorded.reachable.sound.aligned_perform ih operation

end Recorded

theorem Reachable.recorded (reachable : hierarchy.Reachable) :
    ∃ journal, Recorded hierarchy journal := by
  induction reachable with
  | new => exact ⟨[], .new⟩
  | perform _ operation ih =>
      obtain ⟨journal, recorded⟩ := ih
      exact ⟨_, recorded.perform operation⟩

end SetAssoc.Hierarchy
