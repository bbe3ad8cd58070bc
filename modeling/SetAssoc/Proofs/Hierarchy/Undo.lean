import SetAssoc.Proofs.Hierarchy.Journal
import SetAssoc.Proofs.Hierarchy.Run

/-!
# Undoing accesses of a hierarchy is exact

The history of a hierarchy lines up with the undo stacks of its levels, although each level sees
only some of the accesses.
-/

namespace SetAssoc.Hierarchy

def Agrees (hierarchy other : Hierarchy) : Prop :=
  ∀ level, Option.Rel Cache.Agrees (hierarchy.level? level) (other.level? level)

variable {hierarchy : Hierarchy} {level : Level} {cache : Cache} {entries journal : List Entry}

/-! ## Newest records -/

theorem map_some_recordsAt (recorded : ∀ entry ∈ entries,
      ((entry.record? level).isSome = true ↔ level.index < entry.depth)) :
    (recordsAt level entries).map some =
      (entries.filter (level.index < ·.depth)).map (·.record? level) := by
  induction entries with
  | nil => rfl
  | cons entry older ih =>
      have older := ih fun entry mem => recorded entry (List.mem_cons_of_mem _ mem)
      have visited := recorded entry List.mem_cons_self
      cases record : entry.record? level with
      | some newest =>
          rw [record] at visited
          rw [recordsAt_cons_of_some record, List.filter_cons_of_pos (by simpa using visited.1 rfl),
            List.map_cons, List.map_cons, older, record]
      | none =>
          rw [record] at visited
          have unvisited : ¬ level.index < entry.depth := fun lower =>
            Bool.false_ne_true (visited.2 lower)
          rw [recordsAt_cons_of_none record, List.filter_cons_of_neg (by simpa using unvisited), older]

theorem Aligned.take_undoStack (aligned : hierarchy.Aligned entries)
    (found : hierarchy.level? level = some cache) :
    let count := hierarchy.history.countP (level.index < ·)
    count ≤ cache.undoStack.length ∧
      (cache.undoStack.take count).map some =
        (entries.filter (level.index < ·.depth)).map (·.record? level) := by
  intro count
  have records := map_some_recordsAt fun entry mem => aligned.recorded_iff entry mem level
  have length : (recordsAt level entries).length = count := by
    have := congrArg List.length records
    rwa [List.length_map, List.length_map, ← List.countP_eq_length_filter,
      ← Function.comp_def (fun depth => decide (level.index < depth)) Entry.depth, ← List.countP_map,
      ← aligned.history_eq] at this
  have newest := aligned.records level cache found
  refine ⟨length ▸ newest.length_le, ?_⟩
  rw [← records, ← length, ← List.prefix_iff_eq_take.1 newest]

/-! ## Exactness -/

theorem Sound.undoMany_accessAll (sound : hierarchy.Sound) (first : hierarchy.isEnabled .l1 = true)
    (requests : List Request) (bound : requests.length ≤ hierarchy.undoDepth) :
    let performed := hierarchy.accessAll requests
    let undone := performed.2.undoMany requests.length
    undone.1.map (Option.map (·.depth)) = (depths performed.1).reverse.map some ∧
      undone.2.Agrees hierarchy := by
  intro performed undone
  have length : (depths performed.1).reverse.length = requests.length := by
    rw [List.length_reverse, depths, List.length_map, length_accessAll]
  have history : performed.2.history.take requests.length = (depths performed.1).reverse := by
    rw [sound.history_accessAll first, List.take_take, Nat.min_eq_left bound]
    exact List.take_left' length
  have enough : requests.length ≤ performed.2.history.length := by
    have shortest := congrArg List.length history
    rw [List.length_take, length] at shortest
    omega
  have result := undone_undoMany enough
  refine ⟨result.depths_eq.trans (congrArg _ history), fun level => ?_⟩
  rw [result.level?_eq, history, level?_accessAll, Option.map_map]
  cases found : hierarchy.level? level with
  | none => exact .none
  | some cache =>
      -- the level undoes as many accesses as it saw
      have count : (depths performed.1).reverse.countP (level.index < ·) =
          (hierarchy.reaching level requests).length := by
        rw [List.countP_reverse, length_reaching]
      have depth : (hierarchy.reaching level requests).length ≤ cache.undoDepth := by
        rw [sound.undoDepth_eq level cache found]
        exact Nat.le_trans (hierarchy.length_reaching_le requests level) bound
      have restored := (sound.reachable level cache found).sound.undoMany_accessAll _ depth
      rw [Option.map_some, Function.comp_apply, count]
      exact .some restored.1

/-- The history lists the depths of the pending accesses, and each level can undo its own share. -/
structure LinesUp (hierarchy : Hierarchy) (pending : List Entry) : Prop where
  history_le : hierarchy.history.length ≤ hierarchy.undoDepth
  history_eq : hierarchy.history = pending.map (·.depth)
  depth_mem : ∀ depth ∈ hierarchy.history,
    1 ≤ depth ∧ depth ≤ (Level.all.filter hierarchy.isEnabled).length
  records : ∀ level cache, hierarchy.level? level = some cache →
    let count := hierarchy.history.countP (level.index < ·)
    count ≤ cache.undoStack.length ∧
      (cache.undoStack.take count).map some =
        (pending.filter (level.index < ·.depth)).map (·.record? level)

def UndoesExactly (hierarchy : Hierarchy) : Prop :=
  (∃ level, hierarchy.isEnabled level = true) →
    ∀ (requests : List Request) (count : Nat), count ≤ min requests.length hierarchy.undoDepth →
      let performed := hierarchy.accessAll requests
      let undone := performed.2.undoMany count
      undone.1.map (Option.map (·.depth)) =
          (performed.1.reverse.take count).map (fun outcome => some outcome.visits.length) ∧
        undone.2.Agrees (hierarchy.accessAll (requests.take (requests.length - count))).2

theorem Recorded.linesUp (recorded : Recorded hierarchy journal) :
    hierarchy.LinesUp (journal.take hierarchy.history.length) where
  history_le := recorded.reachable.sound.history_le
  history_eq := recorded.aligned.history_eq
  depth_mem depth mem := by
    have aligned := recorded.aligned
    rw [aligned.history_eq, List.mem_map] at mem
    obtain ⟨entry, mem, rfl⟩ := mem
    rw [← List.countP_eq_length_filter]
    exact ⟨aligned.depth_pos entry mem, aligned.depth_le entry mem⟩
  records _ _ := recorded.aligned.take_undoStack

theorem Sound.undoesExactly (sound : hierarchy.Sound) : hierarchy.UndoesExactly := by
  rintro ⟨level, enabled⟩ requests count bound performed undone
  have enough : count ≤ requests.length := by omega
  obtain ⟨length, final, newest⟩ := hierarchy.accessAll_last requests enough
  let before := requests.take (requests.length - count)
  have first : (hierarchy.accessAll before).2.isEnabled .l1 = true := by
    rw [isEnabled_accessAll]
    exact sound.isEnabled_first enabled
  obtain ⟨depths_eq, agrees⟩ := (sound.accessAll before).undoMany_accessAll first
    (requests.drop (requests.length - count)) (by
      rw [undoDepth_accessAll, length]
      omega)
  rw [length, ← final] at depths_eq agrees
  refine ⟨?_, agrees⟩
  rw [depths_eq, newest, depths, ← List.map_reverse, List.map_map]
  rfl

/-- Every reachable hierarchy has a journal, and its history lines up with the undo stacks of its
levels: the newest records of each level are those of the newest accesses that visited it. -/
theorem Reachable.lines_up (reachable : hierarchy.Reachable) :
    (∃ journal, Recorded hierarchy journal) ∧
      (∀ journal, Recorded hierarchy journal →
        hierarchy.LinesUp (journal.take hierarchy.history.length)) ∧
      hierarchy.UndoesExactly :=
  ⟨reachable.recorded, fun _ recorded => recorded.linesUp, reachable.sound.undoesExactly⟩

/-- Two levels, the history cut while it holds accesses of both, then three more accesses. -/
theorem lines_up_two_levels :
    let operations : List Operation :=
      [.enable .l1 { blockBits := 0, lineBits := 0, wayBits := 0 },
        .enable .l2 { blockBits := 0, lineBits := 0, wayBits := 1 },
        .access 0 .read, .access 4 .write, .access 4 .read, .setUndoDepth 2, .undo]
    let hierarchy := (Hierarchy.run {} operations).2.1
    let journal := journalAfterAll {} [] operations
    let requests : List Request := [⟨.read, 8⟩, ⟨.write, 8⟩, ⟨.read, 0⟩]
    (hierarchy.Reachable ∧ Recorded hierarchy journal ∧ hierarchy.isEnabled .l1 = true ∧
      2 ≤ min requests.length hierarchy.undoDepth) ∧
    hierarchy.LinesUp (journal.take hierarchy.history.length) ∧
      let performed := hierarchy.accessAll requests
      let undone := performed.2.undoMany 2
      undone.1.map (Option.map (·.depth)) =
          (performed.1.reverse.take 2).map (fun outcome => some outcome.visits.length) ∧
        undone.2.Agrees (hierarchy.accessAll (requests.take (requests.length - 2))).2 := by
  intro operations hierarchy journal requests
  have reachable : hierarchy.Reachable := Reachable.new.run operations
  have recorded : Recorded hierarchy journal := Recorded.new.run operations
  have enabled : hierarchy.isEnabled .l1 = true := by decide
  have bound : 2 ≤ min requests.length hierarchy.undoDepth := by decide
  obtain ⟨-, aligned, undo⟩ := reachable.lines_up
  exact ⟨⟨reachable, recorded, enabled, bound⟩, aligned journal recorded,
    undo ⟨.l1, enabled⟩ requests 2 bound⟩

end SetAssoc.Hierarchy
