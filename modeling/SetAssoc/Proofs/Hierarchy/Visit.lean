import Mathlib.Data.List.Nodup
import SetAssoc.Hierarchy.Operation

/-!
# What an operation does at each level

An access visits the levels from L1 down to some level, and acts on each of them as on a single
cache. Undoing it takes the newest access of each of these levels back.
-/

namespace SetAssoc

namespace Level

theorem mem_take_all (level : Level) (count : Nat) : level ∈ all.take count ↔ level.index < count := by
  rcases count with _ | _ | _ | count <;> cases level <;> simp [all, index]

theorem nodup_all : all.Nodup := by decide

end Level

namespace Hierarchy

/-! ## Presenting an access to some levels -/

section

variable {address : UInt32} {kind : AccessKind} {levels : Levels Cache} {cache : Cache} {level : Level}

theorem visit_of_none (below : List Level) (missing : levels.get? level = none) :
    visit address kind levels (level :: below) = ([], levels) := by
  rw [visit, missing]

theorem visit_of_hit (below : List Level) (found : levels.get? level = some cache)
    (hit : (cache.access address kind).1.isHit = true) :
    visit address kind levels (level :: below) =
      ([⟨level, (cache.access address kind).1⟩],
        levels.set level (some (cache.access address kind).2)) := by
  rw [visit, found]
  exact if_pos hit

theorem visit_of_miss (below : List Level) (found : levels.get? level = some cache)
    (miss : (cache.access address kind).1.isHit = false) :
    visit address kind levels (level :: below) =
      let rest := visit address kind (levels.set level (some (cache.access address kind).2)) below
      (⟨level, (cache.access address kind).1⟩ :: rest.1, rest.2) := by
  rw [visit, found]
  exact if_neg (ne_true_of_eq_false miss)

structure Visited (address : UInt32) (kind : AccessKind) (levels : Levels Cache)
    (order : List Level) (result : List LevelAccess × Levels Cache) : Prop where
  levels_eq : result.1.map (·.level) = order.take result.1.length
  transaction_eq : ∀ visit ∈ result.1, ∃ cache, levels.get? visit.level = some cache ∧
    visit.transaction = (cache.access address kind).1
  get?_eq : ∀ level, result.2.get? level =
    if level ∈ order.take result.1.length then
      (levels.get? level).map fun cache => (cache.access address kind).2
    else
      levels.get? level

theorem visited_visit {order : List Level} (nodup : order.Nodup) (levels : Levels Cache) :
    Visited address kind levels order (visit address kind levels order) := by
  induction order generalizing levels with
  | nil => exact ⟨rfl, fun _ mem => absurd mem List.not_mem_nil, fun _ => rfl⟩
  | cons first below ih =>
      obtain ⟨fresh, nodup⟩ := List.nodup_cons.1 nodup
      cases found : levels.get? first with
      | none =>
          rw [visit_of_none below found]
          exact ⟨rfl, fun _ mem => absurd mem List.not_mem_nil, fun _ => rfl⟩
      | some cache =>
          cases hit : (cache.access address kind).1.isHit with
          | true =>
              rw [visit_of_hit below found hit]
              refine ⟨rfl, ?_, ?_⟩
              · intro visit mem
                rw [List.mem_singleton.1 mem]
                exact ⟨cache, found, rfl⟩
              · intro level
                by_cases same : level = first
                · simp [same, found]
                · simp [same]
          | false =>
              rw [visit_of_miss below found hit]
              let after := levels.set first (some (cache.access address kind).2)
              have rest := ih nodup after
              -- the levels below are still as they were when the access gets to them
              have kept (level : Level) (mem : level ∈ below) :
                  after.get? level = levels.get? level := by
                rw [Levels.get?_set, if_neg]
                rintro rfl
                exact fresh mem
              refine ⟨?_, ?_, ?_⟩
              · exact congrArg (first :: ·) rest.levels_eq
              · intro visit mem
                rcases List.mem_cons.1 mem with rfl | mem
                · exact ⟨cache, found, rfl⟩
                · have below : visit.level ∈ below := by
                    apply List.mem_of_mem_take
                    rw [← rest.levels_eq]
                    exact List.mem_map_of_mem mem
                  rw [← kept _ below]
                  exact rest.transaction_eq visit mem
              · intro level
                rw [rest.get?_eq level]
                by_cases same : level = first
                · subst same
                  rw [if_neg fun mem => fresh (List.mem_of_mem_take mem)]
                  simp [after, found]
                · simp only [List.length_cons, List.take_succ_cons, List.mem_cons, same, false_or]
                  rw [Levels.get?_set, if_neg same]

theorem get?_retract {order : List Level} (nodup : order.Nodup) (levels : Levels Cache)
    (level : Level) : (retract levels order).2.get? level =
      if level ∈ order then (levels.get? level).map fun cache => cache.undo.2
      else levels.get? level := by
  induction order generalizing levels with
  | nil => rfl
  | cons first rest ih =>
      obtain ⟨fresh, nodup⟩ := List.nodup_cons.1 nodup
      cases found : levels.get? first with
      | none =>
          rw [retract, found, ih nodup levels]
          by_cases same : level = first
          · simp [same, fresh, found]
          · simp [same]
      | some cache =>
          rw [retract, found]
          change (retract (levels.set first (some cache.undo.2)) rest).2.get? level = _
          rw [ih nodup]
          by_cases same : level = first
          · simp [same, fresh, found]
          · simp [same]

end

theorem isEnabled_of_levels {hierarchy changed : Hierarchy} {change : Level → Cache → Cache}
    (levels : ∀ level, changed.level? level = (hierarchy.level? level).map (change level)) :
    changed.isEnabled = hierarchy.isEnabled := by
  funext level
  rw [isEnabled, levels, Option.isSome_map, isEnabled]

/-! ## Accesses -/

variable (hierarchy : Hierarchy) (address : UInt32) (kind : AccessKind)

theorem visited_access : Visited address kind hierarchy.levels Level.all
    ((hierarchy.access address kind).1.visits, (hierarchy.access address kind).2.levels) :=
  visited_visit Level.nodup_all hierarchy.levels

def reach : Nat := (hierarchy.access address kind).1.visits.length

theorem levels_visits : (hierarchy.access address kind).1.visits.map (·.level) =
    Level.all.take (hierarchy.reach address kind) :=
  (hierarchy.visited_access address kind).levels_eq

theorem mem_levels_visits (level : Level) :
    level ∈ (hierarchy.access address kind).1.visits.map (·.level) ↔
      level.index < hierarchy.reach address kind := by
  rw [levels_visits, Level.mem_take_all]

variable {hierarchy address kind} in
theorem transaction_of_mem_visits {visit : LevelAccess}
    (mem : visit ∈ (hierarchy.access address kind).1.visits) :
    ∃ cache, hierarchy.level? visit.level = some cache ∧
      visit.transaction = (cache.access address kind).1 :=
  (hierarchy.visited_access address kind).transaction_eq visit mem

theorem level?_access (level : Level) : (hierarchy.access address kind).2.level? level =
    (hierarchy.level? level).map fun cache =>
      if level.index < hierarchy.reach address kind then (cache.access address kind).2 else cache := by
  have visited := (hierarchy.visited_access address kind).get?_eq level
  simp only [Level.mem_take_all] at visited
  refine visited.trans ?_
  rw [level?, reach]
  split
  · rfl
  · exact Option.map_id'.symm

theorem isEnabled_access : (hierarchy.access address kind).2.isEnabled = hierarchy.isEnabled :=
  isEnabled_of_levels (hierarchy.level?_access address kind)

theorem undoDepth_access : (hierarchy.access address kind).2.undoDepth = hierarchy.undoDepth := rfl

theorem history_access : (hierarchy.access address kind).2.history =
    if hierarchy.reach address kind = 0 then hierarchy.history
    else (hierarchy.reach address kind :: hierarchy.history).take hierarchy.undoDepth := by
  have history : (hierarchy.access address kind).2.history =
      if (hierarchy.access address kind).1.visits.isEmpty then hierarchy.history
      else ((hierarchy.access address kind).1.visits.length :: hierarchy.history).take
        hierarchy.undoDepth := rfl
  rw [history, reach]
  cases (hierarchy.access address kind).1.visits <;> rfl

theorem isEnabled_of_lt_reach {level : Level} (visited : level.index < hierarchy.reach address kind) :
    hierarchy.isEnabled level = true := by
  obtain ⟨visit, mem, rfl⟩ := List.mem_map.1 ((hierarchy.mem_levels_visits address kind level).2 visited)
  obtain ⟨cache, found, -⟩ := transaction_of_mem_visits mem
  rw [isEnabled, found, Option.isSome_some]

theorem reach_pos (first : hierarchy.isEnabled .l1 = true) : 0 < hierarchy.reach address kind := by
  obtain ⟨cache, found⟩ := Option.isSome_iff_exists.1 first
  have found : hierarchy.levels.get? .l1 = some cache := found
  change 0 < (visit address kind hierarchy.levels (.l1 :: [.l2, .l3])).1.length
  cases hit : (cache.access address kind).1.isHit with
  | true =>
      rw [visit_of_hit _ found hit]
      exact Nat.one_pos
  | false =>
      rw [visit_of_miss _ found hit]
      exact Nat.succ_pos _

theorem reach_le : hierarchy.reach address kind ≤ Level.all.countP hierarchy.isEnabled := by
  have visited : (Level.all.take (hierarchy.reach address kind)).countP hierarchy.isEnabled =
      (Level.all.take (hierarchy.reach address kind)).length := by
    rw [List.countP_eq_length]
    intro level mem
    exact hierarchy.isEnabled_of_lt_reach address kind ((Level.mem_take_all _ _).1 mem)
  rw [← levels_visits, List.length_map, levels_visits] at visited
  rw [← show _ = hierarchy.reach address kind from visited]
  exact (List.take_sublist _ _).countP_le

/-! ## Undoing -/

variable {hierarchy} {depth : Nat} {history : List Nat}

theorem undo_of_nil (pending : hierarchy.history = []) : hierarchy.undo = (none, hierarchy) := by
  rw [undo, pending]

theorem undo_fst_of_cons (pending : hierarchy.history = depth :: history) :
    hierarchy.undo.1.map (·.depth) = some depth := by
  rw [undo, pending]
  rfl

theorem history_undo : hierarchy.undo.2.history = hierarchy.history.tail := by
  rw [undo]
  cases pending : hierarchy.history with
  | nil => exact pending
  | cons depth history => rfl

theorem undoDepth_undo : hierarchy.undo.2.undoDepth = hierarchy.undoDepth := by
  rw [undo]
  cases hierarchy.history <;> rfl

theorem level?_undo (pending : hierarchy.history = depth :: history) (level : Level) :
    hierarchy.undo.2.level? level =
      (hierarchy.level? level).map fun cache => if level.index < depth then cache.undo.2 else cache := by
  have nodup : (Level.all.take depth).reverse.Nodup :=
    List.nodup_reverse.2 (Level.nodup_all.sublist (List.take_sublist _ _))
  have retracted := get?_retract nodup hierarchy.levels level
  simp only [List.mem_reverse, Level.mem_take_all] at retracted
  rw [undo, pending]
  refine retracted.trans ?_
  rw [level?]
  split
  · rfl
  · exact Option.map_id'.symm

theorem isEnabled_undo : hierarchy.undo.2.isEnabled = hierarchy.isEnabled := by
  cases pending : hierarchy.history with
  | nil => rw [undo_of_nil pending]
  | cons depth history => exact isEnabled_of_levels (level?_undo pending)

end Hierarchy

end SetAssoc
