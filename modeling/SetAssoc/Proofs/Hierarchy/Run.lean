import SetAssoc.Proofs.Cache.Undo
import SetAssoc.Proofs.Hierarchy.Sound

/-!
# Runs of accesses and of undos

In a run of accesses each level sees those that get to it, and in a run of undos it takes back those
that had visited it. Otherwise the levels do not affect each other.
-/

namespace SetAssoc.Hierarchy

def accessAll (hierarchy : Hierarchy) : List Request → List Outcome × Hierarchy
  | [] => ([], hierarchy)
  | request :: rest =>
      let (outcome, hierarchy) := hierarchy.access request.address request.kind
      let (outcomes, hierarchy) := hierarchy.accessAll rest
      (outcome :: outcomes, hierarchy)

def undoMany (hierarchy : Hierarchy) : Nat → List (Option Reversal) × Hierarchy
  | 0 => ([], hierarchy)
  | count + 1 =>
      let (reversal, hierarchy) := hierarchy.undo
      let (reversals, hierarchy) := hierarchy.undoMany count
      (reversal :: reversals, hierarchy)

def reaching (hierarchy : Hierarchy) (level : Level) : List Request → List Request
  | [] => []
  | request :: rest =>
      let below := (hierarchy.access request.address request.kind).2.reaching level rest
      if level.index < hierarchy.reach request.address request.kind then request :: below else below

def depths (outcomes : List Outcome) : List Nat := outcomes.map fun outcome => outcome.visits.length

variable (hierarchy : Hierarchy) (request : Request) (requests : List Request) (level : Level)

/-! ## Accesses -/

theorem accessAll_cons : hierarchy.accessAll (request :: requests) =
    ((hierarchy.access request.address request.kind).1 ::
        ((hierarchy.access request.address request.kind).2.accessAll requests).1,
      ((hierarchy.access request.address request.kind).2.accessAll requests).2) := rfl

theorem accessAll_append (before after : List Request) : hierarchy.accessAll (before ++ after) =
    ((hierarchy.accessAll before).1 ++ ((hierarchy.accessAll before).2.accessAll after).1,
      ((hierarchy.accessAll before).2.accessAll after).2) := by
  induction before generalizing hierarchy with
  | nil => rfl
  | cons request rest ih => rw [List.cons_append, accessAll_cons, ih, accessAll_cons, List.cons_append]

theorem length_accessAll : (hierarchy.accessAll requests).1.length = requests.length := by
  induction requests generalizing hierarchy with
  | nil => rfl
  | cons request rest ih => rw [accessAll_cons, List.length_cons, ih, List.length_cons]

theorem accessAll_last {count : Nat} (bound : count ≤ requests.length) :
    let middle := (hierarchy.accessAll (requests.take (requests.length - count))).2
    let last := requests.drop (requests.length - count)
    last.length = count ∧ (hierarchy.accessAll requests).2 = (middle.accessAll last).2 ∧
      (hierarchy.accessAll requests).1.reverse.take count = (middle.accessAll last).1.reverse := by
  intro middle last
  have length : last.length = count := by
    rw [List.length_drop]
    omega
  have run : hierarchy.accessAll requests =
      ((hierarchy.accessAll (requests.take (requests.length - count))).1 ++ (middle.accessAll last).1,
        (middle.accessAll last).2) := by
    rw [← accessAll_append, List.take_append_drop]
  refine ⟨length, by rw [run], ?_⟩
  rw [run, List.reverse_append]
  exact List.take_left' (by rw [List.length_reverse, length_accessAll, length])

theorem depths_accessAll_cons : depths (hierarchy.accessAll (request :: requests)).1 =
    hierarchy.reach request.address request.kind ::
      depths ((hierarchy.access request.address request.kind).2.accessAll requests).1 := rfl

theorem undoDepth_accessAll : (hierarchy.accessAll requests).2.undoDepth = hierarchy.undoDepth := by
  induction requests generalizing hierarchy with
  | nil => rfl
  | cons request rest ih => exact ih _

theorem isEnabled_accessAll : (hierarchy.accessAll requests).2.isEnabled = hierarchy.isEnabled := by
  induction requests generalizing hierarchy with
  | nil => rfl
  | cons request rest ih => exact (ih _).trans (hierarchy.isEnabled_access _ _)

theorem level?_accessAll : (hierarchy.accessAll requests).2.level? level =
    (hierarchy.level? level).map fun cache =>
      (cache.accessAll (hierarchy.reaching level requests)).2 := by
  induction requests generalizing hierarchy with
  | nil => exact Option.map_id'.symm
  | cons request rest ih =>
      rw [accessAll_cons, ih, level?_access, Option.map_map, reaching]
      congr 1
      funext cache
      by_cases visited : level.index < hierarchy.reach request.address request.kind
      · simp only [Function.comp_apply, if_pos visited]
        rfl
      · simp only [Function.comp_apply, if_neg visited]

theorem length_reaching : (hierarchy.reaching level requests).length =
    (depths (hierarchy.accessAll requests).1).countP (level.index < ·) := by
  induction requests generalizing hierarchy with
  | nil => rfl
  | cons request rest ih =>
      rw [depths_accessAll_cons, reaching]
      by_cases visited : level.index < hierarchy.reach request.address request.kind
      · rw [if_pos visited, List.length_cons, ih, List.countP_cons_of_pos (by simpa using visited)]
      · rw [if_neg visited, ih, List.countP_cons_of_neg (by simpa using visited)]

theorem length_reaching_le : (hierarchy.reaching level requests).length ≤ requests.length := by
  rw [length_reaching]
  refine Nat.le_trans List.countP_le_length (Nat.le_of_eq ?_)
  rw [depths, List.length_map, length_accessAll]

variable {hierarchy}

theorem Sound.accessAll (sound : hierarchy.Sound) (requests : List Request) :
    (hierarchy.accessAll requests).2.Sound := by
  induction requests generalizing hierarchy with
  | nil => exact sound
  | cons request rest ih => exact ih (sound.access request.address request.kind)

theorem Sound.history_accessAll (sound : hierarchy.Sound) (first : hierarchy.isEnabled .l1 = true)
    (requests : List Request) : (hierarchy.accessAll requests).2.history =
      ((depths (hierarchy.accessAll requests).1).reverse ++ hierarchy.history).take
        hierarchy.undoDepth := by
  induction requests generalizing hierarchy with
  | nil => exact (List.take_of_length_le sound.history_le).symm
  | cons request rest ih =>
      have visits := hierarchy.reach_pos request.address request.kind first
      have after := ih (sound.access request.address request.kind) (by rwa [isEnabled_access])
      rw [accessAll_cons, after, history_access, if_neg (Nat.ne_of_gt visits), undoDepth_access,
        ← accessAll_cons, depths_accessAll_cons, List.reverse_cons, List.append_assoc,
        List.singleton_append]
      exact take_append_take _ _ _

/-! ## Undoing -/

theorem undoMany_succ (hierarchy : Hierarchy) (count : Nat) : hierarchy.undoMany (count + 1) =
    (hierarchy.undo.1 :: (hierarchy.undo.2.undoMany count).1,
      (hierarchy.undo.2.undoMany count).2) := rfl

structure Undone (hierarchy : Hierarchy) (count : Nat) (result : List (Option Reversal) × Hierarchy) :
    Prop where
  depths_eq : result.1.map (Option.map (·.depth)) = (hierarchy.history.take count).map some
  level?_eq : ∀ level, result.2.level? level = (hierarchy.level? level).map fun cache =>
    (cache.undoMany ((hierarchy.history.take count).countP (level.index < ·))).2

theorem undone_undoMany {count : Nat} (bound : count ≤ hierarchy.history.length) :
    hierarchy.Undone count (hierarchy.undoMany count) := by
  induction count generalizing hierarchy with
  | zero => exact ⟨rfl, fun level => Option.map_id'.symm⟩
  | succ count ih =>
      cases pending : hierarchy.history with
      | nil => simp [pending] at bound
      | cons depth history =>
          have popped : hierarchy.undo.2.history = history := by rw [history_undo, pending]; rfl
          have shorter : count ≤ hierarchy.undo.2.history.length := by
            rw [popped]
            simpa [pending] using bound
          have undone := ih shorter
          rw [undoMany_succ]
          refine ⟨?_, ?_⟩
          · rw [List.map_cons, undo_fst_of_cons pending, undone.depths_eq, popped, pending]
            rfl
          · intro level
            rw [undone.level?_eq, level?_undo pending, Option.map_map, popped, pending,
              List.take_succ_cons]
            congr 1
            funext cache
            by_cases visited : level.index < depth
            · rw [Function.comp_apply, if_pos visited, List.countP_cons_of_pos (by simpa using visited)]
              rfl
            · rw [Function.comp_apply, if_neg visited, List.countP_cons_of_neg (by simpa using visited)]

end SetAssoc.Hierarchy
