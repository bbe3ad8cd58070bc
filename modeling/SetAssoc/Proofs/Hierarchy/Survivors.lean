import SetAssoc.Proofs.Cache.Log
import SetAssoc.Proofs.Hierarchy.Streams
import SetAssoc.Proofs.Hierarchy.Undo

/-!
# The surviving accesses of a hierarchy

While the levels stay as they are, the outcomes of the accesses that were not taken back say
everything about each level: the transactions that they report for a level are the log of its cache.
-/

namespace SetAssoc.Hierarchy

def survivorsAfter (outcomes : List Outcome) : Reply → List Outcome
  | .accessed outcome => outcome :: outcomes
  | .undone (some _) => outcomes.tail
  | .emptied _ => []
  | .undone none | .configured _ _ | .rejected _ | .done => outcomes

def survivorsOf (replies : List Reply) : List Outcome := replies.foldl survivorsAfter []

def Operation.keepsLevels : Operation → Bool
  | .access _ _ | .undo | .setUndoDepth _ | .reset | .subscribe _ _ => true
  | .enable _ _ | .disable _ | .teardown _ | .configure _ _ => false

def transactionsAt (level : Level) (outcomes : List Outcome) : List Transaction :=
  outcomes.filterMap fun outcome => outcome.visit? level

structure Accounted (hierarchy : Hierarchy) (outcomes : List Outcome) : Prop where
  reachable : hierarchy.Reachable
  first : hierarchy.isEnabled .l1 = true
  walk : ∀ outcome ∈ outcomes, Walk hierarchy.enabledLevels outcome.visits
  kind : ∀ outcome ∈ outcomes, ∃ kind, ∀ visit ∈ outcome.visits, visit.transaction.kind = kind
  history_prefix : hierarchy.history <+: outcomes.map (·.visits.length)
  told : ∀ level cache, hierarchy.level? level = some cache → cache.Told (transactionsAt level outcomes)

variable {hierarchy : Hierarchy} {outcome : Outcome} {outcomes : List Outcome} {level : Level}
  {cache : Cache}

theorem transactionsAt_cons_of_some {transaction : Transaction}
    (visited : outcome.visit? level = some transaction) (outcomes : List Outcome) :
    transactionsAt level (outcome :: outcomes) = transaction :: transactionsAt level outcomes :=
  List.filterMap_cons_some visited

theorem transactionsAt_cons_of_none (unvisited : outcome.visit? level = none)
    (outcomes : List Outcome) :
    transactionsAt level (outcome :: outcomes) = transactionsAt level outcomes :=
  List.filterMap_cons_none unvisited

theorem Reachable.exists_undoStack_eq_cons (reachable : hierarchy.Reachable)
    (found : hierarchy.level? level = some cache) {depth : Nat} {older : List Nat}
    (pending : hierarchy.history = depth :: older) (visited : level.index < depth) :
    ∃ record records, cache.undoStack = record :: records := by
  obtain ⟨journal, recorded⟩ := reachable.recorded
  obtain ⟨enough, -⟩ := recorded.aligned.take_undoStack found
  rw [pending, List.countP_cons_of_pos (by simpa using visited)] at enough
  exact List.exists_cons_of_length_pos (Nat.lt_of_lt_of_le (Nat.succ_pos _) enough)

namespace Accounted

/-! ## Operations -/

theorem access (accounted : hierarchy.Accounted outcomes) (address : UInt32) (kind : AccessKind) :
    (hierarchy.access address kind).2.Accounted ((hierarchy.access address kind).1 :: outcomes) where
  reachable := accounted.reachable.perform (.access address kind)
  first := by
    rw [isEnabled_access]
    exact accounted.first
  walk := by
    rw [enabledLevels_of_isEnabled (hierarchy.isEnabled_access address kind)]
    exact List.forall_mem_cons.2
      ⟨accounted.reachable.sound.walk_access address kind, accounted.walk⟩
  kind := by
    refine List.forall_mem_cons.2 ⟨⟨kind, fun visit mem => ?_⟩, accounted.kind⟩
    obtain ⟨cache, -, same⟩ := transaction_of_mem_visits mem
    rw [same]
    rfl
  history_prefix := by
    rw [history_access, if_neg (Nat.ne_of_gt (hierarchy.reach_pos address kind accounted.first))]
    exact (List.take_prefix _ _).trans ((List.prefix_cons_inj _).2 accounted.history_prefix)
  told level after found := by
    rw [level?_access, Option.map_eq_some_iff] at found
    obtain ⟨cache, found, rfl⟩ := found
    have told := accounted.told level cache found
    split
    · rename_i visited
      have visit := accounted.reachable.sound.visit?_access_of_lt found visited
      rw [transactionsAt_cons_of_some visit]
      exact told.access address kind
    · rename_i unvisited
      rwa [transactionsAt_cons_of_none (visit?_access_of_le (Nat.le_of_not_lt unvisited))]

/-- A change that acts on each level and drops the newest accesses keeps a hierarchy in step with
the others, if it keeps each cache in step. -/
theorem of_levels (accounted : hierarchy.Accounted outcomes) {older : List Outcome}
    (suffix : older <:+ outcomes) {changed : Hierarchy} {change : Level → Cache → Cache}
    (reachable : changed.Reachable)
    (levels : ∀ level, changed.level? level = (hierarchy.level? level).map (change level))
    (history : changed.history <+: older.map (·.visits.length))
    (told : ∀ level cache, hierarchy.level? level = some cache →
      (change level cache).Told (transactionsAt level older)) : changed.Accounted older where
  reachable := reachable
  first := by
    rw [isEnabled_of_levels levels]
    exact accounted.first
  walk := by
    rw [enabledLevels_of_isEnabled (isEnabled_of_levels levels)]
    exact fun outcome mem => accounted.walk outcome (suffix.subset mem)
  kind outcome mem := accounted.kind outcome (suffix.subset mem)
  history_prefix := history
  told level after found := by
    rw [levels, Option.map_eq_some_iff] at found
    obtain ⟨cache, found, rfl⟩ := found
    exact told level cache found

theorem undo (accounted : hierarchy.Accounted outcomes) :
    hierarchy.undo.2.Accounted (survivorsAfter outcomes (.undone hierarchy.undo.1)) := by
  have reachable := accounted.reachable.perform .undo
  cases pending : hierarchy.history with
  | nil =>
      rw [undo_of_nil pending]
      exact accounted
  | cons depth older =>
      obtain ⟨reversal, undone, -⟩ := Option.map_eq_some_iff.1 (undo_fst_of_cons pending)
      rw [undone]
      have history := accounted.history_prefix
      rw [pending] at history
      cases outcomes with
      | nil => exact absurd history.length_le (Nat.not_succ_le_zero _)
      | cons newest rest =>
          obtain ⟨rfl, olderHistory⟩ := List.cons_prefix_cons.1 history
          refine accounted.of_levels (List.suffix_cons newest rest) reachable (level?_undo pending) ?_ ?_
          · rw [history_undo, pending]
            exact olderHistory
          · intro level cache found
            have told := accounted.told level cache found
            have visited : level.index < newest.visits.length ↔ ∃ t, newest.visit? level = some t :=
              (accounted.walk newest List.mem_cons_self).lt_length_iff
                accounted.reachable.sound.enabledLevels_prefix
            by_cases here : level.index < newest.visits.length
            · obtain ⟨transaction, visit⟩ := visited.1 here
              obtain ⟨record, records, stack⟩ :=
                accounted.reachable.exists_undoStack_eq_cons found pending here
              have undone := told.undo
              rw [transactionsAt_cons_of_some visit, Cache.undo_fst_of_cons stack] at undone
              rw [if_pos here]
              exact undone
            · have absent : newest.visit? level = none :=
                Option.eq_none_iff_forall_ne_some.2 fun t visit => here (visited.2 ⟨t, visit⟩)
              rw [transactionsAt_cons_of_none absent] at told
              rw [if_neg here]
              exact told

theorem perform (accounted : hierarchy.Accounted outcomes) {operation : Operation}
    (keeps : operation.keepsLevels = true) : (hierarchy.perform operation).2.Accounted
      (survivorsAfter outcomes (hierarchy.perform operation).1) := by
  have reachable := accounted.reachable.perform operation
  cases operation with
  | access address kind => exact accounted.access address kind
  | undo => exact accounted.undo
  | setUndoDepth depth =>
      refine accounted.of_levels List.suffix_rfl reachable (hierarchy.level?_setUndoDepth depth) ?_ ?_
      · exact (List.take_prefix _ _).trans accounted.history_prefix
      · exact fun level cache found => (accounted.told level cache found).perform (.setUndoDepth depth)
  | reset =>
      refine accounted.of_levels List.nil_suffix reachable hierarchy.level?_reset List.nil_prefix ?_
      exact fun level cache found => (accounted.told level cache found).perform .reset
  | subscribe level observer =>
      rw [perform_subscribe] at reachable ⊢
      cases accepted : hierarchy.subscribe level observer with
      | error error => exact accounted
      | ok changed =>
          rw [accepted] at reachable
          obtain ⟨-, rfl⟩ := subscribe_eq_ok_iff.1 accepted
          refine accounted.of_levels List.suffix_rfl reachable
            (hierarchy.level?_update level · (·.subscribe observer)) accounted.history_prefix ?_
          intro other cache found
          have told := accounted.told other cache found
          split
          · exact told.perform (.subscribe observer)
          · exact told
  | enable | disable | teardown | configure => cases keeps

theorem run (accounted : hierarchy.Accounted outcomes) {operations : List Operation}
    (keeps : ∀ operation ∈ operations, operation.keepsLevels = true) :
    (hierarchy.run operations).2.1.Accounted
      ((hierarchy.run operations).1.foldl survivorsAfter outcomes) := by
  induction operations generalizing hierarchy outcomes with
  | nil => exact accounted
  | cons operation rest ih =>
      obtain ⟨first, keeps⟩ := List.forall_mem_cons.1 keeps
      exact ih (accounted.perform first) keeps

theorem accessAll (accounted : hierarchy.Accounted outcomes) (requests : List Request) :
    (hierarchy.accessAll requests).2.Accounted
      ((hierarchy.accessAll requests).1.reverse ++ outcomes) := by
  induction requests generalizing hierarchy outcomes with
  | nil => exact accounted
  | cons request rest ih =>
      rw [accessAll_cons, List.reverse_cons, List.append_assoc, List.singleton_append]
      exact ih (accounted.access request.address request.kind)

end Accounted

theorem accounted_ofConfig {config : HierarchyConfig} (built : ofConfig config = .ok hierarchy)
    (configured : (config.get? level).isSome = true) : hierarchy.Accounted [] where
  reachable := reachable_ofConfig built
  first := by
    have enabled : hierarchy.isEnabled level = true := by
      rw [isEnabled, (fresh_ofConfig built).level?_eq, if_neg List.not_mem_nil, Option.isSome_map]
      exact configured
    exact (reachable_ofConfig built).sound.isEnabled_first enabled
  walk _ mem := absurd mem List.not_mem_nil
  kind _ mem := absurd mem List.not_mem_nil
  history_prefix := by
    rw [(fresh_ofConfig built).history_eq]
    exact List.nil_prefix
  told level cache found := by
    have sound := (reachable_ofConfig built).sound.reachable level cache found
    rw [(fresh_ofConfig built).level?_eq, if_neg List.not_mem_nil, Option.map_eq_some_iff] at found
    obtain ⟨config, -, rfl⟩ := found
    exact Cache.told_of_empty sound.sound rfl rfl rfl

end SetAssoc.Hierarchy
