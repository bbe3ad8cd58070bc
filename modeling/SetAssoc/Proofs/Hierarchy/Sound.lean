import SetAssoc.Proofs.Cache.Reachable
import SetAssoc.Proofs.Hierarchy.Operation
import SetAssoc.Proofs.Hierarchy.Visit

/-!
# Sound hierarchies

`Hierarchy.Sound` is what holds of a hierarchy between operations: the chain of levels has no gap,
every level is a cache that could also be reached on its own, and all undo depths agree.
-/

namespace SetAssoc

namespace Level

theorem child_of_parent {level parent : Level} (above : level.parent? = some parent) :
    parent.child? = some level := by
  cases level <;> cases above <;> rfl

theorem index_lt_of_parent {level parent : Level} (above : level.parent? = some parent) :
    parent.index < level.index := by
  cases level <;> cases above <;> decide

end Level

theorem Cache.Reachable.set {cache changed : Cache} (reachable : cache.Reachable) {setting : Setting}
    (accepted : cache.set setting = .ok changed) : changed.Reachable := by
  have performed := reachable.perform (.set setting)
  rwa [Cache.perform_set, accepted] at performed

theorem Cache.undoDepth_set {cache changed : Cache} {setting : Setting}
    (accepted : cache.set setting = .ok changed) : changed.undoDepth = cache.undoDepth := by
  obtain ⟨-, rfl⟩ := Cache.set_eq_ok_iff.1 accepted
  rfl

namespace Hierarchy

structure Sound (hierarchy : Hierarchy) : Prop where
  gapless : ∀ level parent, level.parent? = some parent →
    hierarchy.isEnabled level = true → hierarchy.isEnabled parent = true
  reachable : ∀ level cache, hierarchy.level? level = some cache → cache.Reachable
  undoDepth_eq : ∀ level cache, hierarchy.level? level = some cache →
    cache.undoDepth = hierarchy.undoDepth
  history_le : hierarchy.history.length ≤ hierarchy.undoDepth

variable {hierarchy : Hierarchy} {level : Level}

/-! ## Levels of changed hierarchies -/

theorem level?_install (hierarchy : Hierarchy) (level other : Level) (cache : Option Cache) :
    (hierarchy.install level cache).level? other =
      if other = level then cache else hierarchy.level? other :=
  Levels.get?_set _ _ _ _

theorem level?_teardown (hierarchy : Hierarchy) (level other : Level) :
    (hierarchy.teardown level).level? other =
      if level.index ≤ other.index then none else hierarchy.level? other := by
  cases level <;> cases other <;> rfl

theorem level?_setUndoDepth (hierarchy : Hierarchy) (depth : Nat) (level : Level) :
    (hierarchy.setUndoDepth depth).level? level =
      (hierarchy.level? level).map fun cache => cache.setUndoDepth depth :=
  Levels.get?_map _ _ _

theorem level?_reset (hierarchy : Hierarchy) (level : Level) :
    hierarchy.reset.level? level = (hierarchy.level? level).map fun cache => cache.reset :=
  Levels.get?_map _ _ _

theorem level?_update (hierarchy : Hierarchy) (level other : Level) (change : Cache → Cache) :
    (hierarchy.update level change).level? other =
      (hierarchy.level? other).map fun cache => if other = level then change cache else cache := by
  refine (Levels.get?_set _ _ _ _).trans ?_
  by_cases same : other = level
  · simp [same]
  · simp only [if_neg same]
    exact Option.map_id'.symm

theorem isEnabled_eq_true_iff : hierarchy.isEnabled level = true ↔
    ∃ cache, hierarchy.level? level = some cache := Option.isSome_iff_exists

theorem missingParent?_eq_none_iff : hierarchy.missingParent? level = none ↔
    ∀ parent, level.parent? = some parent → hierarchy.isEnabled parent = true := by
  simp [missingParent?, Option.filter_eq_none_iff]

theorem enabledChild?_eq_none_iff : hierarchy.enabledChild? level = none ↔
    ∀ child, level.child? = some child → hierarchy.isEnabled child = false := by
  simp [enabledChild?, Option.filter_eq_none_iff]

/-! ## When a change of the levels is accepted -/

section

variable {config : Config} {observer : Observer} {changed : Hierarchy}

theorem enable_eq_ok_iff : hierarchy.enable level config = .ok changed ↔
    hierarchy.missingParent? level = none ∧ ∃ cache, Cache.new config = .ok cache ∧
      hierarchy.install level (some (cache.setUndoDepth hierarchy.undoDepth)) = changed := by
  rw [enable_eq]
  cases hierarchy.missingParent? level with
  | some parent => simp
  | none => cases Cache.new config <;> simp

theorem disable_eq_ok_iff : hierarchy.disable level = .ok changed ↔
    hierarchy.enabledChild? level = none ∧
      (if hierarchy.isEnabled level then hierarchy.install level none else hierarchy) = changed := by
  rw [disable_eq]
  cases hierarchy.enabledChild? level <;> simp

theorem configure_eq_ok_iff : hierarchy.configure level config = .ok changed ↔
    ∃ cache after, hierarchy.level? level = some cache ∧ cache.set (.config config) = .ok after ∧
      hierarchy.install level (some after) = changed := by
  rw [configure_eq]
  cases hierarchy.level? level with
  | none => simp
  | some cache => cases set : cache.set (.config config) <;> simp [set]

theorem subscribe_eq_ok_iff : hierarchy.subscribe level observer = .ok changed ↔
    hierarchy.isEnabled level = true ∧
      hierarchy.update level (·.subscribe observer) = changed := by
  rw [subscribe_eq]
  cases hierarchy.isEnabled level <;> simp

end

namespace Sound

theorem isEnabled_first (sound : hierarchy.Sound) (enabled : hierarchy.isEnabled level = true) :
    hierarchy.isEnabled .l1 = true := by
  cases level with
  | l1 => exact enabled
  | l2 => exact sound.gapless .l2 .l1 rfl enabled
  | l3 => exact sound.gapless .l2 .l1 rfl (sound.gapless .l3 .l2 rfl enabled)

/-! ## Operations keep a hierarchy sound -/

theorem of_levels (sound : hierarchy.Sound) {changed : Hierarchy} {change : Level → Cache → Cache}
    (levels : ∀ level, changed.level? level = (hierarchy.level? level).map (change level))
    (reachable : ∀ level cache, cache.Reachable → (change level cache).Reachable)
    (undoDepth_eq : ∀ level cache, cache.undoDepth = hierarchy.undoDepth →
      (change level cache).undoDepth = changed.undoDepth)
    (history_le : changed.history.length ≤ changed.undoDepth) : changed.Sound where
  gapless level parent above enabled := by
    rw [isEnabled_of_levels levels] at enabled ⊢
    exact sound.gapless level parent above enabled
  reachable level cache found := by
    rw [levels, Option.map_eq_some_iff] at found
    obtain ⟨before, found, rfl⟩ := found
    exact reachable level before (sound.reachable level before found)
  undoDepth_eq level cache found := by
    rw [levels, Option.map_eq_some_iff] at found
    obtain ⟨before, found, rfl⟩ := found
    exact undoDepth_eq level before (sound.undoDepth_eq level before found)
  history_le := history_le

theorem install (sound : hierarchy.Sound) {cache : Option Cache}
    (above : cache.isSome = true → hierarchy.missingParent? level = none)
    (below : cache = none → hierarchy.enabledChild? level = none)
    (suits : ∀ installed, cache = some installed →
      installed.Reachable ∧ installed.undoDepth = hierarchy.undoDepth) :
    (hierarchy.install level cache).Sound where
  gapless other parent aboveOther enabled := by
    have distinct : parent ≠ other := by
      rintro rfl
      exact Nat.lt_irrefl _ (Level.index_lt_of_parent aboveOther)
    rw [isEnabled, level?_install] at enabled ⊢
    by_cases same : other = level
    · subst same
      rw [if_pos rfl] at enabled
      rw [if_neg distinct]
      exact missingParent?_eq_none_iff.1 (above enabled) parent aboveOther
    · rw [if_neg same] at enabled
      by_cases here : parent = level
      · subst here
        rw [if_pos rfl, Option.isSome_iff_ne_none]
        intro removed
        have child := enabledChild?_eq_none_iff.1 (below removed) other (Level.child_of_parent aboveOther)
        exact Bool.false_ne_true (child.symm.trans enabled)
      · rw [if_neg here]
        exact sound.gapless other parent aboveOther enabled
  reachable other installed found := by
    rw [level?_install] at found
    split at found
    · exact (suits installed found).1
    · exact sound.reachable other installed found
  undoDepth_eq other installed found := by
    rw [level?_install] at found
    split at found
    · exact (suits installed found).2
    · exact sound.undoDepth_eq other installed found
  history_le := Nat.zero_le _

theorem access (sound : hierarchy.Sound) (address : UInt32) (kind : AccessKind) :
    (hierarchy.access address kind).2.Sound := by
  refine sound.of_levels (hierarchy.level?_access address kind) ?_ ?_ ?_
  · intro level cache reachable
    split
    · exact reachable.access address kind
    · exact reachable
  · intro level cache same
    split <;> exact same
  · rw [history_access, undoDepth_access]
    split
    · exact sound.history_le
    · rw [List.length_take]
      exact Nat.min_le_left _ _

theorem undo (sound : hierarchy.Sound) : hierarchy.undo.2.Sound := by
  cases pending : hierarchy.history with
  | nil =>
      rw [undo_of_nil pending]
      exact sound
  | cons depth history =>
      refine sound.of_levels (level?_undo pending) ?_ ?_ ?_
      · intro level cache reachable
        split
        · exact reachable.undo
        · exact reachable
      · intro level cache same
        rw [Hierarchy.undoDepth_undo]
        split
        · exact Cache.undoDepth_undo.trans same
        · exact same
      · rw [history_undo, Hierarchy.undoDepth_undo, List.length_tail]
        exact Nat.le_trans (Nat.sub_le _ _) sound.history_le

theorem setUndoDepth (sound : hierarchy.Sound) (depth : Nat) : (hierarchy.setUndoDepth depth).Sound := by
  refine sound.of_levels (hierarchy.level?_setUndoDepth depth) ?_ (fun _ _ _ => rfl) ?_
  · exact fun _ _ reachable => reachable.perform (.setUndoDepth depth)
  · rw [Hierarchy.setUndoDepth, List.length_take]
    exact Nat.min_le_left _ _

theorem reset (sound : hierarchy.Sound) : hierarchy.reset.Sound :=
  sound.of_levels hierarchy.level?_reset (fun _ _ reachable => reachable.perform .reset)
    (fun _ _ same => same) (Nat.zero_le _)

theorem enable (sound : hierarchy.Sound) {config : Config} {changed : Hierarchy}
    (accepted : hierarchy.enable level config = .ok changed) : changed.Sound := by
  obtain ⟨parent, cache, built, rfl⟩ := enable_eq_ok_iff.1 accepted
  refine sound.install (fun _ => parent) (fun removed => by cases removed) ?_
  intro _ installed
  cases installed
  exact ⟨(Cache.Reachable.new built).perform (.setUndoDepth _), rfl⟩

theorem disable (sound : hierarchy.Sound) {changed : Hierarchy}
    (accepted : hierarchy.disable level = .ok changed) : changed.Sound := by
  obtain ⟨child, rfl⟩ := disable_eq_ok_iff.1 accepted
  split
  · refine sound.install (fun installed => by cases installed) (fun _ => child) ?_
    intro _ installed
    cases installed
  · exact sound

theorem teardown (sound : hierarchy.Sound) (level : Level) : (hierarchy.teardown level).Sound where
  gapless other parent above enabled := by
    rw [isEnabled, level?_teardown] at enabled ⊢
    split at enabled
    · cases enabled
    · have := Level.index_lt_of_parent above
      rw [if_neg (by omega)]
      exact sound.gapless other parent above enabled
  reachable other cache found := by
    rw [level?_teardown] at found
    split at found
    · cases found
    · exact sound.reachable other cache found
  undoDepth_eq other cache found := by
    rw [level?_teardown] at found
    split at found
    · cases found
    · exact sound.undoDepth_eq other cache found
  history_le := Nat.zero_le _

theorem configure (sound : hierarchy.Sound) {config : Config} {changed : Hierarchy}
    (accepted : hierarchy.configure level config = .ok changed) : changed.Sound := by
  obtain ⟨cache, after, found, set, rfl⟩ := configure_eq_ok_iff.1 accepted
  refine sound.install (fun _ => ?_) (fun removed => by cases removed) ?_
  · rw [missingParent?_eq_none_iff]
    exact fun parent above => sound.gapless level parent above (isEnabled_eq_true_iff.2 ⟨cache, found⟩)
  · intro _ installed
    cases installed
    exact ⟨(sound.reachable level cache found).set set,
      (Cache.undoDepth_set set).trans (sound.undoDepth_eq level cache found)⟩

theorem subscribe (sound : hierarchy.Sound) {observer : Observer} {changed : Hierarchy}
    (accepted : hierarchy.subscribe level observer = .ok changed) : changed.Sound := by
  obtain ⟨-, rfl⟩ := subscribe_eq_ok_iff.1 accepted
  refine sound.of_levels (hierarchy.level?_update level · (·.subscribe observer)) ?_ ?_ sound.history_le
  · intro other cache reachable
    split
    · exact reachable.perform (.subscribe observer)
    · exact reachable
  · intro other cache same
    split <;> exact same

theorem perform (sound : hierarchy.Sound) (operation : Operation) :
    (hierarchy.perform operation).2.Sound := by
  cases operation with
  | access address kind => exact sound.access address kind
  | undo => exact sound.undo
  | setUndoDepth depth => exact sound.setUndoDepth depth
  | reset => exact sound.reset
  | enable level config =>
      rw [perform_enable]
      exact settle_induction sound (fun _ => sound.enable) _
  | disable level =>
      rw [perform_disable]
      exact settle_induction sound (fun _ => sound.disable) _
  | teardown level => exact sound.teardown level
  | configure level config =>
      rw [perform_configure]
      exact settle_induction sound (fun _ => sound.configure) _
  | subscribe level observer =>
      rw [perform_subscribe]
      exact settle_induction sound (fun _ => sound.subscribe) _

end Sound

theorem sound_new : Sound {} where
  gapless level _ _ enabled := by cases level <;> cases enabled
  reachable level _ found := by cases level <;> cases found
  undoDepth_eq level _ found := by cases level <;> cases found
  history_le := Nat.zero_le _

/-! ## Reachable hierarchies -/

inductive Reachable : Hierarchy → Prop where
  | new : Reachable {}
  | perform {hierarchy : Hierarchy} (reachable : Reachable hierarchy) (operation : Operation) :
      Reachable (hierarchy.perform operation).2

namespace Reachable

theorem sound (reachable : hierarchy.Reachable) : hierarchy.Sound := by
  induction reachable with
  | new => exact sound_new
  | perform _ operation ih => exact ih.perform operation

theorem run (reachable : hierarchy.Reachable) (operations : List Operation) :
    (hierarchy.run operations).2.1.Reachable := by
  induction operations generalizing hierarchy with
  | nil => exact reachable
  | cons operation rest ih => exact ih (reachable.perform operation)

theorem enable (reachable : hierarchy.Reachable) {config : Config} {changed : Hierarchy}
    (accepted : hierarchy.enable level config = .ok changed) : changed.Reachable := by
  have performed := reachable.perform (.enable level config)
  rwa [perform_enable, accepted] at performed

end Reachable

/-! ## Hierarchies built from configurations -/

section

variable {config : HierarchyConfig}

/-- What holds of the hierarchy without levels, and is kept by each level that is enabled or left
out, holds of a hierarchy that is built from a configuration. -/
theorem ofConfig_induction {motive : List Level → Hierarchy → Prop}
    (built : ofConfig config = .ok hierarchy) (start : motive Level.all {})
    (skip : ∀ level below before, config.get? level = none →
      motive (level :: below) before → motive below before)
    (enable : ∀ level below before after configured, config.get? level = some configured →
      before.enable level configured = .ok after → motive (level :: below) before → motive below after) :
    motive [] hierarchy := by
  rw [ofConfig] at built
  generalize Level.all = levels at built start
  generalize ({} : Hierarchy) = before at built start
  induction levels generalizing before with
  | nil =>
      cases built
      exact start
  | cons level below ih =>
      rw [List.foldlM_cons] at built
      cases given : config.get? level with
      | none =>
          rw [given] at built
          exact ih before built (skip level below before given start)
      | some configured =>
          rw [given] at built
          cases enabled : before.enable level configured with
          | error error => simp [enabled, bind, Except.bind] at built
          | ok after =>
              simp only [enabled] at built
              exact ih after built (enable level below before after configured given enabled start)

theorem reachable_ofConfig (built : ofConfig config = .ok hierarchy) : hierarchy.Reachable :=
  ofConfig_induction (motive := fun _ hierarchy => hierarchy.Reachable) built .new
    (fun _ _ _ _ reachable => reachable) fun _ _ _ _ _ _ accepted reachable => reachable.enable accepted

/-- An empty cache stands at each configured level, apart from those that are still to be enabled.
-/
structure Fresh (config : HierarchyConfig) (below : List Level) (hierarchy : Hierarchy) : Prop where
  nodup : below.Nodup
  history_eq : hierarchy.history = []
  undoDepth_eq : hierarchy.undoDepth = defaultUndoDepth
  level?_eq : ∀ level, hierarchy.level? level =
    if level ∈ below then none else (config.get? level).map fun config => ({ config } : Cache)

namespace Fresh

variable {below : List Level} {configured : Config} {changed : Hierarchy}

theorem skip (fresh : Fresh config (level :: below) hierarchy) (absent : config.get? level = none) :
    Fresh config below hierarchy := by
  obtain ⟨-, nodup⟩ := List.nodup_cons.1 fresh.nodup
  refine ⟨nodup, fresh.history_eq, fresh.undoDepth_eq, fun other => ?_⟩
  rw [fresh.level?_eq]
  by_cases same : other = level
  · simp [same, absent]
  · simp [same]

theorem enable (fresh : Fresh config (level :: below) hierarchy)
    (given : config.get? level = some configured)
    (accepted : hierarchy.enable level configured = .ok changed) : Fresh config below changed := by
  obtain ⟨first, nodup⟩ := List.nodup_cons.1 fresh.nodup
  obtain ⟨-, cache, built, rfl⟩ := enable_eq_ok_iff.1 accepted
  obtain ⟨-, rfl⟩ := Cache.new_eq_ok_iff.1 built
  refine ⟨nodup, rfl, fresh.undoDepth_eq, fun other => ?_⟩
  rw [level?_install, fresh.level?_eq, fresh.undoDepth_eq]
  by_cases same : other = level
  · subst same
    rw [if_pos rfl, if_neg first, given]
    rfl
  · simp [same]

end Fresh

theorem fresh_ofConfig (built : ofConfig config = .ok hierarchy) : Fresh config [] hierarchy := by
  refine ofConfig_induction built ⟨Level.nodup_all, rfl, rfl, fun level => ?_⟩ ?_ ?_
  · cases level <;> rfl
  · exact fun _ _ _ absent fresh => fresh.skip absent
  · exact fun _ _ _ _ _ given accepted fresh => fresh.enable given accepted

end

end Hierarchy

end SetAssoc
