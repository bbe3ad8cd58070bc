import SetAssoc.Proofs.Cache.Restart
import SetAssoc.Proofs.Hierarchy.Walk

/-!
# Changes of the levels happen as a whole or not at all

The chain of levels never has a gap, and a change that would make one is refused before anything
else is looked at. An accepted change acts on the level that it names, `teardown` also on those
below it.
-/

namespace SetAssoc.Hierarchy

variable {hierarchy changed : Hierarchy} {level : Level} {config : Config} {observer : Observer}

/-! ## Refusals -/

theorem enable_of_missing {parent : Level} (missing : hierarchy.missingParent? level = some parent) :
    hierarchy.enable level config = .error (.parentDisabled level parent) := by
  simp [enable_eq, missing]

theorem missingParent?_eq_some_iff {parent : Level} : hierarchy.missingParent? level = some parent ↔
    level.parent? = some parent ∧ hierarchy.isEnabled parent = false := by
  simp [missingParent?, Option.filter_eq_some_iff]

theorem enabledChild?_eq_some_iff {child : Level} : hierarchy.enabledChild? level = some child ↔
    level.child? = some child ∧ hierarchy.isEnabled child = true := by
  simp [enabledChild?, Option.filter_eq_some_iff]

theorem enable_of_invalid {error : ConfigError} (suits : hierarchy.missingParent? level = none)
    (invalid : config.validate = .error error) :
    hierarchy.enable level config = .error (.config error) := by
  simp [enable_eq, suits, Cache.new, invalid, Except.map]

theorem disable_of_child {child : Level} (needed : hierarchy.enabledChild? level = some child) :
    hierarchy.disable level = .error (.childEnabled level child) := by
  simp [disable_eq, needed]

theorem level?_of_disabled (disabled : hierarchy.isEnabled level = false) :
    hierarchy.level? level = none := by
  simpa [isEnabled] using disabled

theorem configure_of_disabled (disabled : hierarchy.isEnabled level = false) :
    hierarchy.configure level config = .error (.levelDisabled level) := by
  simp [configure_eq, level?_of_disabled disabled]

theorem configure_of_invalid {error : ConfigError} (enabled : hierarchy.isEnabled level = true)
    (invalid : config.validate = .error error) :
    hierarchy.configure level config = .error (.config error) := by
  obtain ⟨cache, found⟩ := isEnabled_eq_true_iff.1 enabled
  have refused : cache.set (.config config) = .error error := Cache.set_of_error rfl invalid
  simp [configure_eq, found, refused]

theorem subscribe_of_disabled (disabled : hierarchy.isEnabled level = false) :
    hierarchy.subscribe level observer = .error (.levelDisabled level) := by
  simp [subscribe_eq, disabled]

theorem attempt_of_rejected {reply : Reply} {action : Action Unit} {error : HierarchyError}
    (atomic : action.Atomic) (accepts : ∀ error, reply ≠ .rejected error)
    (rejected : (hierarchy.attempt reply action).1 = .rejected error) :
    (hierarchy.attempt reply action).2 = hierarchy := by
  unfold attempt at rejected ⊢
  cases ran : action.run hierarchy with
  | ok value changed =>
      simp only [ran] at rejected
      exact absurd rejected (accepts error)
  | error error after => exact atomic hierarchy error after ran

theorem perform_of_rejected {operation : Operation} {error : HierarchyError}
    (rejected : (hierarchy.perform operation).1 = .rejected error) :
    (hierarchy.perform operation).2 = hierarchy := by
  cases operation with
  | access | undo | setUndoDepth | reset | teardown => simp [perform] at rejected
  | enable level config => exact attempt_of_rejected (Action.atomic_enable _ _) (by simp) rejected
  | disable level => exact attempt_of_rejected (Action.atomic_disable _) (by simp) rejected
  | configure level config =>
      exact attempt_of_rejected (Action.atomic_configure _ _) (by simp) rejected
  | subscribe level observer =>
      exact attempt_of_rejected (Action.atomic_subscribe _ _) (by simp) rejected

theorem notices_of_configure_rejected {error : HierarchyError} {cache : Cache}
    (rejected : (hierarchy.perform (.configure level config)).1 = .rejected error)
    (found : hierarchy.level? level = some cache) :
    (cache.step (.set (.config config))).notices = [] := by
  rw [perform_configure, configure_eq, found] at rejected
  cases set : cache.set (.config config) with
  | ok changed => simp [set, settle] at rejected
  | error error => rw [Cache.step_set_of_error set]

theorem step_of_rejected {operation : Operation} {error : HierarchyError}
    (rejected : (hierarchy.step operation).reply = .rejected error) :
    hierarchy.step operation = { reply := .rejected error, hierarchy, notices := [] } := by
  have reply : (hierarchy.perform operation).1 = .rejected error := rejected
  have kept := perform_of_rejected reply
  cases operation with
  | configure level config =>
      cases found : hierarchy.level? level with
      | none => simp [step, reply, kept, Operation.atLevels, found]
      | some cache =>
          have quiet := notices_of_configure_rejected reply found
          simp [step, reply, kept, Operation.atLevels, found, quiet]
  | _ => simp [step, reply, kept, Operation.atLevels]

/-! ## Accepted changes -/

theorem exists_ok_enable_iff : (∃ changed, hierarchy.enable level config = .ok changed) ↔
    (∀ parent, level.parent? = some parent → hierarchy.isEnabled parent = true) ∧
      config.validate = .ok () := by
  simp [enable_eq_ok_iff, missingParent?_eq_none_iff, Cache.new_eq_ok_iff, Config.validate_eq_ok_iff]

theorem exists_ok_disable_iff : (∃ changed, hierarchy.disable level = .ok changed) ↔
    ∀ child, level.child? = some child → hierarchy.isEnabled child = false := by
  simp [disable_eq_ok_iff, enabledChild?_eq_none_iff]

theorem exists_ok_configure_iff : (∃ changed, hierarchy.configure level config = .ok changed) ↔
    hierarchy.isEnabled level = true ∧ config.validate = .ok () := by
  simp [configure_eq_ok_iff, isEnabled_eq_true_iff, Cache.set_eq_ok_iff, Setting.isPolicy,
    Config.change, Config.validate_eq_ok_iff]

theorem exists_ok_subscribe_iff : (∃ changed, hierarchy.subscribe level observer = .ok changed) ↔
    hierarchy.isEnabled level = true := by
  simp [subscribe_eq_ok_iff]

def ReplacedAt (hierarchy changed : Hierarchy) (level : Level) (cache : Option Cache) : Prop :=
  changed.undoDepth = hierarchy.undoDepth ∧
    ∀ other, changed.level? other = if other = level then cache else hierarchy.level? other

theorem replacedAt_install (cache : Option Cache) :
    hierarchy.ReplacedAt (hierarchy.install level cache) level cache :=
  ⟨rfl, fun other => hierarchy.level?_install level other cache⟩

theorem replacedAt_enable (accepted : hierarchy.enable level config = .ok changed) :
    ∃ fresh, Cache.new config = .ok fresh ∧
      hierarchy.ReplacedAt changed level (some (fresh.setUndoDepth hierarchy.undoDepth)) := by
  obtain ⟨-, fresh, built, rfl⟩ := enable_eq_ok_iff.1 accepted
  exact ⟨fresh, built, replacedAt_install _⟩

theorem replacedAt_disable (accepted : hierarchy.disable level = .ok changed) :
    hierarchy.ReplacedAt changed level none := by
  obtain ⟨-, rfl⟩ := disable_eq_ok_iff.1 accepted
  cases enabled : hierarchy.isEnabled level with
  | true => exact replacedAt_install none
  | false =>
      refine ⟨rfl, fun other => ?_⟩
      by_cases same : other = level
      · simp [same, level?_of_disabled enabled]
      · simp [same]

theorem replacedAt_configure (accepted : hierarchy.configure level config = .ok changed) :
    ∃ cache, hierarchy.level? level = some cache ∧
      hierarchy.ReplacedAt changed level (some (cache.restarted config)) := by
  obtain ⟨cache, after, found, set, rfl⟩ := configure_eq_ok_iff.1 accepted
  obtain ⟨-, rfl⟩ := Cache.set_eq_ok_iff.1 set
  exact ⟨cache, found, replacedAt_install _⟩

theorem replacedAt_subscribe (accepted : hierarchy.subscribe level observer = .ok changed) :
    ∃ cache, hierarchy.level? level = some cache ∧
      hierarchy.ReplacedAt changed level (some (cache.subscribe observer)) := by
  obtain ⟨enabled, rfl⟩ := subscribe_eq_ok_iff.1 accepted
  obtain ⟨cache, found⟩ := isEnabled_eq_true_iff.1 enabled
  refine ⟨cache, found, rfl, fun other => ?_⟩
  rw [level?_update]
  by_cases same : other = level <;> simp [same, found]

/-! ## Reachable hierarchies -/

structure Contiguous (hierarchy : Hierarchy) : Prop where
  levels : hierarchy.enabledLevels <+: Level.all
  enabled_eq : hierarchy.enabled =
    Level.all.filterMap fun level => (hierarchy.level? level).map (level, ·)
  undoDepth_eq : ∀ level cache, hierarchy.level? level = some cache →
    cache.undoDepth = hierarchy.undoDepth

/-- Each change of the levels is made as a whole, at the levels it is meant for, or is refused. -/
structure AllOrNothing (hierarchy : Hierarchy) : Prop where
  enable_ok_iff : ∀ level config, (∃ changed, hierarchy.enable level config = .ok changed) ↔
    (∀ parent, level.parent? = some parent → hierarchy.isEnabled parent = true) ∧
      config.validate = .ok ()
  enable_parentDisabled : ∀ level config parent, level.parent? = some parent →
    hierarchy.isEnabled parent = false →
      hierarchy.enable level config = .error (.parentDisabled level parent)
  enable_invalid : ∀ level config error,
    (∀ parent, level.parent? = some parent → hierarchy.isEnabled parent = true) →
      config.validate = .error error → hierarchy.enable level config = .error (.config error)
  disable_ok_iff : ∀ level, (∃ changed, hierarchy.disable level = .ok changed) ↔
    ∀ child, level.child? = some child → hierarchy.isEnabled child = false
  disable_childEnabled : ∀ level child, level.child? = some child →
    hierarchy.isEnabled child = true → hierarchy.disable level = .error (.childEnabled level child)
  configure_ok_iff : ∀ level config, (∃ changed, hierarchy.configure level config = .ok changed) ↔
    hierarchy.isEnabled level = true ∧ config.validate = .ok ()
  configure_levelDisabled : ∀ level config, hierarchy.isEnabled level = false →
    hierarchy.configure level config = .error (.levelDisabled level)
  configure_invalid : ∀ level config error, hierarchy.isEnabled level = true →
    config.validate = .error error → hierarchy.configure level config = .error (.config error)
  subscribe_ok_iff : ∀ level observer,
    (∃ changed, hierarchy.subscribe level observer = .ok changed) ↔ hierarchy.isEnabled level = true
  subscribe_levelDisabled : ∀ level observer, hierarchy.isEnabled level = false →
    hierarchy.subscribe level observer = .error (.levelDisabled level)
  rejected : ∀ operation error, (hierarchy.step operation).reply = .rejected error →
    hierarchy.step operation = { reply := .rejected error, hierarchy, notices := [] }
  enabled : ∀ level config changed, hierarchy.enable level config = .ok changed →
    ∃ fresh, Cache.new config = .ok fresh ∧
      hierarchy.ReplacedAt changed level (some (fresh.setUndoDepth hierarchy.undoDepth))
  disabled : ∀ level changed, hierarchy.disable level = .ok changed →
    hierarchy.ReplacedAt changed level none
  tornDown : ∀ level other, (hierarchy.teardown level).level? other =
    if level.index ≤ other.index then none else hierarchy.level? other
  configured : ∀ level config changed, hierarchy.configure level config = .ok changed →
    ∃ cache, hierarchy.level? level = some cache ∧
      hierarchy.ReplacedAt changed level (some (cache.restarted config))
  subscribed : ∀ level observer changed, hierarchy.subscribe level observer = .ok changed →
    ∃ cache, hierarchy.level? level = some cache ∧
      hierarchy.ReplacedAt changed level (some (cache.subscribe observer))

theorem Sound.contiguous (sound : hierarchy.Sound) : hierarchy.Contiguous where
  levels := sound.enabledLevels_prefix
  enabled_eq := sound.enabled_eq
  undoDepth_eq := sound.undoDepth_eq

theorem Reachable.all_or_nothing (reachable : hierarchy.Reachable) :
    hierarchy.Contiguous ∧ hierarchy.AllOrNothing := by
  refine ⟨reachable.sound.contiguous, ?_⟩
  exact
    { enable_ok_iff := fun _ _ => exists_ok_enable_iff
      enable_parentDisabled := fun _ _ _ above missing =>
        enable_of_missing (missingParent?_eq_some_iff.2 ⟨above, missing⟩)
      enable_invalid := fun _ _ _ suits => enable_of_invalid (missingParent?_eq_none_iff.2 suits)
      disable_ok_iff := fun _ => exists_ok_disable_iff
      disable_childEnabled := fun _ _ below needed =>
        disable_of_child (enabledChild?_eq_some_iff.2 ⟨below, needed⟩)
      configure_ok_iff := fun _ _ => exists_ok_configure_iff
      configure_levelDisabled := fun _ _ => configure_of_disabled
      configure_invalid := fun _ _ _ => configure_of_invalid
      subscribe_ok_iff := fun _ _ => exists_ok_subscribe_iff
      subscribe_levelDisabled := fun _ _ => subscribe_of_disabled
      rejected := fun _ _ => step_of_rejected
      enabled := fun _ _ _ => replacedAt_enable
      disabled := fun _ _ => replacedAt_disable
      tornDown := hierarchy.level?_teardown
      configured := fun _ _ _ => replacedAt_configure
      subscribed := fun _ _ _ => replacedAt_subscribe }

/-- Two levels that were used and whose undo depth was changed, after attempts to leave out L1 and
to take it away. -/
theorem all_or_nothing_two_levels :
    let hierarchy := (Hierarchy.run {} [.enable .l2 {}, .enable .l1 { lineBits := 0 },
      .enable .l2 { wayBits := 1 }, .access 0 .write, .setUndoDepth 1, .disable .l1]).2.1
    (hierarchy.Reachable ∧ hierarchy.enabledLevels = [.l1, .l2] ∧ hierarchy.history = [2]) ∧
      hierarchy.Contiguous ∧ hierarchy.AllOrNothing :=
  have reachable := Reachable.new.run _
  ⟨⟨reachable, by decide, by decide⟩, reachable.all_or_nothing⟩

end SetAssoc.Hierarchy
