import SetAssoc.Hierarchy.Operation
import SetAssoc.Proofs.Cache.Operation

/-!
# Actions on the levels

An action writes to the hierarchy as it goes along, and `configure` learns that it is refused from a
level that has already carried the operation out. Even so, a refused action has changed nothing.
-/

namespace SetAssoc

theorem Levels.set_get? {α : Type} (levels : Levels α) (level : Level) :
    levels.set level (levels.get? level) = levels := by
  cases level <;> rfl

namespace Hierarchy

variable {hierarchy changed : Hierarchy} {level : Level} {config : Config} {observer : Observer}

theorem update_of_level? {cache : Cache} (found : hierarchy.level? level = some cache) :
    hierarchy.update level (fun _ => cache) = hierarchy := by
  rw [update, found, Option.map_some, ← found, level?, Levels.set_get?]

namespace Action

/-- An action that is carried out as a whole or leaves the hierarchy as it was. -/
def Atomic (action : Action Unit) : Prop :=
  ∀ hierarchy error after, action.run hierarchy = .error error after → after = hierarchy

variable {action : Action Unit}

theorem Atomic.run_eq (atomic : action.Atomic) (hierarchy : Hierarchy) : action.run hierarchy =
    match action.result hierarchy with
    | .ok changed => .ok () changed
    | .error error => .error error hierarchy := by
  unfold result
  cases ran : action.run hierarchy with
  | ok value changed => rfl
  | error error after => rw [atomic hierarchy error after ran]

theorem Atomic.then_modify (atomic : action.Atomic) (change : Hierarchy → Hierarchy) :
    Atomic (do action; modify change) := by
  intro hierarchy error after ran
  rw [EStateM.run_bind] at ran
  cases first : action.run hierarchy with
  | ok value changed => simp [first] at ran
  | error error' stopped =>
      simp only [first, EStateM.Result.error.injEq] at ran
      rw [← ran.2]
      exact atomic hierarchy error' stopped first

theorem atomic_onLevel (level : Level) (operation : SetAssoc.Operation) :
    (onLevel level operation).Atomic := by
  intro hierarchy error after ran
  simp only [onLevel, EStateM.run_bind, EStateM.run_get] at ran
  cases found : hierarchy.level? level with
  | none =>
      simp [found] at ran
      exact ran.2.symm
  | some cache =>
      simp only [found, EStateM.run_bind, EStateM.run_modify] at ran
      -- the level has carried the operation out, and was left as it was
      cases reply : (cache.perform operation).1 with
      | rejected refusal =>
          simp [reply, Cache.perform_of_rejected reply, update_of_level? found] at ran
          exact ran.2.symm
      | _ => simp [reply] at ran

theorem atomic_enable (level : Level) (config : Config) : (enable level config).Atomic := by
  intro hierarchy error after ran
  simp only [enable, EStateM.run_bind, EStateM.run_get] at ran
  cases missing : hierarchy.missingParent? level with
  | some parent =>
      simp [missing] at ran
      exact ran.2.symm
  | none =>
      cases built : Cache.new config with
      | error error =>
          simp [missing, built] at ran
          exact ran.2.symm
      | ok cache => simp [missing, built] at ran

theorem atomic_disable (level : Level) : (disable level).Atomic := by
  intro hierarchy error after ran
  simp only [disable, EStateM.run_bind, EStateM.run_get] at ran
  cases needed : hierarchy.enabledChild? level with
  | some child =>
      simp [needed] at ran
      exact ran.2.symm
  | none => cases enabled : hierarchy.isEnabled level <;> simp [needed, enabled] at ran

theorem atomic_configure (level : Level) (config : Config) : (configure level config).Atomic :=
  (atomic_onLevel level _).then_modify _

theorem atomic_subscribe (level : Level) (observer : Observer) : (subscribe level observer).Atomic :=
  atomic_onLevel level _

end Action

/-! ## Whole operations -/

theorem enable_eq : hierarchy.enable level config =
    match hierarchy.missingParent? level with
    | some parent => .error (.parentDisabled level parent)
    | none =>
        match Cache.new config with
        | .ok cache => .ok (hierarchy.install level (cache.setUndoDepth hierarchy.undoDepth))
        | .error error => .error (.config error) := by
  simp only [enable, Action.result, Action.enable, EStateM.run_bind, EStateM.run_get]
  cases hierarchy.missingParent? level with
  | some parent => rfl
  | none => cases Cache.new config <;> rfl

theorem disable_eq : hierarchy.disable level =
    match hierarchy.enabledChild? level with
    | some child => .error (.childEnabled level child)
    | none => .ok (if hierarchy.isEnabled level then hierarchy.install level none else hierarchy) := by
  simp only [disable, Action.result, Action.disable, EStateM.run_bind, EStateM.run_get]
  cases hierarchy.enabledChild? level with
  | some child => rfl
  | none => cases enabled : hierarchy.isEnabled level <;> simp [enabled]

theorem configure_eq : hierarchy.configure level config =
    match hierarchy.level? level with
    | none => .error (.levelDisabled level)
    | some cache =>
        match cache.set (.config config) with
        | .ok cache => .ok (hierarchy.install level cache)
        | .error error => .error (.config error) := by
  simp only [configure, Action.result, Action.configure, Action.onLevel, EStateM.run_bind,
    EStateM.run_get]
  cases found : hierarchy.level? level with
  | none => rfl
  | some cache =>
      simp only [Cache.perform_set]
      cases cache.set (.config config) with
      | ok changed => simp [update, install, found]
      | error error => rfl

theorem subscribe_eq : hierarchy.subscribe level observer =
    if hierarchy.isEnabled level then .ok (hierarchy.update level (·.subscribe observer))
    else .error (.levelDisabled level) := by
  simp only [subscribe, Action.result, Action.subscribe, Action.onLevel, EStateM.run_bind,
    EStateM.run_get]
  cases found : hierarchy.level? level with
  | none => simp [isEnabled, found]
  | some cache => simp [isEnabled, found, Cache.perform_subscribe, update]

def settle (hierarchy : Hierarchy) (reply : Reply) :
    Except HierarchyError Hierarchy → Reply × Hierarchy
  | .ok changed => (reply, changed)
  | .error error => (.rejected error, hierarchy)

theorem settle_induction {motive : Hierarchy → Prop} {result : Except HierarchyError Hierarchy}
    (refused : motive hierarchy) (accepted : ∀ changed, result = .ok changed → motive changed)
    (reply : Reply) : motive (hierarchy.settle reply result).2 := by
  cases result with
  | ok changed => exact accepted changed rfl
  | error error => exact refused

theorem attempt_of_atomic {action : Action Unit} (atomic : action.Atomic) (reply : Reply) :
    hierarchy.attempt reply action = hierarchy.settle reply (action.result hierarchy) := by
  rw [attempt, atomic.run_eq]
  cases action.result hierarchy <;> rfl

theorem perform_enable : hierarchy.perform (.enable level config) =
    hierarchy.settle .done (hierarchy.enable level config) :=
  attempt_of_atomic (Action.atomic_enable level config) _

theorem perform_disable : hierarchy.perform (.disable level) =
    hierarchy.settle .done (hierarchy.disable level) :=
  attempt_of_atomic (Action.atomic_disable level) _

theorem perform_configure : hierarchy.perform (.configure level config) =
    hierarchy.settle (.configured level config) (hierarchy.configure level config) :=
  attempt_of_atomic (Action.atomic_configure level config) _

theorem perform_subscribe : hierarchy.perform (.subscribe level observer) =
    hierarchy.settle .done (hierarchy.subscribe level observer) :=
  attempt_of_atomic (Action.atomic_subscribe level observer) _

end Hierarchy

end SetAssoc
