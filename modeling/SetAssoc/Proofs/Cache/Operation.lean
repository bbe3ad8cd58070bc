import SetAssoc.Cache.Operation
import SetAssoc.Proofs.Cache.Sound

/-!
# What the operations on a cache come down to

An operation writes to the cache and tells the observers as it goes along. Here it is read off as
one reply, one cache after it and one list of events; a refused setting has written and told
nothing.
-/

namespace SetAssoc

/-- The events of an operation, given the hit rate after it. -/
def Reply.events (rate : Float) : Reply → List Event
  | accessed transaction => [.transaction transaction, .hitRate rate]
  | undone none => []
  | undone (some transaction) =>
      (transaction.way.map (.wayRestored transaction.location.line)).toList ++ [.hitRate rate]
  | emptied => [.emptied, .hitRate 0]
  | configured config => [.emptied, .hitRate 0, .configured config]
  | rejected _ | done => []

namespace Cache

variable {cache changed : Cache} {config : Config} {setting : Setting}

/-! ## Settings -/

def reconfigure (cache : Cache) (config : Config) : Cache :=
  { cache with config, layout := config.layout }.reset

def set (cache : Cache) (setting : Setting) : Except ConfigError Cache :=
  let config := cache.config.change setting
  if setting.isPolicy then
    .ok (cache.reconfigure config)
  else
    config.validate.map fun _ => cache.reconfigure config

theorem set_eq_ok_iff : cache.set setting = .ok changed ↔
    (setting.isPolicy = true ∨ (cache.config.change setting).Valid) ∧
      cache.reconfigure (cache.config.change setting) = changed := by
  rw [← Config.validate_eq_ok_iff, Cache.set]
  cases setting.isPolicy <;> cases (cache.config.change setting).validate <;> simp [Except.map]

theorem set_of_error {error : ConfigError} (checked : setting.isPolicy = false)
    (invalid : (cache.config.change setting).validate = .error error) :
    cache.set setting = .error error := by
  simp [set, checked, invalid, Except.map]

theorem valid_change (policy : setting.isPolicy = true) (geometry : config.Valid) :
    (config.change setting).Valid := by
  cases setting <;> simp only [Setting.isPolicy, Bool.false_eq_true] at policy <;> exact geometry

theorem sound_reconfigure (cache : Cache) (geometry : config.Valid) :
    (cache.reconfigure config).Sound := sound_of_empty geometry rfl rfl rfl

theorem Sound.reconfigure (sound : cache.Sound)
    (accepted : setting.isPolicy = true ∨ (cache.config.change setting).Valid) :
    (cache.reconfigure (cache.config.change setting)).Sound := by
  obtain policy | geometry := accepted
  · exact cache.sound_reconfigure (valid_change policy sound.geometry)
  · exact cache.sound_reconfigure geometry

/-! ## The steps of an operation -/

namespace Action

variable {notices : List Notice}

theorem run_update (change : Cache → Cache) :
    (update change).run ⟨cache, notices⟩ = .ok () ⟨change cache, notices⟩ := rfl

theorem run_notify (event : Event) : (notify event).run ⟨cache, notices⟩ =
    .ok () ⟨cache, notices ++ deliver cache.observers [event]⟩ := rfl

theorem run_access (address : UInt32) (kind : AccessKind) :
    (access address kind).run ⟨cache, notices⟩ =
      let (transaction, after) := cache.access address kind
      .ok transaction ⟨after,
        notices ++ deliver cache.observers [.transaction transaction, .hitRate after.hitRate]⟩ := by
  simp only [access, EStateM.run_bind, EStateM.run_get, EStateM.run_pure, run_update, run_notify]
  simp [deliver, Cache.access]

theorem run_undo : undo.run ⟨cache, notices⟩ =
    .ok cache.undo.1 ⟨cache.undo.2,
      notices ++ deliver cache.observers ((Reply.undone cache.undo.1).events cache.undo.2.hitRate)⟩ := by
  rw [← observers_undo]
  simp only [undo, EStateM.run_bind, EStateM.run_get, run_update]
  cases cache.undo.1 with
  | none => simp [Reply.events, deliver]
  | some transaction =>
      cases way : transaction.way <;>
        simp [run_notify, Reply.events, way, deliver, -bind_pure_comp]

theorem run_reset : reset.run ⟨cache, notices⟩ =
    .ok () ⟨cache.reset, notices ++ deliver cache.observers [.emptied, .hitRate 0]⟩ := by
  simp only [reset, EStateM.run_bind, run_update, run_notify]
  simp [deliver, Cache.reset]

theorem run_reconfigure (config : Config) : (reconfigure config).run ⟨cache, notices⟩ =
    .ok () ⟨cache.reconfigure config,
      notices ++ deliver cache.observers [.emptied, .hitRate 0, .configured config]⟩ := by
  simp only [reconfigure, EStateM.run_bind, run_update, run_reset, run_notify]
  simp [deliver, Cache.reset, Cache.reconfigure]

theorem run_set (setting : Setting) : (set setting).run ⟨cache, notices⟩ =
    match cache.set setting with
    | .ok changed => .ok () ⟨changed,
        notices ++ deliver cache.observers [.emptied, .hitRate 0, .configured changed.config]⟩
    | .error error => .error error ⟨cache, notices⟩ := by
  simp only [set, EStateM.run_bind, EStateM.run_get, Cache.set]
  cases setting.isPolicy with
  | true => exact run_reconfigure _
  | false =>
      simp only [Bool.false_eq_true, if_false, apply, EStateM.run_bind]
      cases (cache.config.change setting).validate with
      | ok => exact run_reconfigure _
      | error error => rfl

end Action

/-! ## Whole operations -/

theorem perform_access (cache : Cache) (address : UInt32) (kind : AccessKind) :
    cache.perform (.access address kind) =
      (.accessed (cache.access address kind).1, (cache.access address kind).2) := rfl

theorem perform_setUndoDepth (cache : Cache) (depth : Nat) :
    cache.perform (.setUndoDepth depth) = (.done, cache.setUndoDepth depth) := rfl

theorem perform_reset (cache : Cache) : cache.perform .reset = (.emptied, cache.reset) := rfl

theorem perform_subscribe (cache : Cache) (observer : Observer) :
    cache.perform (.subscribe observer) = (.done, cache.subscribe observer) := rfl

theorem perform_undo (cache : Cache) : cache.perform .undo = (.undone cache.undo.1, cache.undo.2) := by
  simp only [perform, step, Action.perform, EStateM.run_bind, EStateM.run_pure, Action.run_undo]

theorem perform_set (cache : Cache) (setting : Setting) : cache.perform (.set setting) =
    match cache.set setting with
    | .ok changed => (.configured changed.config, changed)
    | .error error => (.rejected error, cache) := by
  simp only [perform, step, Action.perform, EStateM.run_bind, EStateM.run_pure, EStateM.run_get,
    Action.run_set]
  cases cache.set setting <;> rfl

theorem perform_set_cases (cache : Cache) (setting : Setting) :
    (setting.isPolicy = true ∨ (cache.config.change setting).Valid) ∧
        cache.perform (.set setting) = (.configured (cache.config.change setting),
          cache.reconfigure (cache.config.change setting)) ∨
      ¬ (setting.isPolicy = true ∨ (cache.config.change setting).Valid) ∧
        ∃ error, cache.perform (.set setting) = (.rejected error, cache) := by
  rw [perform_set]
  cases set : cache.set setting with
  | ok changed =>
      obtain ⟨accepted, rfl⟩ := set_eq_ok_iff.1 set
      exact .inl ⟨accepted, rfl⟩
  | error error =>
      refine .inr ⟨fun accepted => ?_, error, rfl⟩
      rw [set_eq_ok_iff.2 ⟨accepted, rfl⟩] at set
      cases set

theorem perform_of_rejected {operation : Operation} {error : ConfigError}
    (rejected : (cache.perform operation).1 = .rejected error) :
    (cache.perform operation).2 = cache := by
  cases operation with
  | set setting =>
      obtain ⟨-, performed⟩ | ⟨-, error, performed⟩ := cache.perform_set_cases setting
      · rw [performed] at rejected
        cases rejected
      · rw [performed]
  | undo =>
      rw [perform_undo] at rejected
      cases rejected
  | access | setUndoDepth | reset | subscribe => cases rejected

def emits (cache : Cache) (operation : Operation) : List Event :=
  (cache.perform operation).1.events (cache.perform operation).2.hitRate

theorem notices_step (cache : Cache) (operation : Operation) :
    (cache.step operation).notices = deliver cache.observers (cache.emits operation) := by
  cases operation with
  | access address kind =>
      simp only [step, Action.perform, EStateM.run_bind, EStateM.run_pure, Action.run_access]
      rfl
  | undo =>
      rw [emits, perform_undo]
      simp only [step, Action.perform, EStateM.run_bind, EStateM.run_pure, Action.run_undo]
      rfl
  | reset =>
      simp only [step, Action.perform, EStateM.run_bind, EStateM.run_pure, Action.run_reset]
      rfl
  | set setting =>
      rw [emits, perform_set]
      simp only [step, Action.perform, EStateM.run_bind, EStateM.run_pure, EStateM.run_get,
        Action.run_set]
      cases cache.set setting <;> simp [Reply.events, deliver]
  | setUndoDepth depth => rfl
  | subscribe observer => rfl

theorem step_eq (cache : Cache) (operation : Operation) : cache.step operation =
    { reply := (cache.perform operation).1
      cache := (cache.perform operation).2
      notices := deliver cache.observers (cache.emits operation) } := by
  rw [← notices_step]
  rfl

end Cache

end SetAssoc
