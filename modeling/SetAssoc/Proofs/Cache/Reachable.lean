import SetAssoc.Proofs.Cache.Operation

/-!
# Reachable caches

The caches that operations lead to, starting from any cache that can be built. They are all sound.
-/

namespace SetAssoc.Cache

inductive Reachable : Cache → Prop where
  | new {config : Config} {source : RandomSource} {cache : Cache}
      (built : Cache.new config source = .ok cache) : Reachable cache
  | perform {cache : Cache} (reachable : Reachable cache) (operation : Operation) :
      Reachable (cache.perform operation).2

theorem Sound.perform {cache : Cache} (sound : cache.Sound) (operation : Operation) :
    (cache.perform operation).2.Sound := by
  cases operation with
  | access address kind => exact sound.access address kind
  | undo =>
      rw [perform_undo]
      exact sound.undo
  | setUndoDepth depth => exact sound.setUndoDepth depth
  | reset => exact sound.reset
  | set setting =>
      obtain ⟨accepted, performed⟩ | ⟨-, error, performed⟩ := cache.perform_set_cases setting
      · rw [performed]
        exact sound.reconfigure accepted
      · rw [performed]
        exact sound
  | subscribe observer => exact sound.subscribe observer

/-! ## Runs -/

theorem run_cons (cache : Cache) (operation : Operation) (rest : List Operation) :
    cache.run (operation :: rest) =
      ((cache.perform operation).1 :: ((cache.perform operation).2.run rest).1,
        ((cache.perform operation).2.run rest).2.1,
        (cache.step operation).notices ++ ((cache.perform operation).2.run rest).2.2) := rfl

theorem run_append (cache : Cache) (before after : List Operation) :
    cache.run (before ++ after) =
      ((cache.run before).1 ++ ((cache.run before).2.1.run after).1,
        ((cache.run before).2.1.run after).2.1,
        (cache.run before).2.2 ++ ((cache.run before).2.1.run after).2.2) := by
  induction before generalizing cache with
  | nil => rfl
  | cons operation rest ih =>
      rw [List.cons_append, run_cons, ih, run_cons]
      simp

namespace Reachable

variable {cache : Cache}

theorem sound (reachable : cache.Reachable) : cache.Sound := by
  induction reachable with
  | new built => exact sound_new built
  | perform _ operation ih => exact ih.perform operation

theorem access (reachable : cache.Reachable) (address : UInt32) (kind : AccessKind) :
    (cache.access address kind).2.Reachable := reachable.perform (.access address kind)

theorem undo (reachable : cache.Reachable) : cache.undo.2.Reachable := by
  have performed := reachable.perform .undo
  rwa [perform_undo] at performed

/-- What holds of every empty cache and is kept by the operations that do not empty one holds of
every reachable cache. -/
@[elab_as_elim]
theorem induct {motive : ∀ cache : Cache, cache.Reachable → Prop}
    (empty : ∀ {cache : Cache} (reachable : cache.Reachable), cache.lines = ∅ → cache.counters = {} →
      cache.undoStack = [] → motive cache reachable)
    (access : ∀ {cache : Cache} (reachable : cache.Reachable) (address : UInt32) (kind : AccessKind),
      motive cache reachable → motive _ (reachable.access address kind))
    (undo : ∀ {cache : Cache} (reachable : cache.Reachable),
      motive cache reachable → motive _ reachable.undo)
    (setUndoDepth : ∀ {cache : Cache} (reachable : cache.Reachable) (depth : Nat),
      motive cache reachable → motive _ (reachable.perform (.setUndoDepth depth)))
    (subscribe : ∀ {cache : Cache} (reachable : cache.Reachable) (observer : Observer),
      motive cache reachable → motive _ (reachable.perform (.subscribe observer)))
    (reachable : cache.Reachable) : motive cache reachable := by
  induction reachable with
  | new built =>
      obtain ⟨-, rfl⟩ := new_eq_ok_iff.1 built
      exact empty (.new built) rfl rfl rfl
  | @perform cache reachable operation ih =>
      cases operation with
      | access address kind => exact access reachable address kind ih
      | undo =>
          suffices ∀ after, motive (cache.perform .undo).2 after from this _
          rw [perform_undo]
          exact fun _ => undo reachable ih
      | setUndoDepth depth => exact setUndoDepth reachable depth ih
      | reset => exact empty (reachable.perform .reset) rfl rfl rfl
      | set setting =>
          suffices ∀ after, motive (cache.perform (.set setting)).2 after from this _
          obtain ⟨-, performed⟩ | ⟨-, error, performed⟩ := cache.perform_set_cases setting
          · rw [performed]
            exact fun after => empty after rfl rfl rfl
          · rw [performed]
            exact fun _ => ih
      | subscribe observer => exact subscribe reachable observer ih

theorem run (reachable : cache.Reachable) (operations : List Operation) :
    (cache.run operations).2.1.Reachable := by
  induction operations generalizing cache with
  | nil => exact reachable
  | cons operation rest ih => exact ih (reachable.perform operation)

end Reachable

end SetAssoc.Cache
