import SetAssoc.Proofs.Cache.Reachable

/-!
# A new configuration restarts a cache

After a change of the configuration the cache is one that was just built, apart from its place in
the random stream, its undo depth and its observers.
-/

namespace SetAssoc.Cache

variable {cache : Cache} {config : Config}

/-- The empty cache of a configuration with the random source, undo depth and observers of another.
-/
def restarted (cache : Cache) (config : Config) : Cache where
  config := config
  layout := config.layout
  lines := ∅
  counters := {}
  undoStack := []
  undoDepth := cache.undoDepth
  source := cache.source
  observers := cache.observers

theorem step_set_of_error {setting : Setting} {error : ConfigError}
    (refused : cache.set setting = .error error) :
    cache.step (.set setting) = { reply := .rejected error, cache, notices := [] } := by
  rw [step_eq, emits, perform_set, refused]
  rfl

end SetAssoc.Cache
