import SetAssoc.Cache.Basic
/-!
# Operations on a cache

An operation tells the observers what it does at the point where it has done it, and `Cache.step`
collects what they record. Only a setting can be refused.
-/

namespace SetAssoc

inductive Operation where
  | access (address : UInt32) (kind : AccessKind)
  | undo
  | setUndoDepth (depth : Nat)
  | reset
  | set (setting : Setting)
  | subscribe (observer : Observer)
  deriving DecidableEq, Repr

inductive Reply where
  | accessed (transaction : Transaction)
  | undone (transaction : Option Transaction)
  | emptied
  | configured (config : Config)
  | rejected (error : ConfigError)
  | done
  deriving DecidableEq, Repr

namespace Cache

structure Progress where
  cache : Cache
  notices : List Notice := []

/-- What is done before an error stays done. -/
abbrev Action := EStateM ConfigError Progress

namespace Action

def update (change : Cache → Cache) : Action Unit :=
  modify fun progress => { progress with cache := change progress.cache }

def notify (event : Event) : Action Unit :=
  modify fun ⟨cache, notices⟩ => ⟨cache, notices ++ deliver cache.observers [event]⟩

def access (address : UInt32) (kind : AccessKind) : Action Transaction := do
  let (transaction, cache) := (← get).cache.access address kind
  update fun _ => cache
  notify (.transaction transaction)
  notify (.hitRate cache.hitRate)
  return transaction

def undo : Action (Option Transaction) := do
  let (transaction, cache) := (← get).cache.undo
  update fun _ => cache
  if let some transaction := transaction then
    if let some way := transaction.way then
      notify (.wayRestored transaction.location.line way)
    notify (.hitRate cache.hitRate)
  return transaction

def reset : Action Unit := do
  update Cache.reset
  notify .emptied
  notify (.hitRate 0)

/-- Installs a configuration, whose layout need not suit the contents, and resets the cache. -/
def reconfigure (config : Config) : Action Unit := do
  update ({ · with config, layout := config.layout })
  reset
  notify (.configured config)

def apply (config : Config) : Action Unit := do
  MonadExcept.ofExcept config.validate
  reconfigure config

/-- A change of a policy leaves the geometry as it is and is not checked. -/
def set (setting : Setting) : Action Unit := do
  let config := (← get).cache.config.change setting
  if setting.isPolicy then reconfigure config else apply config

def perform : Operation → Action Reply
  | .access address kind => return .accessed (← access address kind)
  | .undo => return .undone (← undo)
  | .setUndoDepth depth => do
      update (·.setUndoDepth depth)
      return .done
  | .reset => do
      reset
      return .emptied
  | .set setting => do
      set setting
      return .configured (← get).cache.config
  | .subscribe observer => do
      update (·.subscribe observer)
      return .done

end Action

structure Step where
  reply : Reply
  cache : Cache
  notices : List Notice

def step (cache : Cache) (operation : Operation) : Step :=
  match (Action.perform operation).run { cache } with
  | .ok reply ⟨cache, notices⟩ => { reply, cache, notices }
  | .error error ⟨cache, notices⟩ => { reply := .rejected error, cache, notices }

def perform (cache : Cache) (operation : Operation) : Reply × Cache :=
  let step := cache.step operation
  (step.reply, step.cache)

def run (cache : Cache) : List Operation → List Reply × Cache × List Notice
  | [] => ([], cache, [])
  | operation :: rest =>
      let step := cache.step operation
      let (replies, cache, notices) := step.cache.run rest
      (step.reply :: replies, cache, step.notices ++ notices)

end Cache

end SetAssoc
