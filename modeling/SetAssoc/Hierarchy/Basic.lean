import SetAssoc.Cache.Operation
import SetAssoc.Level
/-!
# Cache hierarchies

A hierarchy is a chain of caches from L1 down, without gaps. An access is presented to L1, and a
miss is passed on to the next level until a level hits or the chain ends.
-/

namespace SetAssoc

inductive HierarchyError where
  | parentDisabled (level parent : Level)
  | childEnabled (level child : Level)
  | levelDisabled (level : Level)
  | config (error : ConfigError)
  deriving DecidableEq, Repr

def HierarchyError.message : HierarchyError → String
  | parentDisabled level parent => s!"cannot enable {level.name}: {parent.name} is not enabled"
  | childEnabled level child => s!"cannot disable {level.name}: {child.name} is still enabled"
  | levelDisabled level => s!"{level.name} is not enabled"
  | config error => error.message

structure LevelAccess where
  level : Level
  transaction : Transaction
  deriving DecidableEq, Repr

structure Outcome where
  visits : List LevelAccess := []
  deriving DecidableEq, Repr

namespace Outcome

def servedBy (outcome : Outcome) : Option Level :=
  (outcome.visits.find? (·.transaction.isHit)).map (·.level)

def visit? (outcome : Outcome) (level : Level) : Option Transaction :=
  (outcome.visits.find? (·.level = level)).map (·.transaction)

end Outcome

abbrev HierarchyConfig := Levels Config

namespace HierarchyConfig

def onlyL1 : HierarchyConfig := { l1 := some {} }

def validate (config : HierarchyConfig) : Except ConfigError Unit :=
  Level.all.forM fun level =>
    match config.get? level with
    | some config => config.validate
    | none => .ok ()

end HierarchyConfig

structure Hierarchy where
  levels : Levels Cache := {}
  /-- How many levels each access that can be undone visited, the newest access first. -/
  history : List Nat := []
  undoDepth : Nat := defaultUndoDepth

namespace Hierarchy

def level? (hierarchy : Hierarchy) (level : Level) : Option Cache := hierarchy.levels.get? level

def isEnabled (hierarchy : Hierarchy) (level : Level) : Bool := (hierarchy.level? level).isSome

def enabled (hierarchy : Hierarchy) : List (Level × Cache) := hierarchy.levels.chain

def update (hierarchy : Hierarchy) (level : Level) (change : Cache → Cache) : Hierarchy :=
  { hierarchy with
    levels := hierarchy.levels.set level ((hierarchy.level? level).map change) }

/-! ## Changing the levels -/

def missingParent? (hierarchy : Hierarchy) (level : Level) : Option Level :=
  level.parent?.filter (!hierarchy.isEnabled ·)

def enabledChild? (hierarchy : Hierarchy) (level : Level) : Option Level :=
  level.child?.filter hierarchy.isEnabled

/-- Puts a cache, or none, at a level. Older accesses no longer suit the levels, so they can not be
undone any more. -/
def install (hierarchy : Hierarchy) (level : Level) (cache : Option Cache) : Hierarchy :=
  { hierarchy with levels := hierarchy.levels.set level cache, history := [] }

abbrev Action := EStateM HierarchyError Hierarchy

namespace Action

def onLevel (level : Level) (operation : SetAssoc.Operation) : Action Unit := do
  match (← get).level? level with
  | none => throw (.levelDisabled level)
  | some cache =>
      let (reply, cache) := cache.perform operation
      modify (·.update level fun _ => cache)
      if let .rejected error := reply then
        throw (.config error)

def enable (level : Level) (config : Config) : Action Unit := do
  if let some parent := (← get).missingParent? level then
    throw (.parentDisabled level parent)
  match Cache.new config with
  | .error error => throw (.config error)
  | .ok cache =>
      modify fun hierarchy =>
        hierarchy.install level (cache.setUndoDepth hierarchy.undoDepth)

def disable (level : Level) : Action Unit := do
  if let some child := (← get).enabledChild? level then
    throw (.childEnabled level child)
  if (← get).isEnabled level then
    modify (·.install level none)

def configure (level : Level) (config : Config) : Action Unit := do
  onLevel level (.set (.config config))
  modify ({ · with history := [] })

def subscribe (level : Level) (observer : Observer) : Action Unit :=
  onLevel level (.subscribe observer)

def result (action : Action Unit) (hierarchy : Hierarchy) : Except HierarchyError Hierarchy :=
  match action.run hierarchy with
  | .ok () changed => .ok changed
  | .error error _ => .error error

end Action

def enable (hierarchy : Hierarchy) (level : Level) (config : Config) :
    Except HierarchyError Hierarchy :=
  (Action.enable level config).result hierarchy

def disable (hierarchy : Hierarchy) (level : Level) : Except HierarchyError Hierarchy :=
  (Action.disable level).result hierarchy

def configure (hierarchy : Hierarchy) (level : Level) (config : Config) :
    Except HierarchyError Hierarchy :=
  (Action.configure level config).result hierarchy

def subscribe (hierarchy : Hierarchy) (level : Level) (observer : Observer) :
    Except HierarchyError Hierarchy :=
  (Action.subscribe level observer).result hierarchy

def teardown (hierarchy : Hierarchy) (level : Level) : Hierarchy :=
  { hierarchy with
    levels := (Level.all.filter (level.index ≤ ·.index)).foldl (·.set · none) hierarchy.levels
    history := [] }

def ofConfig (config : HierarchyConfig) : Except HierarchyError Hierarchy :=
  Level.all.foldlM (fun hierarchy level =>
    match config.get? level with
    | some config => hierarchy.enable level config
    | none => .ok hierarchy) {}

/-! ## Accesses -/

/-- Presents an access to the given levels in order, up to the first that hits or is missing. -/
def visit (address : UInt32) (kind : AccessKind) (levels : Levels Cache) :
    List Level → List LevelAccess × Levels Cache
  | [] => ([], levels)
  | level :: below =>
      match levels.get? level with
      | none => ([], levels)
      | some cache =>
          let (transaction, cache) := cache.access address kind
          let levels := levels.set level (some cache)
          if transaction.isHit then
            ([{ level, transaction }], levels)
          else
            let (visits, levels) := visit address kind levels below
            ({ level, transaction } :: visits, levels)

def access (hierarchy : Hierarchy) (address : UInt32) (kind : AccessKind) : Outcome × Hierarchy :=
  let (visits, levels) := visit address kind hierarchy.levels Level.all
  let history :=
    if visits.isEmpty then hierarchy.history
    else (visits.length :: hierarchy.history).take hierarchy.undoDepth
  ({ visits }, { hierarchy with levels, history })

structure Reversal where
  depth : Nat
  visits : List LevelAccess
  deriving DecidableEq, Repr

def retract (levels : Levels Cache) : List Level → List LevelAccess × Levels Cache
  | [] => ([], levels)
  | level :: rest =>
      match levels.get? level with
      | none => retract levels rest
      | some cache =>
          let (transaction, cache) := cache.undo
          let (visits, levels) := retract (levels.set level (some cache)) rest
          ((transaction.map fun transaction => { level, transaction }).toList ++ visits, levels)

def undo (hierarchy : Hierarchy) : Option Reversal × Hierarchy :=
  match hierarchy.history with
  | [] => (none, hierarchy)
  | depth :: history =>
      let (visits, levels) := retract hierarchy.levels (Level.all.take depth).reverse
      (some { depth, visits }, { hierarchy with levels, history })

def setUndoDepth (hierarchy : Hierarchy) (depth : Nat) : Hierarchy where
  levels := hierarchy.levels.map (·.setUndoDepth depth)
  history := hierarchy.history.take depth
  undoDepth := depth

def reset (hierarchy : Hierarchy) : Hierarchy :=
  { hierarchy with levels := hierarchy.levels.map (·.reset), history := [] }

end Hierarchy

end SetAssoc
