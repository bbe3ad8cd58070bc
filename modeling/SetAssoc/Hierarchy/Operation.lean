import SetAssoc.Hierarchy.Basic
/-!
# Operations on a hierarchy

`Hierarchy.perform` names the operations that change a hierarchy and gives what each returns.
`Hierarchy.step` also delivers, level by level, the events that the operation emits.
-/

namespace SetAssoc.Hierarchy

inductive Operation where
  | access (address : UInt32) (kind : AccessKind)
  | undo
  | setUndoDepth (depth : Nat)
  | reset
  | enable (level : Level) (config : Config)
  | disable (level : Level)
  | teardown (level : Level)
  | configure (level : Level) (config : Config)
  | subscribe (level : Level) (observer : Observer)
  deriving DecidableEq, Repr

def Operation.setLevel (level : Level) (enabled : Bool) (config : Config) : Operation :=
  if enabled then .enable level config else .disable level

inductive Reply where
  | accessed (outcome : Outcome)
  | undone (reversal : Option Reversal)
  | emptied (levels : List Level)
  | configured (level : Level) (config : Config)
  | rejected (error : HierarchyError)
  | done
  deriving DecidableEq, Repr

/-- The operations that an operation with this reply carries out at the levels, in order. -/
def Operation.atLevels : Operation → Reply → List (Level × SetAssoc.Operation)
  | .access address kind, .accessed outcome =>
      outcome.visits.map fun visit => (visit.level, .access address kind)
  | .undo, .undone (some reversal) => reversal.visits.map fun visit => (visit.level, .undo)
  | .reset, .emptied levels => levels.map (·, .reset)
  | .configure level config, _ => [(level, .set (.config config))]
  | _, _ => []

def attempt (hierarchy : Hierarchy) (reply : Reply) (action : Action Unit) : Reply × Hierarchy :=
  match action.run hierarchy with
  | .ok () hierarchy => (reply, hierarchy)
  | .error error hierarchy => (.rejected error, hierarchy)

def perform (hierarchy : Hierarchy) : Operation → Reply × Hierarchy
  | .access address kind =>
      let (outcome, hierarchy) := hierarchy.access address kind
      (.accessed outcome, hierarchy)
  | .undo =>
      let (reversal, hierarchy) := hierarchy.undo
      (.undone reversal, hierarchy)
  | .setUndoDepth depth => (.done, hierarchy.setUndoDepth depth)
  | .reset => (.emptied (Level.all.filter hierarchy.isEnabled), hierarchy.reset)
  | .enable level config => hierarchy.attempt .done (.enable level config)
  | .disable level => hierarchy.attempt .done (.disable level)
  | .teardown level => (.done, hierarchy.teardown level)
  | .configure level config =>
      hierarchy.attempt (.configured level config) (.configure level config)
  | .subscribe level observer => hierarchy.attempt .done (.subscribe level observer)

structure Step where
  reply : Reply
  hierarchy : Hierarchy
  notices : List Notice

def step (hierarchy : Hierarchy) (operation : Operation) : Step :=
  let (reply, changed) := hierarchy.perform operation
  let notices := (operation.atLevels reply).flatMap fun (level, operation) =>
    match hierarchy.level? level with
    | some cache => (cache.step operation).notices
    | none => []
  { reply, hierarchy := changed, notices }

def run (hierarchy : Hierarchy) : List Operation → List Reply × Hierarchy × List Notice
  | [] => ([], hierarchy, [])
  | operation :: rest =>
      let step := hierarchy.step operation
      let (replies, hierarchy, notices) := step.hierarchy.run rest
      (step.reply :: replies, hierarchy, step.notices ++ notices)

end SetAssoc.Hierarchy
