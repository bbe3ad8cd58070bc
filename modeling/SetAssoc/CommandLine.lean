import SetAssoc.Document
import SetAssoc.Report
import SetAssoc.Trace
/-!
# The command line

Three commands: `run` replays a trace and reports where it was served, `presets` lists the built-in
presets, and `size` reports the storage that each level needs.
-/

namespace SetAssoc

open Json (Value)

inductive Command where
  | run (config : Option String) (trace : String) (json : Bool) (sections : List String)
  | presets
  | size (config : Option String)
  deriving DecidableEq, Repr

namespace Command

/-! ## Arguments -/

structure Options where
  config : Option String := none
  trace : Option String := none
  json : Bool := false
  sections : List String := []
  deriving DecidableEq, Repr

namespace Options

def setOnce (old : Option String) (value : String) : Option (Option String) :=
  if old.isSome then none else some (some value)

def assign (options : Options) (name value : String) : Option Options :=
  match name with
  | "-c" | "--config" => (setOnce options.config value).map ({ options with config := · })
  | "-t" | "--trace" => (setOnce options.trace value).map ({ options with trace := · })
  | "--sections" =>
      let sections := value.splitOn ","
      if sections.all (Section.all.map Section.name).contains then
        some { options with sections := options.sections ++ sections }
      else
        none
  | _ => none

def joined? (argument : String) : Option (String × String) :=
  match argument.splitOn "=" with
  | name :: value :: rest => some (name, "=".intercalate (value :: rest))
  | _ => none

/-- Reads arguments; each option but `--json` takes a value, which does not start with a dash. -/
def read (options : Options) : List String → Option Options
  | [] => some options
  | [argument] => single options argument
  | argument :: value :: rest =>
      if argument = "--json" || (joined? argument).isSome then
        (single options argument).bind (·.read (value :: rest))
      else if value.startsWith "-" && value != "-" then
        none
      else
        (options.assign argument value).bind (·.read rest)
where
  single (options : Options) (argument : String) : Option Options :=
    if argument = "--json" then
      if options.json then none else some { options with json := true }
    else
      (joined? argument).bind fun (name, value) => options.assign name value

end Options

def parse? : List String → Option Command
  | "run" :: arguments => do
      let options ← ({} : Options).read arguments
      let trace ← options.trace
      return run options.config trace options.json options.sections
  | ["presets"] => some presets
  | "size" :: arguments => do
      let options ← ({} : Options).read arguments
      guard (options = { config := options.config })
      return size options.config
  | _ => none

def files : Command → List String
  | run config trace _ _ => config.toList ++ [trace]
  | presets => []
  | size config => config.toList

/-! ## Execution -/

inductive Error where
  | file (fault : File.Fault)
  | config (error : ConfigError)
  | hierarchy (error : HierarchyError)
  | trace (error : Trace.Error)
  deriving DecidableEq, Repr

def Error.message : Error → String
  | file fault => fault.message
  | config error => error.message
  | hierarchy error => error.message
  | trace error => error.message

structure Result where
  exitCode : Nat
  output : String := ""
  errors : String := ""
  deriving DecidableEq, Repr

def buildHierarchy (contents : String → Option ByteArray) (config : Option String) :
    Except Error Hierarchy := do
  let config ←
    match config with
    | some name => do
        let text ← (File.text (contents name)).mapError .file
        (HierarchyConfig.ofJson text).mapError .config
    | none => pure HierarchyConfig.onlyL1
  (Hierarchy.ofConfig config).mapError .hierarchy

def replayJson (summary : ReplaySummary) (statistics : Statistics) : Value :=
  .ofMembers [("replay", summary.toJson), ("stats", statistics.toJson)]

def output (contents : String → Option ByteArray) : Command → Except Error String
  | run config trace json sections => do
      let hierarchy ← buildHierarchy contents config
      let requests ← (Trace.ofFile (contents trace)).mapError .trace
      let (summary, hierarchy) := hierarchy.replay requests
      if json then
        return (replayJson summary hierarchy.statistics).pretty ++ "\n"
      else
        return hierarchy.statistics.render sections
  | presets => return (Value.array (Preset.builtin.map Preset.toJson)).pretty ++ "\n"
  | size config => do
      let hierarchy ← buildHierarchy contents config
      return String.join (hierarchy.enabled.map fun (level, cache) =>
        level.name ++ "\n" ++ cache.config.storageCost.describe ++ "\n")

/-- Carries a command out, where `contents` gives the bytes of each file that exists. -/
def execute (contents : String → Option ByteArray) (command : Command) : Result :=
  match command.output contents with
  | .ok output => { exitCode := 0, output }
  | .error error => { exitCode := 1, errors := s!"error: {error.message}\n" }

end Command

end SetAssoc
