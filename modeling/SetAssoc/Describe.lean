import SetAssoc.Hierarchy.Basic
/-!
# Descriptions

One-line texts that show the state of a cache or of a hierarchy, for inspection. A record is shown
as its name and its fields; two dots at the end stand for fields that are left out.
-/

namespace SetAssoc

namespace Describe

def record (name : String) (fields : List (String × String)) (isComplete : Bool := true) : String :=
  let fields := fields.map fun (field, text) => s!"{field}: {text}"
  let fields := if isComplete then fields else fields ++ [".."]
  name ++ " \x7b " ++ ", ".intercalate fields ++ " \x7d"

def list (items : List String) : String := "[" ++ ", ".intercalate items ++ "]"

def option : Option String → String
  | some text => s!"Some({text})"
  | none => "None"

end Describe

def WritePolicy.describe : WritePolicy → String
  | writeThrough => "WriteThrough"
  | writeBack => "WriteBack"

def WriteAllocation.describe : WriteAllocation → String
  | writeAllocate => "WriteAllocate"
  | noWriteAllocate => "NoWriteAllocate"

def Replacement.describe : Replacement → String
  | random => "Random"
  | lru => "Lru"

def Config.describe (config : Config) : String :=
  Describe.record "CacheConfig"
    [("block_bits", config.blockBits.toNat.repr),
     ("line_bits", config.lineBits.toNat.repr),
     ("way_bits", config.wayBits.toNat.repr),
     ("write_policy", config.writePolicy.describe),
     ("write_alloc_policy", config.writeAllocation.describe),
     ("replacement_policy", config.replacement.describe)]

def Cache.describe (cache : Cache) : String :=
  Describe.record "CacheSim"
    [("config", cache.config.describe),
     ("lines", cache.lines.size.repr),
     ("accesses", cache.counters.length.repr),
     ("observers", cache.observers.length.repr)] false

def Hierarchy.describe (hierarchy : Hierarchy) : String :=
  Describe.record "CacheHierarchy"
    [("levels", Describe.list (Level.all.map fun level =>
        Describe.option ((hierarchy.level? level).map Cache.describe))),
     ("history", Describe.list (hierarchy.history.reverse.map Nat.repr)),
     ("undo_depth", hierarchy.undoDepth.repr)]

end SetAssoc
