import SetAssoc.Hierarchy.Basic
import SetAssoc.Json.Finite
import SetAssoc.Json.Value
/-!
# Configuration documents

Configurations, hierarchies of them and presets are read from JSON and written as JSON. The members
of a configuration are all optional, and those of other names are ignored. A preset is buffered,
which limits what even its ignored members may hold.
-/

namespace SetAssoc

open Json (Value Text Token)

namespace Document

/-! ## Reading values -/

def readWord : Value → Option UInt32
  | .number lexeme => word? 10 lexeme.toList
  | _ => none

abbrev Names (α : Type) := List (String × α)

/-- A value given by name, or as an object whose only member has that name and holds nothing. -/
def readName {α : Type} (holdsNothing : Value → Bool) (names : Names α) : Value → Option α
  | .string (some name) => names.lookup name
  | .object [(some name, value)] => if holdsNothing value then names.lookup name else none
  | _ => none

def readKeys (members : List (Text × Value)) : Option (List (String × Value)) :=
  members.mapM fun (key, value) => key.map (·, value)

def member? (members : List (String × Value)) (name : String) : Option (Option Value) :=
  match members.filter (·.1 = name) with
  | [] => some none
  | [(_, value)] => some (some value)
  | _ => none

def readMember {α : Type} (members : List (String × Value)) (name : String)
    (read : Value → Option α) (default : α) : Option α :=
  (member? members name).bind fun value =>
    match value with
    | some value => read value
    | none => some default

/-- Reads an object, or an array of the values of the given keys in order, as members. -/
def readRecord {α : Type} (keys : List String) (read : List (String × Value) → Option α) :
    Value → Option α
  | .object members => (readKeys members).bind read
  | .array items => if items.length ≤ keys.length then read (keys.zip items) else none
  | _ => none

/-- In a buffered document an empty object holds no more than `null` does. -/
def isNullOrEmpty : Value → Bool
  | .null | .object [] => true
  | _ => false

end Document

open Document

/-! ## Names -/

def WritePolicy.names : Names WritePolicy :=
  [("WriteThrough", .writeThrough), ("WriteBack", .writeBack)]

def WriteAllocation.names : Names WriteAllocation :=
  [("WriteAllocate", .writeAllocate), ("NoWriteAllocate", .noWriteAllocate)]

def Replacement.names : Names Replacement :=
  [("RANDOM", .random), ("Random", .random), ("LRU", .lru), ("Lru", .lru)]

def AccessKind.names : Names AccessKind := AccessKind.all.map fun kind => (kind.name, kind)

def Level.names : Names Level := Level.all.map fun level => (level.name, level)

def Document.Names.nameOf {α : Type} [DecidableEq α] (names : Names α) (value : α) : String :=
  ((names.find? (·.2 = value)).map Prod.fst).getD ""

def Document.Names.toJson {α : Type} [DecidableEq α] (names : Names α) (value : α) : Value :=
  .ofString (names.nameOf value)

def Document.Names.ofJson {α : Type} (names : Names α) (text : String) : Except ConfigError α :=
  match (Value.parse? text).bind (readName Value.isNull names) with
  | some value => .ok value
  | none => .error .malformedDocument

/-! ## Configurations -/

namespace Config

def keys : List String :=
  ["block_bits", "line_bits", "way_bits", "write_policy", "write_alloc_policy",
    "replacement_policy"]

def ofMembers (holdsNothing : Value → Bool) (members : List (String × Value)) : Option Config := do
  let base : Config := {}
  let blockBits ← readMember members "block_bits" readWord base.blockBits
  let lineBits ← readMember members "line_bits" readWord base.lineBits
  let wayBits ← readMember members "way_bits" readWord base.wayBits
  let writePolicy ←
    readMember members "write_policy" (readName holdsNothing WritePolicy.names) base.writePolicy
  let writeAllocation ←
    readMember members "write_alloc_policy" (readName holdsNothing WriteAllocation.names)
      base.writeAllocation
  let replacement ←
    readMember members "replacement_policy" (readName holdsNothing Replacement.names)
      base.replacement
  return { blockBits, lineBits, wayBits, writePolicy, writeAllocation, replacement }

def ofValue? : Value → Option Config := readRecord keys (ofMembers Value.isNull)

def ofJson (text : String) : Except ConfigError Config :=
  match (Value.parse? text).bind ofValue? with
  | some config => config.validated
  | none => .error .malformedDocument

def toMembers (config : Config) : List (String × Value) :=
  [("block_bits", .ofNat config.blockBits.toNat),
   ("line_bits", .ofNat config.lineBits.toNat),
   ("way_bits", .ofNat config.wayBits.toNat),
   ("write_policy", WritePolicy.names.toJson config.writePolicy),
   ("write_alloc_policy", WriteAllocation.names.toJson config.writeAllocation),
   ("replacement_policy", Replacement.names.toJson config.replacement)]

def toJson (config : Config) : Value := .ofMembers config.toMembers

end Config

namespace Preset

def ofJson (text : String) : Except ConfigError Preset :=
  match read text with
  | some preset => .ok preset
  | none => .error .malformedDocument
where
  read (text : String) : Option Preset := do
    let tokens ← Json.tokens? text
    guard (Json.isBufferable tokens)
    let .object members ← Value.ofTokens? tokens | none
    let members ← readKeys members
    let some (.string (some name)) ← member? members "name" | none
    let config ← Config.ofMembers isNullOrEmpty members
    return { name, config }

def toJson (preset : Preset) : Value :=
  .ofMembers (("name", .ofString preset.name) :: preset.config.toMembers)

end Preset

namespace HierarchyConfig

def keys : List String := ["l1", "l2", "l3"]

def readLevel : Value → Option (Option Config)
  | .null => some none
  | value => (Config.ofValue? value).map some

def ofMembers (members : List (String × Value)) : Option HierarchyConfig := do
  let l1 ← readMember members "l1" readLevel none
  let l2 ← readMember members "l2" readLevel none
  let l3 ← readMember members "l3" readLevel none
  return { l1, l2, l3 }

def ofValue? : Value → Option HierarchyConfig := readRecord keys ofMembers

/-- Reads a hierarchy of configurations and checks each of them, from L1 down. Gaps between the
levels are found only when the hierarchy is built. -/
def ofJson (text : String) : Except ConfigError HierarchyConfig :=
  match (Value.parse? text).bind ofValue? with
  | some config => config.validate.map fun _ => config
  | none => .error .malformedDocument

def toJson (config : HierarchyConfig) : Value :=
  let level (config : Option Config) : Value := (config.map Config.toJson).getD .null
  .ofMembers [("l1", level config.l1), ("l2", level config.l2), ("l3", level config.l3)]

end HierarchyConfig

end SetAssoc
