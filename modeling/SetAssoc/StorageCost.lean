import SetAssoc.Config.Basic
/-!
# Storage cost

The bits of storage that a cache needs in hardware, by what they store.
-/

namespace SetAssoc

inductive Component where
  | valid
  | dirty
  | lru
  | tag
  | data
  deriving DecidableEq, Repr

namespace Component

def all : List Component := [valid, dirty, lru, tag, data]

def name : Component → String
  | valid => "Valid"
  | dirty => "Dirty"
  | lru => "Lru"
  | tag => "Tag"
  | data => "Data"

def label : Component → String
  | valid => "Valid bits"
  | dirty => "Dirty bits"
  | lru => "LRU bits"
  | tag => "Tag bits"
  | data => "Data bits"

def bitsPerWay (config : Config) : Component → Option Nat
  | valid => some 1
  | dirty => if config.writePolicy = .writeBack then some 1 else none
  | lru => if config.replacement = .lru then some config.wayBits.toNat else none
  | tag => some config.tagBits
  | data => some (wordBits * config.blocks)

end Component

structure StorageCost where
  components : List (Component × Nat)
  deriving DecidableEq, Repr

namespace StorageCost

def bits (cost : StorageCost) : Nat :=
  cost.components.foldl (fun total part => total + part.2) 0

def component? (cost : StorageCost) (component : Component) : Option Nat :=
  (cost.components.find? fun part => part.1 = component).map Prod.snd

def describe (cost : StorageCost) : String :=
  let parts := cost.components.map fun (component, bits) => s!"{component.label}: {bits}\n"
  String.join parts ++ s!"Total: {cost.bits} bits"

end StorageCost

def Config.storageCost (config : Config) : StorageCost where
  components := Component.all.filterMap fun component =>
    (component.bitsPerWay config).map fun bits => (component, bits * config.entries)

end SetAssoc
