import SetAssoc.Cache.Event
import SetAssoc.Config.Preset
import SetAssoc.Random.Source
import SetAssoc.Recency
import SetAssoc.StorageCost
/-!
# Caches

A cache holds the lines that were created so far, the counters after each access since the last
reset, and the records from which recent accesses can be undone.
-/

namespace SetAssoc

open Std (ExtTreeMap)

def AccessKind.allocates (kind : AccessKind) (policy : WriteAllocation) : Bool :=
  match kind with
  | .read => true
  | .write => policy == .writeAllocate

/-! ## One access to one line -/

structure Placement where
  way : Nat
  line : Line
  previous : Way
  isHit : Bool

namespace Placement

def becameValid (placement : Placement) : Bool :=
  !placement.isHit && !placement.previous.valid

def evictsDirty (placement : Placement) : Bool :=
  !placement.isHit && placement.previous.valid && placement.previous.dirty

def settle (placement : Placement) (config : Config) (kind : AccessKind) (block : Nat) : Line :=
  let line :=
    if kind.isWrite && config.writePolicy == .writeBack then
      placement.line.update placement.way (·.markDirty block)
    else
      placement.line
  if config.replacement = .lru then line.touch placement.way else line

end Placement

/-- Chooses the way that an allocating miss fills; there is none if a full line has no way of the
highest rank. Also gives the line with the ways that the choice created and the random source after
the choice. -/
def Config.chooseWay? (config : Config) (source : RandomSource) (line : Line) :
    Option Nat × Line × RandomSource :=
  match config.replacement with
  | .random =>
      let (way, source) := source.pick config.ways
      (some way, line, source)
  | .lru =>
      if config.ways = 1 then
        (some 0, line, source)
      else
        let (way, line) := line.chooseVictim config.ways
        (way, line, source)

def Config.chooseWay (config : Config) (source : RandomSource) (line : Line) :
    Nat × Line × RandomSource :=
  let (way, line, source) := config.chooseWay? source line
  (way.getD 0, line, source)

def Config.place (config : Config) (source : RandomSource) (line : Line) (tag : Nat)
    (allocates : Bool) : Option Placement × RandomSource :=
  match line.find? tag with
  | some way => (some { way, line, previous := line.way way, isHit := true }, source)
  | none =>
      if allocates then
        let (way, line, source) := config.chooseWay source line
        (some { way, line := line.insert way (.loaded tag), previous := line.way way, isHit := false },
          source)
      else
        (none, source)

def Config.restore (config : Config) (line : Line) (way : Nat) (previous : Way) : Line :=
  let line := line.update way fun _ => previous
  if config.replacement = .lru then line.revert way previous.rank else line

def Transaction.ofPlacement (config : Config) (layout : Layout) (address : UInt32) (kind : AccessKind)
    (placement : Option Placement) : Transaction where
  address
  kind
  location := layout.split address
  way := placement.map (·.way)
  isHit := placement.any (·.isHit)
  isWriteback :=
    kind.isWrite && config.writePolicy == .writeThrough || placement.all (·.evictsDirty)
  becameValid := placement.any (·.becameValid)
  tagChanged := placement.any (!·.isHit)

/-! ## Caches -/

structure UndoRecord where
  transaction : Transaction
  previous : Way
  deriving DecidableEq, Repr

def defaultUndoDepth : Nat := 100

structure Cache where
  config : Config := {}
  /-- How addresses are split, worked out when the configuration was installed. -/
  layout : Layout := config.layout
  lines : ExtTreeMap Nat Line := ∅
  counters : CounterLog := {}
  undoStack : List UndoRecord := []
  undoDepth : Nat := defaultUndoDepth
  source : RandomSource := default
  observers : List Observer := []

namespace Cache

instance : Inhabited Cache := ⟨{}⟩

def new (config : Config) (source : RandomSource := default) : Except ConfigError Cache :=
  config.validate.map fun _ => { config, layout := config.layout, source }

def line (cache : Cache) (index : Nat) : Line := cache.lines[index]?.getD ∅

def way (cache : Cache) (line way : Nat) : Way := (cache.line line).way way

def access (cache : Cache) (address : UInt32) (kind : AccessKind) : Transaction × Cache :=
  let address := wordAddress address
  let location := cache.layout.split address
  let (placement, source) :=
    cache.config.place cache.source (cache.line location.line) location.tag
      (kind.allocates cache.config.writeAllocation)
  let transaction := .ofPlacement cache.config cache.layout address kind placement
  let lines :=
    match placement with
    | some placement =>
        cache.lines.insert location.line (placement.settle cache.config kind location.block)
    | none => cache.lines
  let undoRecord := { transaction, previous := (placement.map (·.previous)).getD .empty }
  (transaction,
    { cache with
      lines
      source
      counters := cache.counters.push transaction
      undoStack := (undoRecord :: cache.undoStack).take cache.undoDepth })

/-- Whether an access has to fill a way and finds none to fill. No result of such an access has a
meaning; while the ranks of the lines are in order there is no such access. -/
def stuck (cache : Cache) (address : UInt32) (kind : AccessKind) : Bool :=
  let location := cache.layout.split (wordAddress address)
  let line := cache.line location.line
  (line.find? location.tag).isNone && kind.allocates cache.config.writeAllocation &&
    (cache.config.chooseWay? cache.source line).1.isNone

/-- Takes the newest access back and returns its transaction, if it is still on record. Lines and
ways that the access created stay, and so do the random words that it used up. -/
def undo (cache : Cache) : Option Transaction × Cache :=
  match cache.undoStack with
  | [] => (none, cache)
  | ⟨transaction, previous⟩ :: undoStack =>
      let lines :=
        match transaction.way with
        | some way =>
            cache.lines.alter transaction.location.line
              (Option.map fun line => cache.config.restore line way previous)
        | none => cache.lines
      (some transaction, { cache with lines, undoStack, counters := cache.counters.pop.2 })

def undoAvailable (cache : Cache) : Nat := cache.undoStack.length

def setUndoDepth (cache : Cache) (depth : Nat) : Cache :=
  { cache with undoDepth := depth, undoStack := cache.undoStack.take depth }

def reset (cache : Cache) : Cache :=
  { cache with lines := ∅, counters := {}, undoStack := [] }

def subscribe (cache : Cache) (observer : Observer) : Cache :=
  { cache with observers := cache.observers ++ [observer] }

def contains (cache : Cache) (address : UInt32) : Bool :=
  let location := cache.layout.split (wordAddress address)
  ((cache.line location.line).find? location.tag).isSome

def hitRate (cache : Cache) : Float := cache.counters.latest.hitRate

end Cache

/-! ## Settings -/

inductive Setting where
  | blockBits (bits : UInt32)
  | lineBits (bits : UInt32)
  | wayBits (bits : UInt32)
  | writePolicy (policy : WritePolicy)
  | writeAllocation (policy : WriteAllocation)
  | replacement (policy : Replacement)
  | config (config : Config)
  | preset (preset : Preset)
  deriving DecidableEq, Repr

def Config.change (config : Config) : Setting → Config
  | .blockBits bits => { config with blockBits := bits }
  | .lineBits bits => { config with lineBits := bits }
  | .wayBits bits => { config with wayBits := bits }
  | .writePolicy policy => { config with writePolicy := policy }
  | .writeAllocation policy => { config with writeAllocation := policy }
  | .replacement policy => { config with replacement := policy }
  | .config config => config
  | .preset preset => preset.config

def Setting.isPolicy : Setting → Bool
  | .writePolicy _ | .writeAllocation _ | .replacement _ => true
  | _ => false

end SetAssoc
