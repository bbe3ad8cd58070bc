import SetAssoc.Hierarchy.Basic
/-!
# Statistics

The counters, hit rate and storage cost of the enabled levels of a hierarchy at one point in time.
-/

namespace SetAssoc

structure CacheStatistics where
  accesses : Nat
  hits : Nat
  misses : Nat
  reads : Nat
  writes : Nat
  writebacks : Nat
  hitRate : Float
  sizeBits : Nat

def CacheStatistics.missRate (statistics : CacheStatistics) : Float :=
  if statistics.accesses = 0 then 0 else 1 - statistics.hitRate

def Cache.statistics (cache : Cache) : CacheStatistics :=
  let counters := cache.counters.latest
  { accesses := counters.accesses
    hits := counters.hits
    misses := counters.misses
    reads := counters.reads
    writes := counters.writes
    writebacks := counters.writebacks
    hitRate := counters.hitRate
    sizeBits := cache.config.storageCost.bits }

structure Statistics where
  levels : List (Level × CacheStatistics) := []

namespace Statistics

def level? (statistics : Statistics) (level : Level) : Option CacheStatistics :=
  (statistics.levels.find? (·.1 = level)).map Prod.snd

/-- The accesses that missed at every level: the misses of the lowest one. -/
def memoryAccesses (statistics : Statistics) : Nat :=
  (statistics.levels.getLast?.map (·.2.misses)).getD 0

end Statistics

def Hierarchy.statistics (hierarchy : Hierarchy) : Statistics where
  levels := hierarchy.enabled.map fun (level, cache) => (level, cache.statistics)

end SetAssoc
