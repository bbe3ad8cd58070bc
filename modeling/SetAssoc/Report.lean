import SetAssoc.Decimal.Fixed
import SetAssoc.Decimal.Shortest
import SetAssoc.Json.Value
import SetAssoc.Replay
import SetAssoc.Statistics
/-!
# Reports

Statistics are reported as a text in sections or as JSON. Rates have two places in the text and as
many digits as they need in JSON.
-/

namespace SetAssoc

open Json (Value)

inductive Section where
  | summary
  | levels
  | size
  deriving DecidableEq, Repr

namespace Section

def all : List Section := [summary, levels, size]

def name : Section → String
  | summary => "summary"
  | levels => "levels"
  | size => "size"

end Section

def padRight (width : Nat) (text : String) : String :=
  text ++ String.ofList (List.replicate (width - text.length) ' ')

def ruleLine (mark : Char) : String := String.ofList (List.replicate 58 mark ++ ['\n'])

def percentage (rate : Float) : String := Decimal.fixed 2 (rate * 100) ++ "%"

def rateStyle : Decimal.Style := { leastPoint := -4, greatestPoint := 16 }

namespace Statistics

def summaryText (statistics : Statistics) : String :=
  let accesses := ((statistics.levels.head?).map (·.2.accesses)).getD 0
  s!"levels.enabled           {statistics.levels.length}\n" ++
  s!"sim_accesses             {accesses}\n" ++
  s!"sim_memory_accesses      {statistics.memoryAccesses}\n" ++
  ruleLine '-'

def levelText (level : Level) (statistics : CacheStatistics) : String :=
  "  " ++ padRight 4 level.name ++
  " accesses: " ++ padRight 10 statistics.accesses.repr ++
  " | hits: " ++ padRight 10 statistics.hits.repr ++
  " | hit_rate: " ++ percentage statistics.hitRate ++
  " | writebacks: " ++ statistics.writebacks.repr ++ "\n" ++
  "       reads: " ++ padRight 10 statistics.reads.repr ++
  "    | writes: " ++ padRight 9 statistics.writes.repr ++
  " | miss_rate: " ++ percentage statistics.missRate ++ "\n"

def levelsText (statistics : Statistics) : String :=
  "CACHE LEVELS\n" ++
  String.join (statistics.levels.map fun (level, statistics) => levelText level statistics) ++
  ruleLine '-'

def sizeText (statistics : Statistics) : String :=
  "HARDWARE COST\n" ++
  String.join (statistics.levels.map fun (level, statistics) =>
    "  " ++ padRight 4 level.name ++ s!" {statistics.sizeBits} bits\n")

def sectionText (statistics : Statistics) : Section → String
  | .summary => statistics.summaryText
  | .levels => statistics.levelsText
  | .size => statistics.sizeText

/-- The sections whose names are given, or all sections if none is given. Unknown names ask for
nothing, and the order of the names does not matter. -/
def render (statistics : Statistics) (names : List String) : String :=
  let sections := Section.all.filter fun part => names.isEmpty || names.contains part.name
  ruleLine '=' ++ "CACHE SIMULATION STATISTICS\n" ++ ruleLine '=' ++
  String.join (sections.map statistics.sectionText) ++ ruleLine '='

end Statistics

/-! ## JSON -/

def rateJson (rate : Float) : Value :=
  match Decimal.shortestText rateStyle rate with
  | some text => .number text
  | none => .null

def CacheStatistics.toMembers (statistics : CacheStatistics) : List (String × Value) :=
  [("accesses", .ofNat statistics.accesses),
   ("hits", .ofNat statistics.hits),
   ("misses", .ofNat statistics.misses),
   ("reads", .ofNat statistics.reads),
   ("writes", .ofNat statistics.writes),
   ("writebacks", .ofNat statistics.writebacks),
   ("hit_rate", rateJson statistics.hitRate),
   ("size_bits", .ofNat statistics.sizeBits)]

def Statistics.toJson (statistics : Statistics) : Value :=
  .ofMembers [("levels", .array (statistics.levels.map fun (level, statistics) =>
    .ofMembers (("level", .ofString level.name) :: statistics.toMembers)))]

def ReplaySummary.toJson (summary : ReplaySummary) : Value :=
  .ofMembers
    [("accesses", .ofNat summary.accesses),
     ("served_by", .array (Level.all.map fun level => .ofNat (summary.servedBy level))),
     ("memory", .ofNat summary.memory)]

def StorageCost.toJson (cost : StorageCost) : Value :=
  .ofMembers
    [("bits", .ofNat cost.bits),
     ("components", .array (cost.components.map fun (component, bits) =>
       .array [.ofString component.name, .ofNat bits]))]

end SetAssoc
