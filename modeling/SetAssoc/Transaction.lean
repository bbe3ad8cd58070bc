import SetAssoc.Address
/-!
# Transactions and counters

A transaction tells where an access landed in a cache and what it did there. Counters summarise the
transactions of a run, and a counter log keeps the counters after each of them.
-/

namespace SetAssoc

structure Transaction where
  address : UInt32
  kind : AccessKind
  location : Location
  /-- The way that holds the block; none if a missed write bypassed the cache. -/
  way : Option Nat
  isHit : Bool
  /-- The access wrote to backing storage: it evicted a dirty way, was forwarded, or bypassed the
  cache. -/
  isWriteback : Bool
  becameValid : Bool
  tagChanged : Bool
  deriving DecidableEq, Repr

structure Counters where
  hits : Nat := 0
  misses : Nat := 0
  reads : Nat := 0
  writes : Nat := 0
  writebacks : Nat := 0
  deriving DecidableEq, Repr

namespace Counters

def record (counters : Counters) (transaction : Transaction) : Counters where
  hits := counters.hits + transaction.isHit.toNat
  misses := counters.misses + (!transaction.isHit).toNat
  reads := counters.reads + (!transaction.kind.isWrite).toNat
  writes := counters.writes + transaction.kind.isWrite.toNat
  writebacks := counters.writebacks + transaction.isWriteback.toNat

def accesses (counters : Counters) : Nat := counters.hits + counters.misses

def hitRate (counters : Counters) : Float :=
  if counters.accesses = 0 then 0 else counters.hits.toFloat / counters.accesses.toFloat

end Counters

structure CounterLog where
  newestFirst : List Counters := []
  deriving DecidableEq, Repr

namespace CounterLog

def latest (log : CounterLog) : Counters := log.newestFirst.head?.getD {}

def entries (log : CounterLog) : List Counters := log.newestFirst.reverse

def length (log : CounterLog) : Nat := log.newestFirst.length

def push (log : CounterLog) (transaction : Transaction) : CounterLog :=
  ⟨log.latest.record transaction :: log.newestFirst⟩

def pop (log : CounterLog) : Option Counters × CounterLog :=
  (log.newestFirst.head?, ⟨log.newestFirst.tail⟩)

end CounterLog

end SetAssoc
