import SetAssoc.Transaction

/-!
# Counting transactions

The counters after a run count the transactions of its log, which is given the newest first.
-/

namespace SetAssoc

theorem countP_cons_toNat (accept : Transaction → Bool) (transaction : Transaction)
    (log : List Transaction) :
    (transaction :: log).countP accept = log.countP accept + (accept transaction).toNat := by
  rw [List.countP_cons]
  cases accept transaction <;> rfl

namespace Counters

def ofLog (log : List Transaction) : Counters where
  hits := log.countP (·.isHit)
  misses := log.countP (!·.isHit)
  reads := log.countP (!·.kind.isWrite)
  writes := log.countP (·.kind.isWrite)
  writebacks := log.countP (·.isWriteback)

variable (transaction : Transaction) (log : List Transaction)

theorem ofLog_cons : ofLog (transaction :: log) = (ofLog log).record transaction := by
  simp only [ofLog, record, countP_cons_toNat]

theorem accesses_ofLog : (ofLog log).accesses = log.length := by
  rw [List.length_eq_countP_add_countP (·.isHit)]
  simp only [accesses, ofLog, Bool.not_eq_true, Bool.decide_eq_false]

theorem reads_add_writes_ofLog : (ofLog log).reads + (ofLog log).writes = log.length := by
  rw [List.length_eq_countP_add_countP (·.kind.isWrite), Nat.add_comm]
  simp only [ofLog, Bool.not_eq_true, Bool.decide_eq_false]

end Counters

namespace CounterLog

def ofLog : List Transaction → CounterLog
  | [] => {}
  | transaction :: older => (ofLog older).push transaction

theorem latest_ofLog (log : List Transaction) : (ofLog log).latest = Counters.ofLog log := by
  induction log with
  | nil => rfl
  | cons transaction older ih =>
      rw [Counters.ofLog_cons, ← ih]
      rfl

end CounterLog

end SetAssoc
