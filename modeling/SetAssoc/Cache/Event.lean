import SetAssoc.Transaction
/-!
# Events and observers

A cache tells its observers what happens to it. Each event goes to all observers, in the order in
which they subscribed, before the next event goes to any.
-/

namespace SetAssoc

inductive Event where
  | transaction (transaction : Transaction)
  | configured (config : Config)
  | wayRestored (line way : Nat)
  | emptied
  | hitRate (rate : Float)

inductive Observer where
  | recorder (number : Nat)
  | silent
  deriving DecidableEq, Repr

structure Notice where
  recorder : Nat
  event : Event

def Observer.hear (event : Event) : Observer → Option Notice
  | recorder number => some { recorder := number, event }
  | silent => none

/-- What the observers record of a sequence of events, in the order of delivery. -/
def deliver (observers : List Observer) (events : List Event) : List Notice :=
  events.flatMap fun event => observers.filterMap (·.hear event)

end SetAssoc
