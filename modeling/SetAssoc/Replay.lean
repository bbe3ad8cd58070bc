import SetAssoc.Hierarchy.Basic
/-!
# Replaying a memory trace

`Hierarchy.replay` presents the requests of a trace to a hierarchy in order and counts where each of
them was served.
-/

namespace SetAssoc

structure ReplaySummary where
  accesses : Nat := 0
  l1 : Nat := 0
  l2 : Nat := 0
  l3 : Nat := 0
  memory : Nat := 0
  deriving DecidableEq, Repr

namespace ReplaySummary

def servedBy (summary : ReplaySummary) : Level → Nat
  | .l1 => summary.l1
  | .l2 => summary.l2
  | .l3 => summary.l3

def record (summary : ReplaySummary) (servedBy : Option Level) : ReplaySummary :=
  let summary := { summary with accesses := summary.accesses + 1 }
  match servedBy with
  | some .l1 => { summary with l1 := summary.l1 + 1 }
  | some .l2 => { summary with l2 := summary.l2 + 1 }
  | some .l3 => { summary with l3 := summary.l3 + 1 }
  | none => { summary with memory := summary.memory + 1 }

end ReplaySummary

def Hierarchy.replay (hierarchy : Hierarchy) (requests : List Request) :
    ReplaySummary × Hierarchy :=
  requests.foldl (fun (summary, hierarchy) request =>
    let (outcome, hierarchy) := hierarchy.access request.address request.kind
    (summary.record outcome.servedBy, hierarchy)) ({}, hierarchy)

end SetAssoc
