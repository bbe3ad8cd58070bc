import SetAssoc.Line
/-!
# Least recently used ways

Each way carries a rank, 0 for the most recently used way of its line. Among `k` valid ways the
ranks are `0, …, k - 1`, and a way that holds nothing is unranked.
-/

namespace SetAssoc.Line

def rerank (line : Line) (index : Nat) (others : Nat → Nat) (rank : Nat) : Line :=
  line.map fun other way =>
    if other = index then { way with rank }
    else if way.valid then { way with rank := others way.rank }
    else way

theorem getElem?_rerank (l : Line) (index other rank : Nat) (others : Nat → Nat) :
    (l.rerank index others rank)[other]? = l[other]?.map fun w =>
      if other = index then { w with rank }
      else if w.valid then { w with rank := others w.rank }
      else w := by
  rw [rerank, Std.ExtTreeMap.getElem?_map]

@[simp]
theorem mem_rerank (l : Line) (index other rank : Nat) (others : Nat → Nat) :
    other ∈ l.rerank index others rank ↔ other ∈ l := by
  rw [rerank, Std.ExtTreeMap.mem_map]

theorem way_rerank {l : Line} {index : Nat} (h : index ∈ l) (others : Nat → Nat) (rank other : Nat) :
    (l.rerank index others rank).way other =
      { l.way other with
        rank :=
          if other = index then rank
          else if (l.way other).valid then others (l.way other).rank
          else (l.way other).rank } := by
  by_cases mem : other ∈ l
  · rw [way, way, getElem?_rerank, Std.ExtTreeMap.getElem?_eq_some_getElem mem]
    simp only [Option.map_some, Option.getD_some]
    split
    · rfl
    · split <;> rfl
  · have distinct : other ≠ index := fun e => mem (e ▸ h)
    rw [way_of_not_mem mem, way_of_not_mem (by simpa using mem), if_neg distinct]
    rfl

/-- Makes a way the most recently used one: each valid way that was more recent ages by one. -/
def touch (line : Line) (index : Nat) : Line :=
  let previous := (line.way index).rank
  line.rerank index (fun rank => if rank < previous then rank + 1 else rank) 0

/-- Takes back a touch of a way whose rank was `previous` before it: each other valid way of at most
that rank was aged by the touch and loses one again. -/
def revert (line : Line) (index previous : Nat) : Line :=
  line.rerank index (fun rank => if rank ≤ previous then rank - 1 else rank) previous

/-- The way to fill in a line all of whose ways are created: the lowest-numbered invalid way, else
the way of the highest rank. There is none only if no way has that rank. -/
def victim? (line : Line) (ways : Nat) : Option Nat :=
  ((line.toList.find? fun (_, way) => !way.valid) <|>
    line.toList.find? fun (_, way) => way.rank == ways - 1).map Prod.fst

theorem victim?_eq (l : Line) (ways : Nat) : l.victim? ways =
    ((l.toList.find? fun entry => !entry.2.valid) <|>
      l.toList.find? fun entry => entry.2.rank == ways - 1).map Prod.fst := rfl

def chooseVictim (line : Line) (ways : Nat) : Option Nat × Line :=
  let line := line.materialize ways
  (line.victim? ways, line)

end SetAssoc.Line
