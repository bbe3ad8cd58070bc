import SetAssoc.Cache.Basic
import SetAssoc.Proofs.Line.Erasure

/-!
# Lines under write-through

Whatever is done to a line looks only at tags, valid bits and ranks, so forgetting which blocks are
dirty can be put off until after it is done.
-/

namespace SetAssoc

open Std (ExtTreeMap)

def Way.asWriteThrough (way : Way) : Way := { way with dirty := false, dirtyBlocks := ∅ }

def Line.asWriteThrough (line : Line) : Line := line.map fun _ way => way.asWriteThrough

def Config.asWriteThrough (config : Config) : Config := { config with writePolicy := .writeThrough }

def Placement.asWriteThrough (placement : Placement) : Placement where
  way := placement.way
  line := placement.line.asWriteThrough
  previous := placement.previous.asWriteThrough
  isHit := placement.isHit

@[simp]
theorem Way.asWriteThrough_markDirty (w : Way) (block : Nat) :
    (w.markDirty block).asWriteThrough = w.asWriteThrough := rfl

namespace Line

variable {l : Line} {i : Nat}

@[simp]
theorem getElem?_asWriteThrough : l.asWriteThrough[i]? = l[i]?.map Way.asWriteThrough :=
  ExtTreeMap.getElem?_map

@[simp]
theorem mem_asWriteThrough : i ∈ l.asWriteThrough ↔ i ∈ l := ExtTreeMap.mem_map

@[simp]
theorem way_asWriteThrough : l.asWriteThrough.way i = (l.way i).asWriteThrough := way_map rfl i

@[simp]
theorem find?_asWriteThrough (tag : Nat) : l.asWriteThrough.find? tag = l.find? tag :=
  find?_toList_map fun _ _ => rfl

@[simp]
theorem victim?_asWriteThrough (ways : Nat) : l.asWriteThrough.victim? ways = l.victim? ways := by
  have invalid : (l.asWriteThrough.toList.find? fun entry => !entry.2.valid).map Prod.fst =
      (l.toList.find? fun entry => !entry.2.valid).map Prod.fst := find?_toList_map fun _ _ => rfl
  have oldest : (l.asWriteThrough.toList.find? fun entry => entry.2.rank == ways - 1).map Prod.fst =
      (l.toList.find? fun entry => entry.2.rank == ways - 1).map Prod.fst :=
    find?_toList_map fun _ _ => rfl
  have distribute (first second : Option (Nat × Way)) :
      (first <|> second).map Prod.fst = (first.map Prod.fst <|> second.map Prod.fst) := by
    cases first <;> rfl
  rw [victim?_eq, victim?_eq, distribute, distribute, invalid, oldest]

theorem asWriteThrough_insert (w : Way) :
    asWriteThrough (l.insert i w) = l.asWriteThrough.insert i w.asWriteThrough := map_insert w

theorem asWriteThrough_update {change after : Way → Way}
    (commutes : ∀ w, (change w).asWriteThrough = after w.asWriteThrough) :
    (l.update i change).asWriteThrough = l.asWriteThrough.update i after := map_alter commutes

theorem asWriteThrough_update_markDirty (block : Nat) :
    (l.update i (·.markDirty block)).asWriteThrough = l.asWriteThrough := by
  apply ExtTreeMap.ext_getElem?
  intro other
  simp only [getElem?_asWriteThrough, getElem?_update]
  split
  · cases l[other]? <;> simp
  · rfl

theorem asWriteThrough_materialize (ways : Nat) :
    (l.materialize ways).asWriteThrough = l.asWriteThrough.materialize ways := by
  have create (l : Line) (i : Nat) : asWriteThrough (l.insertIfNew i Way.empty) =
      l.asWriteThrough.insertIfNew i Way.empty := by
    apply ExtTreeMap.ext_getElem?
    intro other
    simp only [getElem?_asWriteThrough, ExtTreeMap.getElem?_insertIfNew, mem_asWriteThrough]
    split <;> rfl
  rw [materialize, materialize]
  generalize List.range ways = indices
  induction indices generalizing l with
  | nil => rfl
  | cons i rest ih => rw [List.foldl_cons, List.foldl_cons, ih, create]

theorem asWriteThrough_rerank (others : Nat → Nat) (rank : Nat) :
    (l.rerank i others rank).asWriteThrough = l.asWriteThrough.rerank i others rank := by
  apply ExtTreeMap.ext_getElem?
  intro other
  simp only [getElem?_asWriteThrough, getElem?_rerank, Option.map_map]
  congr 1
  funext w
  by_cases same : other = i
  · simp [same, Way.asWriteThrough]
  · cases valid : w.valid <;> simp [same, Way.asWriteThrough, valid]

theorem asWriteThrough_touch : (l.touch i).asWriteThrough = l.asWriteThrough.touch i := by
  rw [touch, touch, asWriteThrough_rerank, way_asWriteThrough]
  rfl

theorem asWriteThrough_revert (previous : Nat) :
    (l.revert i previous).asWriteThrough = l.asWriteThrough.revert i previous :=
  asWriteThrough_rerank _ _

end Line

/-! ## Accesses and undos -/

variable (config : Config) (source : RandomSource) (l : Line)

theorem Config.chooseWay?_asWriteThrough : config.asWriteThrough.chooseWay? source l.asWriteThrough =
    ((config.chooseWay? source l).1, (config.chooseWay? source l).2.1.asWriteThrough,
      (config.chooseWay? source l).2.2) := by
  have replacement : config.asWriteThrough.replacement = config.replacement := rfl
  have ways : config.asWriteThrough.ways = config.ways := rfl
  rw [chooseWay?, chooseWay?, replacement, ways]
  cases config.replacement with
  | random => rfl
  | lru =>
      by_cases single : config.ways = 1
      · simp [single]
      · simp [single, Line.chooseVictim, ← Line.asWriteThrough_materialize]

theorem Config.place_asWriteThrough (tag : Nat) (allocates : Bool) :
    config.asWriteThrough.place source l.asWriteThrough tag allocates =
      ((config.place source l tag allocates).1.map Placement.asWriteThrough,
        (config.place source l tag allocates).2) := by
  rw [place, place, Line.find?_asWriteThrough]
  cases l.find? tag with
  | some i => simp [Placement.asWriteThrough]
  | none =>
      cases allocates with
      | false => rfl
      | true =>
          simp only [chooseWay, chooseWay?_asWriteThrough, if_true, Option.map_some,
            Placement.asWriteThrough, Line.asWriteThrough_insert, Line.way_asWriteThrough]
          rfl

theorem Placement.settle_asWriteThrough (placement : Placement) (kind : AccessKind) (block : Nat) :
    placement.asWriteThrough.settle config.asWriteThrough kind block =
      (placement.settle config kind block).asWriteThrough := by
  have replacement : config.asWriteThrough.replacement = config.replacement := rfl
  have marked : (if kind.isWrite && config.writePolicy == .writeBack then
      placement.line.update placement.way (·.markDirty block)
    else placement.line).asWriteThrough = placement.line.asWriteThrough := by
    split
    · exact Line.asWriteThrough_update_markDirty block
    · rfl
  have unmarked : (kind.isWrite && config.asWriteThrough.writePolicy == .writeBack) = false :=
    Bool.and_false _
  rw [settle, settle, unmarked, replacement]
  split
  · rw [Line.asWriteThrough_touch, marked]
    rfl
  · rw [marked]
    rfl

theorem Config.restore_asWriteThrough (way : Nat) (previous : Way) :
    config.asWriteThrough.restore l.asWriteThrough way previous.asWriteThrough =
      (config.restore l way previous).asWriteThrough := by
  have replacement : config.asWriteThrough.replacement = config.replacement := rfl
  have updated : (l.update way fun _ => previous).asWriteThrough =
      l.asWriteThrough.update way fun _ => previous.asWriteThrough :=
    Line.asWriteThrough_update fun _ => rfl
  rw [restore, restore, replacement]
  split
  · rw [Line.asWriteThrough_revert, updated]
    rfl
  · exact updated.symm

end SetAssoc
