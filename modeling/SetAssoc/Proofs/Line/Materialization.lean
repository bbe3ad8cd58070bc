import SetAssoc.Proofs.Line.Placement

/-!
# Created ways do not matter

Two lines whose ways read alike may differ in which ways were created, but no search in a line sees
the difference.
-/

namespace SetAssoc

namespace Line

variable {config : Config} {l other : Line} {tag i : Nat}

theorem find?_eq_some_iff (sound : Ways.Sound config l.way) :
    l.find? tag = some i ↔ (l.way i).holds tag = true := by
  constructor
  · exact holds_of_find?_eq_some
  intro holds
  cases found : l.find? tag with
  | none =>
      have absent := find?_eq_none_iff.1 found i
      exact absurd (absent.symm.trans holds) Bool.false_ne_true
  | some j =>
      rw [sound.eq_of_holds (holds_of_find?_eq_some found) holds]

theorem find?_congr (sound : Ways.Sound config l.way) (alike : l.way = other.way) (tag : Nat) :
    l.find? tag = other.find? tag := by
  apply Option.ext
  intro i
  rw [find?_eq_some_iff sound, find?_eq_some_iff (alike ▸ sound), alike]

theorem materialize_congr (bounded : l.Bounded config) (boundedOther : other.Bounded config)
    (alike : l.way = other.way) : l.materialize config.ways = other.materialize config.ways := by
  have mem (line : Line) (bounded : line.Bounded config) (i : Nat) :
      i ∈ line.materialize config.ways ↔ i < config.ways := by
    rw [mem_materialize]
    exact or_iff_left_of_imp (bounded i)
  apply Std.ExtTreeMap.ext_getElem?
  intro i
  by_cases created : i < config.ways
  · rw [getElem?_of_mem ((mem l bounded i).2 created),
      getElem?_of_mem ((mem other boundedOther i).2 created), way_materialize, way_materialize, alike]
  · rw [Std.ExtTreeMap.getElem?_eq_none (mt (mem l bounded i).1 created),
      Std.ExtTreeMap.getElem?_eq_none (mt (mem other boundedOther i).1 created)]

end Line

def Placement.choice (placement : Placement) : Nat × Way × Bool :=
  (placement.way, placement.previous, placement.isHit)

namespace Config

variable {config : Config} {line other : Line}

theorem way_chooseWay (source : RandomSource) (line : Line) (i : Nat) :
    (config.chooseWay source line).2.1.way i = line.way i := by
  unfold chooseWay chooseWay?
  cases config.replacement with
  | random => rfl
  | lru =>
      by_cases single : config.ways = 1
      · simp [single]
      · simp [single, Line.chooseVictim]

theorem chooseWay_congr (source : RandomSource) (bounded : line.Bounded config)
    (boundedOther : other.Bounded config) (alike : line.way = other.way) :
    (config.chooseWay source line).1 = (config.chooseWay source other).1 ∧
      (config.chooseWay source line).2.2 = (config.chooseWay source other).2.2 := by
  unfold chooseWay chooseWay?
  cases config.replacement with
  | random => exact ⟨rfl, rfl⟩
  | lru =>
      by_cases single : config.ways = 1
      · simp [single]
      · simp [single, Line.chooseVictim, Line.materialize_congr bounded boundedOther alike]

theorem choice_place_congr (source : RandomSource) (sound : Ways.Sound config line.way)
    (bounded : line.Bounded config) (boundedOther : other.Bounded config)
    (alike : line.way = other.way) (tag : Nat) (allocates : Bool) :
    (config.place source line tag allocates).1.map (·.choice) =
        (config.place source other tag allocates).1.map (·.choice) ∧
      (config.place source line tag allocates).2 = (config.place source other tag allocates).2 := by
  unfold place
  rw [← Line.find?_congr sound alike]
  cases line.find? tag with
  | some way => simp [Placement.choice, alike]
  | none =>
      cases allocates with
      | false => exact ⟨rfl, rfl⟩
      | true =>
          obtain ⟨way, after⟩ := chooseWay_congr source bounded boundedOther alike
          simp [Placement.choice, way_chooseWay, way, after, alike]

theorem ofPlacement_congr (layout : Layout) (address : UInt32) (kind : AccessKind)
    {placement others : Option Placement}
    (alike : placement.map (·.choice) = others.map (·.choice)) :
    Transaction.ofPlacement config layout address kind placement =
      Transaction.ofPlacement config layout address kind others := by
  cases placement <;> cases others <;>
    simp only [Option.map_none, Option.map_some, reduceCtorEq] at alike
  · rfl
  · simp only [Placement.choice, Option.some.injEq, Prod.mk.injEq] at alike
    simp [Transaction.ofPlacement, Placement.evictsDirty, Placement.becameValid, alike]

end Config

end SetAssoc
