import SetAssoc.Cache.Basic
import SetAssoc.Proofs.Line.Erasure

/-!
# Lines of a single way

A line of one way has no choice to make: either policy fills that way. What is left of the
replacement policy are the ranks, which random replacement does not keep.
-/

namespace SetAssoc

def Way.asRandom (way : Way) : Way := { way with rank := unranked }

def Line.asRandom (line : Line) : Line := line.map fun _ way => way.asRandom

def Config.asRandom (config : Config) : Config := { config with replacement := .random }

def Placement.asRandom (placement : Placement) : Placement where
  way := placement.way
  line := placement.line.asRandom
  previous := placement.previous.asRandom
  isHit := placement.isHit

namespace Line

variable {l : Line} {i : Nat}

@[simp]
theorem getElem?_asRandom : l.asRandom[i]? = l[i]?.map Way.asRandom :=
  Std.ExtTreeMap.getElem?_map

@[simp]
theorem mem_asRandom : i ∈ l.asRandom ↔ i ∈ l := Std.ExtTreeMap.mem_map

@[simp]
theorem way_asRandom : l.asRandom.way i = (l.way i).asRandom := way_map rfl i

@[simp]
theorem find?_asRandom (tag : Nat) : l.asRandom.find? tag = l.find? tag :=
  find?_toList_map fun _ _ => rfl

theorem asRandom_insert (w : Way) : asRandom (l.insert i w) = l.asRandom.insert i w.asRandom :=
  map_insert w

theorem asRandom_update {change after : Way → Way}
    (commutes : ∀ w, (change w).asRandom = after w.asRandom) :
    (l.update i change).asRandom = l.asRandom.update i after := map_alter commutes

theorem asRandom_rerank (others : Nat → Nat) (rank : Nat) :
    (l.rerank i others rank).asRandom = l.asRandom := by
  apply Std.ExtTreeMap.ext_getElem?
  intro other
  rw [getElem?_asRandom, getElem?_asRandom, getElem?_rerank, Option.map_map]
  congr 1
  funext w
  rw [Function.comp_apply]
  split
  · rfl
  · split <;> rfl

theorem asRandom_touch : (l.touch i).asRandom = l.asRandom := asRandom_rerank _ _

theorem asRandom_revert (previous : Nat) : (l.revert i previous).asRandom = l.asRandom :=
  asRandom_rerank _ _

end Line

/-! ## Accesses and undos -/

variable {config : Config} (l : Line)

theorem Config.chooseWay_of_single (single : config.ways = 1) (source : RandomSource) :
    (config.chooseWay source l).1 = 0 ∧ (config.chooseWay source l).2.1 = l := by
  rw [chooseWay, chooseWay?]
  cases config.replacement with
  | random =>
      have bound := source.pick_lt (show 0 < config.ways by rw [single]; exact Nat.one_pos)
      rw [single] at bound ⊢
      exact ⟨Nat.lt_one_iff.1 bound, rfl⟩
  | lru =>
      rw [if_pos single]
      exact ⟨rfl, rfl⟩

theorem Config.place_asRandom (single : config.ways = 1) (source other : RandomSource) (tag : Nat)
    (allocates : Bool) :
    (config.asRandom.place other l.asRandom tag allocates).1 =
      (config.place source l tag allocates).1.map Placement.asRandom := by
  rw [place, place, Line.find?_asRandom]
  cases l.find? tag with
  | some i => simp [Placement.asRandom]
  | none =>
      cases allocates with
      | false => rfl
      | true =>
          obtain ⟨way, kept⟩ := chooseWay_of_single l single source
          obtain ⟨wayRandom, keptRandom⟩ :=
            chooseWay_of_single l.asRandom (show config.asRandom.ways = 1 from single) other
          simp only [if_true, way, kept, wayRandom, keptRandom, Option.map_some, Placement.asRandom,
            Line.asRandom_insert, Line.way_asRandom]
          rfl

theorem Placement.settle_asRandom (placement : Placement) (kind : AccessKind) (block : Nat) :
    placement.asRandom.settle config.asRandom kind block =
      (placement.settle config kind block).asRandom := by
  have marked : (placement.line.update placement.way (·.markDirty block)).asRandom =
      placement.line.asRandom.update placement.way (·.markDirty block) :=
    Line.asRandom_update fun _ => rfl
  have touched (line : Line) :
      (if config.replacement = .lru then line.touch placement.way else line).asRandom =
        line.asRandom := by
    split
    · exact Line.asRandom_touch
    · rfl
  have untouched : ¬ config.asRandom.replacement = .lru := Replacement.noConfusion
  rw [settle, settle, if_neg untouched, touched]
  by_cases written : (kind.isWrite && config.writePolicy == .writeBack) = true
  · rw [if_pos written, marked]
    exact if_pos written
  · rw [if_neg written]
    exact if_neg written

theorem Config.restore_asRandom (way : Nat) (previous : Way) :
    config.asRandom.restore l.asRandom way previous.asRandom =
      (config.restore l way previous).asRandom := by
  have updated : (l.update way fun _ => previous).asRandom =
      l.asRandom.update way fun _ => previous.asRandom := Line.asRandom_update fun _ => rfl
  have untouched : ¬ config.asRandom.replacement = .lru := Replacement.noConfusion
  rw [restore, restore, if_neg untouched, ← updated]
  split
  · exact (Line.asRandom_revert _).symm
  · rfl

end SetAssoc
