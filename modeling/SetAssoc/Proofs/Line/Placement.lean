import SetAssoc.Proofs.Line.Sound

/-!
# Placing a block in a line

`Placement.Suits` says what `Config.place` may return for a line, and `Suits.way_settle` gives the
ways of the line after the access in terms of `Ways.store`.
-/

namespace SetAssoc

theorem pairwise_keys_ne {α : Type} (map : Std.ExtTreeMap Nat α) :
    map.toList.Pairwise fun a b => a.1 ≠ b.1 :=
  map.distinct_keys_toList.imp fun distinct same => distinct (Std.LawfulEqCmp.compare_eq_iff_eq.2 same)

namespace Line

def Bounded (config : Config) (line : Line) : Prop := ∀ i ∈ line, i < config.ways

variable {config : Config} {l : Line}

theorem getElem?_of_mem {i : Nat} (h : i ∈ l) : l[i]? = some (l.way i) := by
  rw [way, Std.ExtTreeMap.getElem?_eq_some_getElem h, Option.getD_some]

theorem way_of_getElem? {i : Nat} {w : Way} (h : l[i]? = some w) : l.way i = w := by
  rw [way, h, Option.getD_some]

theorem mem_of_getElem? {i : Nat} {w : Way} (h : l[i]? = some w) : i ∈ l := by
  rw [Std.ExtTreeMap.mem_iff_isSome_getElem?, h, Option.isSome_some]

theorem bounded_materialize (bounded : l.Bounded config) :
    (l.materialize config.ways).Bounded config := by
  intro i mem
  rw [mem_materialize] at mem
  exact mem.elim id (bounded i)

theorem exists_victim (sound : Ways.Sound config l.way) (lru : config.replacement = .lru)
    (bounded : l.Bounded config) (created : ∀ i < config.ways, i ∈ l) :
    ∃ i, l.victim? config.ways = some i ∧ i < config.ways ∧ Ways.Victim l.way config.ways i := by
  cases free : l.toList.find? fun entry => !entry.2.valid with
  | some entry =>
      obtain ⟨i, w⟩ := entry
      have found := Std.ExtTreeMap.mem_toList_iff_getElem?_eq_some.1 (List.mem_of_find?_eq_some free)
      have invalid := List.find?_some free
      refine ⟨i, ?_, bounded i (mem_of_getElem? found), Or.inl ⟨?_, ?_⟩⟩
      · simp [victim?_eq, free]
      · simpa [way_of_getElem? found] using invalid
      · intro j hj invalidJ
        exact le_of_find?_toList free (getElem?_of_mem (created j hj)) (by simp [invalidJ])
  | none =>
      have full : ∀ j < config.ways, (l.way j).valid = true := by
        intro j hj
        have mem := Std.ExtTreeMap.mem_toList_iff_getElem?_eq_some.2 (getElem?_of_mem (created j hj))
        simpa using List.find?_eq_none.1 free _ mem
      obtain ⟨j, hj, rankJ⟩ := (sound.ordered lru).exists_last config.ways_pos
        (fun j => ⟨sound.index_lt, full j⟩)
      have memJ := Std.ExtTreeMap.mem_toList_iff_getElem?_eq_some.2 (getElem?_of_mem (created j hj))
      cases oldest : l.toList.find? fun entry => entry.2.rank == config.ways - 1 with
      | none =>
          have := List.find?_eq_none.1 oldest _ memJ
          simp [rankJ] at this
      | some entry =>
          obtain ⟨i, w⟩ := entry
          have found :=
            Std.ExtTreeMap.mem_toList_iff_getElem?_eq_some.1 (List.mem_of_find?_eq_some oldest)
          have last := List.find?_some oldest
          refine ⟨i, ?_, bounded i (mem_of_getElem? found), Or.inr ⟨full, ?_⟩⟩
          · simp [victim?_eq, free, oldest]
          · simpa [way_of_getElem? found] using last

end Line

/-! ## Choosing a way -/

structure Config.Fillable (config : Config) (line : Line) (way : Nat) (created : Line) : Prop where
  way_lt : way < config.ways
  bounded : created.Bounded config
  keeps : ∀ i ∈ line, i ∈ created
  way_eq : ∀ i, created.way i = line.way i
  victim : config.replacement = .lru → Ways.Victim line.way config.ways way

section

variable {config : Config} {line : Line}

theorem Config.exists_chosen (sound : Ways.Sound config line.way) (lru : config.replacement = .lru)
    (bounded : line.Bounded config) : ∃ way, (line.chooseVictim config.ways).1 = some way ∧
      config.Fillable line way (line.materialize config.ways) := by
  have way_eq : (line.materialize config.ways).way = line.way :=
    funext (Line.way_materialize line config.ways)
  have created (i : Nat) (hi : i < config.ways) : i ∈ line.materialize config.ways :=
    (Line.mem_materialize line config.ways i).2 (Or.inl hi)
  have materialized : Ways.Sound config (line.materialize config.ways).way := by
    rw [way_eq]
    exact sound
  obtain ⟨way, found, bound, victim⟩ :=
    Line.exists_victim materialized lru (Line.bounded_materialize bounded) created
  refine ⟨way, found, bound, Line.bounded_materialize bounded, ?_, congrFun way_eq, ?_⟩
  · intro i mem
    exact (Line.mem_materialize line config.ways i).2 (Or.inr mem)
  · intro _
    rw [← way_eq]
    exact victim

theorem Config.fillable_of_single (sound : Ways.Sound config line.way) (bounded : line.Bounded config)
    (single : config.ways = 1) : config.Fillable line 0 line where
  way_lt := config.ways_pos
  bounded := bounded
  keeps _ mem := mem
  way_eq _ := rfl
  victim lru := by
    cases valid : (line.way 0).valid with
    | false => exact Or.inl ⟨valid, fun j _ _ => Nat.zero_le j⟩
    | true =>
        have := sound.rank_lt lru valid
        refine Or.inr ⟨fun j hj => ?_, by omega⟩
        obtain rfl : j = 0 := by omega
        exact valid

theorem Config.chooseWay?_eq_some (source : RandomSource)
    (sound : Ways.Sound config line.way) (bounded : line.Bounded config) :
    ∃ way created after, config.chooseWay? source line = (some way, created, after) ∧
      config.Fillable line way created := by
  cases policy : config.replacement with
  | random =>
      refine ⟨(source.pick config.ways).1, line, (source.pick config.ways).2, ?_, ?_⟩
      · simp [chooseWay?, policy]
      · exact ⟨source.pick_lt config.ways_pos, bounded, fun _ h => h, fun _ => rfl,
          fun lru => by rw [policy] at lru; cases lru⟩
  | lru =>
      by_cases single : config.ways = 1
      · refine ⟨0, line, source, ?_, fillable_of_single sound bounded single⟩
        simp [chooseWay?, policy, single]
      · obtain ⟨way, chosen, fillable⟩ := exists_chosen sound policy bounded
        refine ⟨way, line.materialize config.ways, source, ?_, fillable⟩
        simp only [chooseWay?, policy, if_neg single, chosen]
        rfl

end

/-! ## The line after an access -/

structure Placement.Suits (config : Config) (line : Line) (tag : Nat) (placement : Placement) :
    Prop where
  way_lt : placement.way < config.ways
  bounded : placement.line.Bounded config
  keeps : ∀ i ∈ line, i ∈ placement.line
  created : placement.way ∈ placement.line
  previous_eq : placement.previous = line.way placement.way
  way_of_ne : ∀ i, i ≠ placement.way → placement.line.way i = line.way i
  hit : placement.isHit = true → placement.line.way placement.way = line.way placement.way ∧
    (line.way placement.way).holds tag = true
  fill : placement.isHit = false → placement.line.way placement.way = .loaded tag ∧
    (∀ i, (line.way i).holds tag = false) ∧
    (config.replacement = .lru → Ways.Victim line.way config.ways placement.way)

section

variable {config : Config} {line : Line} {tag : Nat} {allocates : Bool} {source : RandomSource}

theorem Config.place_eq_none_iff :
    (config.place source line tag allocates).1 = none ↔
      (∀ i, (line.way i).holds tag = false) ∧ allocates = false := by
  rw [← Line.find?_eq_none_iff, place]
  cases line.find? tag <;> cases allocates <;> simp

theorem Config.allocates_of_place {placement : Placement}
    (placed : (config.place source line tag allocates).1 = some placement)
    (fill : placement.isHit = false) : allocates = true := by
  unfold place at placed
  cases found : line.find? tag with
  | some i =>
      simp only [found, Option.some.injEq] at placed
      subst placed
      cases fill
  | none =>
      cases allocates with
      | false => simp [found] at placed
      | true => rfl

theorem Config.suits_of_place {placement : Placement} (sound : Ways.Sound config line.way)
    (bounded : line.Bounded config)
    (placed : (config.place source line tag allocates).1 = some placement) :
    placement.Suits config line tag := by
  unfold place at placed
  cases found : line.find? tag with
  | some i =>
      have holds := Line.holds_of_find?_eq_some found
      have valid := (Way.holds_iff.1 holds).1
      simp only [found, Option.some.injEq] at placed
      subst placed
      exact ⟨sound.index_lt valid, bounded, fun _ h => h, Line.mem_of_valid valid, rfl,
        fun _ _ => rfl, fun _ => ⟨rfl, holds⟩, fun h => by cases h⟩
  | none =>
      cases allocates with
      | false => simp [found] at placed
      | true =>
          obtain ⟨way, created, after, chosen, fillable⟩ := chooseWay?_eq_some source sound bounded
          simp only [found, if_true, chooseWay, chosen, Option.getD_some, Option.some.injEq] at placed
          subst placed
          refine ⟨fillable.way_lt, ?_, ?_, ?_, fillable.way_eq way, ?_,
            (fun h => by cases h), fun _ => ⟨by simp, Line.find?_eq_none_iff.1 found, fillable.victim⟩⟩
          · intro i mem
            rcases Std.ExtTreeMap.mem_insert.1 mem with same | mem
            · rw [← Std.LawfulEqCmp.compare_eq_iff_eq.1 same]
              exact fillable.way_lt
            · exact fillable.bounded i mem
          · intro i mem
            exact Std.ExtTreeMap.mem_insert.2 (Or.inr (fillable.keeps i mem))
          · exact Std.ExtTreeMap.mem_insert_self
          · intro i distinct
            rw [Line.way_insert, if_neg distinct.symm, fillable.way_eq]

end

namespace Placement

def stored (placement : Placement) (config : Config) (kind : AccessKind) (block : Nat) : Way :=
  if kind.isWrite && config.writePolicy == .writeBack then
    (placement.line.way placement.way).markDirty block
  else
    placement.line.way placement.way

variable {config : Config} {line : Line} {tag : Nat} {placement : Placement} {kind : AccessKind}
  {block : Nat}

theorem rank_stored :
    (placement.stored config kind block).rank = (placement.line.way placement.way).rank := by
  unfold stored
  split <;> rfl

def marked (placement : Placement) (config : Config) (kind : AccessKind) (block : Nat) : Line :=
  if kind.isWrite && config.writePolicy == .writeBack then
    placement.line.update placement.way (·.markDirty block)
  else
    placement.line

theorem settle_eq : placement.settle config kind block =
    if config.replacement = .lru then (placement.marked config kind block).touch placement.way
    else placement.marked config kind block := rfl

theorem mem_settle {i : Nat} : i ∈ placement.settle config kind block ↔ i ∈ placement.line := by
  unfold settle
  dsimp only
  split <;> split <;> simp [Line.touch]

namespace Suits

theorem isHit_iff (suits : placement.Suits config line tag) :
    placement.isHit = true ↔ ∃ i, (line.way i).holds tag = true := by
  constructor
  · intro hit
    exact ⟨placement.way, (suits.hit hit).2⟩
  · rintro ⟨i, holds⟩
    by_contra fill
    have miss := (suits.fill (Bool.eq_false_of_not_eq_true fill)).2.1 i
    exact Bool.false_ne_true (miss.symm.trans holds)

theorem holds_placed (suits : placement.Suits config line tag) :
    (placement.line.way placement.way).holds tag = true := by
  cases hit : placement.isHit with
  | true => rw [(suits.hit hit).1]; exact (suits.hit hit).2
  | false => rw [(suits.fill hit).1]; simp [Way.loaded, Way.holds]

theorem holds_stored (suits : placement.Suits config line tag) (kind : AccessKind) (block : Nat) :
    (placement.stored config kind block).holds tag = true := by
  have := suits.holds_placed
  unfold stored
  split <;> exact this

theorem not_holds (sound : Ways.Sound config line.way) (suits : placement.Suits config line tag)
    {j : Nat} (distinct : j ≠ placement.way) : (line.way j).holds tag = false := by
  cases hit : placement.isHit with
  | true =>
      by_contra holdsJ
      exact distinct (sound.eq_of_holds (Bool.eq_true_of_not_eq_false holdsJ) (suits.hit hit).2)
  | false => exact (suits.fill hit).2.1 j

/-- A filled way is unranked when it is touched, and yet ages the same ways as its old rank would.
-/
theorem rank_lt_iff (geometry : config.Valid) (sound : Ways.Sound config line.way)
    (lru : config.replacement = .lru) (suits : placement.Suits config line tag) {j : Nat}
    (valid : (line.way j).valid = true) (distinct : j ≠ placement.way) :
    (line.way j).rank < (placement.line.way placement.way).rank ↔
      (line.way j).rank < (line.way placement.way).rank := by
  cases hit : placement.isHit with
  | true => rw [(suits.hit hit).1]
  | false =>
      obtain ⟨loaded, -, victim⟩ := suits.fill hit
      rw [loaded]
      exact iff_of_true (sound.rank_lt_unranked geometry lru valid)
        (sound.rank_lt_victim geometry lru (victim lru) valid distinct)

theorem mem_marked (suits : placement.Suits config line tag) (kind : AccessKind) (block : Nat) :
    placement.way ∈ placement.marked config kind block := by
  unfold marked
  split <;> simp [suits.created]

theorem way_marked_self (suits : placement.Suits config line tag) (kind : AccessKind) (block : Nat) :
    (placement.marked config kind block).way placement.way = placement.stored config kind block := by
  unfold marked stored
  split
  · rw [Line.way_update suits.created, if_pos rfl]
  · rfl

theorem way_marked_of_ne (suits : placement.Suits config line tag) (kind : AccessKind) (block : Nat)
    {j : Nat} (distinct : j ≠ placement.way) :
    (placement.marked config kind block).way j = line.way j := by
  rw [← suits.way_of_ne j distinct]
  unfold marked
  split
  · rw [Line.way_update suits.created, if_neg distinct.symm]
  · rfl

theorem way_settle (geometry : config.Valid) (sound : Ways.Sound config line.way)
    (suits : placement.Suits config line tag) (kind : AccessKind) (block : Nat) :
    (placement.settle config kind block).way =
      Ways.store config line.way placement.way (placement.stored config kind block) := by
  have self := suits.way_marked_self kind block
  have other {j} := suits.way_marked_of_ne kind block (j := j)
  rw [settle_eq]
  funext j
  by_cases lru : config.replacement = .lru
  · rw [if_pos lru, Line.touch, Line.way_rerank (suits.mem_marked kind block), Ways.store, if_pos lru]
    by_cases distinct : j = placement.way
    · rw [distinct, Ways.promote_self, self, if_pos rfl]
    · rw [Ways.promote_of_ne distinct, other distinct, if_neg distinct, self, rank_stored]
      cases valid : (line.way j).valid with
      | false => simp
      | true => simp only [if_true, true_and, suits.rank_lt_iff geometry sound lru valid distinct]
  · rw [if_neg lru, Ways.store, if_neg lru]
    by_cases distinct : j = placement.way
    · rw [distinct, Function.update_self, self]
    · rw [Function.update_of_ne distinct, other distinct]

theorem sound_settle (geometry : config.Valid) (sound : Ways.Sound config line.way)
    (suits : placement.Suits config line tag) (kind : AccessKind) (block : Nat) :
    Ways.Sound config (placement.settle config kind block).way := by
  obtain ⟨valid, tagEq⟩ := Way.holds_iff.1 (suits.holds_stored kind block)
  rw [suits.way_settle geometry sound]
  refine sound.store geometry suits.way_lt valid fun j distinct => ?_
  rw [tagEq]
  exact suits.not_holds sound distinct

end Suits

end Placement

theorem Config.way_restore {config : Config} {line : Line} {i : Nat} (created : i ∈ line)
    (previous : Way) :
    (config.restore line i previous).way = Ways.withdraw config line.way i previous := by
  have updated : i ∈ line.update i fun _ => previous := (Line.mem_update line i i _).2 created
  funext j
  rw [restore, Ways.withdraw]
  by_cases lru : config.replacement = .lru
  · rw [if_pos lru, if_pos lru, Line.revert, Line.way_rerank updated, Line.way_update created]
    by_cases distinct : j = i
    · rw [distinct, if_pos rfl, if_pos rfl, Ways.demote_self]
    · rw [Ways.demote_of_ne distinct, if_neg (Ne.symm distinct), if_neg distinct]
      cases valid : (line.way j).valid <;> simp
  · rw [if_neg lru, if_neg lru, Line.way_update created]
    by_cases distinct : j = i
    · rw [distinct, if_pos rfl, Function.update_self]
    · rw [if_neg (Ne.symm distinct), Function.update_of_ne distinct]

theorem Config.mem_restore {config : Config} {line : Line} {i j : Nat} {previous : Way} :
    j ∈ config.restore line i previous ↔ j ∈ line := by
  unfold restore
  dsimp only
  split <;> simp [Line.revert]

end SetAssoc
