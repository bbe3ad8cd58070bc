import SetAssoc.Proofs.Line.Placement
import SetAssoc.Proofs.Word

/-!
# Taking back a touch of any line

Nothing is assumed of the line here: ways may be missing or invalid, and ranks may be equal or leave
gaps. A revert undoes a touch except at the rank that the touched way had.
-/

namespace SetAssoc

theorem mapM_of_total {α β : Type} {f : α → Option β} {g : α → β} {l : List α}
    (total : ∀ a ∈ l, f a = some (g a)) : l.mapM f = some (l.map g) := by
  induction l with
  | nil => rfl
  | cons a rest ih =>
      rw [List.mapM_cons, total a List.mem_cons_self,
        ih fun b mem => total b (List.mem_cons_of_mem a mem)]
      rfl

namespace Line

/-- The rank of another valid way after a touch of a way of rank `previous`. -/
def aged (previous rank : Nat) : Nat := if rank < previous then rank + 1 else rank

def rejuvenated (previous rank : Nat) : Nat := if rank ≤ previous then rank - 1 else rank

section

variable {previous rank other : Nat}

theorem aged_le_aged_iff : aged previous rank ≤ aged previous other ↔
    rank ≤ other ∨ rank = previous ∧ other + 1 = previous := by
  unfold aged
  split <;> split <;> omega

theorem monotone_aged (previous : Nat) : Monotone (aged previous) :=
  fun _ _ le => aged_le_aged_iff.2 (.inl le)

theorem rejuvenated_aged_eq_iff :
    rejuvenated previous (aged previous rank) = rank ↔ previous = 0 ∨ rank ≠ previous := by
  unfold rejuvenated aged
  split <;> split <;> omega

end

variable {l : Line} {i j : Nat}

theorem touch_eq (l : Line) (i : Nat) : l.touch i = l.rerank i (aged (l.way i).rank) 0 := rfl

theorem revert_eq (l : Line) (i previous : Nat) :
    l.revert i previous = l.rerank i (rejuvenated previous) previous := rfl

/-! ## Taking a touch back -/

theorem rerank_rerank (first second : Nat → Nat) (before after : Nat) :
    (l.rerank i first before).rerank i second after = l.rerank i (second ∘ first) after := by
  apply Std.ExtTreeMap.ext_getElem?
  intro j
  simp only [getElem?_rerank, Option.map_map]
  apply Option.map_congr
  intro w _
  by_cases touched : j = i
  · simp [touched]
  · cases valid : w.valid <;> simp [touched, valid]

theorem rerank_eq_self_iff {others : Nat → Nat} {rank : Nat} : l.rerank i others rank = l ↔
    (i ∈ l → (l.way i).rank = rank) ∧
      ∀ j, j ≠ i → (l.way j).valid = true → others (l.way j).rank = (l.way j).rank := by
  constructor
  · intro same
    have entry {j : Nat} (created : j ∈ l) := congrArg (·[j]?) same
    simp only [getElem?_rerank] at entry
    constructor
    · intro created
      have := entry created
      rw [getElem?_of_mem created, Option.map_some, Option.some.injEq, if_pos rfl] at this
      exact (congrArg Way.rank this).symm
    · intro j distinct valid
      have created := mem_of_valid valid
      have := entry created
      rw [getElem?_of_mem created, Option.map_some, Option.some.injEq, if_neg distinct,
        if_pos valid] at this
      exact congrArg Way.rank this
  · rintro ⟨self, kept⟩
    apply Std.ExtTreeMap.ext_getElem?
    intro j
    rw [getElem?_rerank]
    cases found : l[j]? with
    | none => rfl
    | some w =>
        obtain rfl := way_of_getElem? found
        rw [Option.map_some]
        congr 1
        by_cases touched : j = i
        · subst touched
          rw [if_pos rfl, ← self (mem_of_getElem? found)]
        · rw [if_neg touched]
          split
          · rename_i valid
            rw [kept j touched valid]
          · rfl

theorem revert_touch_eq_self_iff : (l.touch i).revert i (l.way i).rank = l ↔
    (l.way i).rank = 0 ∨
      ∀ j, j ≠ i → (l.way j).valid = true → (l.way j).rank ≠ (l.way i).rank := by
  rw [touch_eq, revert_eq, rerank_rerank, rerank_eq_self_iff]
  simp only [Function.comp_apply, rejuvenated_aged_eq_iff, implies_true, true_and]
  by_cases newest : (l.way i).rank = 0 <;> simp [newest]

/-! ## What a touch changes -/

theorem rank_touch_of_ne (distinct : j ≠ i) (valid : (l.way j).valid = true) :
    ((l.touch i).way j).rank = aged (l.way i).rank (l.way j).rank := by
  rw [way, touch_eq, getElem?_rerank, getElem?_of_mem (mem_of_valid valid)]
  simp [distinct, valid]

theorem exists_getElem?_touch (l : Line) (i j : Nat) :
    ∃ rank, (l.touch i)[j]? = l[j]?.map fun w => { w with rank } := by
  rw [touch_eq, getElem?_rerank]
  cases l[j]? with
  | none => exact ⟨0, rfl⟩
  | some w =>
      simp only [Option.map_some, Option.some.injEq]
      split
      · exact ⟨_, rfl⟩
      · split
        · exact ⟨_, rfl⟩
        · exact ⟨w.rank, rfl⟩

/-! ## Touches in words -/

/-- The rank of another valid way after a touch, worked out in words. There is none if it does not
fit. -/
def agedInWords? (previous rank : UInt32) : Option UInt32 :=
  if rank < previous then Word.sum? rank 1 else some rank

def touchedInWords? (index : Nat) (previous : UInt32) (other : Nat) (w : Way) : Option Way :=
  if other = index then some { w with rank := 0 }
  else if w.valid then
    (agedInWords? previous w.rank.toUInt32).map fun rank => { w with rank := rank.toNat }
  else some w

def touchInWords? (l : Line) (index : Nat) : Option (List (Nat × Way)) :=
  l.toList.mapM fun (other, w) =>
    (touchedInWords? index (l.way index).rank.toUInt32 other w).map (other, ·)

theorem exists_agedInWords? (previous rank : UInt32) : ∃ result,
    agedInWords? previous rank = some result ∧ result.toNat = aged previous.toNat rank.toNat := by
  simp only [agedInWords?, aged, UInt32.lt_iff_toNat_lt]
  split
  · -- a rank that is below another word is not the largest word
    have bound := previous.toNat_lt
    have exact : (rank + 1).toNat = rank.toNat + (1 : UInt32).toNat := by
      rw [UInt32.toNat_add, UInt32.toNat_one]
      apply Nat.mod_eq_of_lt
      omega
    exact ⟨rank + 1, Word.sum?_eq_some_iff.2 exact, exact⟩
  · exact ⟨rank, rfl, rfl⟩

theorem touchInWords?_eq (words : ∀ j, (l.way j).rank < 2 ^ 32) (i : Nat) :
    l.touchInWords? i = some (l.touch i).toList := by
  have toNat_rank (j : Nat) : (l.way j).rank.toUInt32.toNat = (l.way j).rank :=
    UInt32.toNat_ofNat_of_lt' (words j)
  rw [touch_eq, rerank, Std.ExtTreeMap.toList_map]
  apply mapM_of_total
  rintro ⟨j, w⟩ mem
  obtain rfl := way_of_getElem? (Std.ExtTreeMap.mem_toList_iff_getElem?_eq_some.1 mem)
  obtain ⟨rank, aging, exact⟩ :=
    exists_agedInWords? (l.way i).rank.toUInt32 (l.way j).rank.toUInt32
  rw [toNat_rank, toNat_rank] at exact
  by_cases touched : j = i
  · simp [touchedInWords?, touched]
  · cases valid : (l.way j).valid <;> simp [touchedInWords?, touched, valid, aging, exact]

theorem touch_exact (l : Line) (i : Nat) :
    ((∀ j, (l.way j).rank < 2 ^ 32) → l.touchInWords? i = some (l.touch i).toList) ∧
      (∀ j : Nat, ∃ rank, (l.touch i)[j]? = l[j]?.map fun w => { w with rank }) ∧
      (∀ j k, j ≠ i → k ≠ i → (l.way j).valid = true → (l.way k).valid = true →
        ((l.way j).rank ≤ (l.way k).rank →
          ((l.touch i).way j).rank ≤ ((l.touch i).way k).rank) ∧
        (((l.touch i).way j).rank ≤ ((l.touch i).way k).rank ↔
          (l.way j).rank ≤ (l.way k).rank ∨
            (l.way j).rank = (l.way i).rank ∧ (l.way k).rank + 1 = (l.way i).rank)) ∧
      ((l.touch i).revert i (l.way i).rank = l ↔
        (l.way i).rank = 0 ∨
          ∀ j, j ≠ i → (l.way j).valid = true → (l.way j).rank ≠ (l.way i).rank) := by
  refine ⟨fun words => touchInWords?_eq words i, exists_getElem?_touch l i, ?_,
    revert_touch_eq_self_iff⟩
  intro j k distinctJ distinctK validJ validK
  rw [rank_touch_of_ne distinctJ validJ, rank_touch_of_ne distinctK validK]
  exact ⟨fun le => monotone_aged _ le, aged_le_aged_iff⟩

/-- Two ways of one rank: a touch of the first makes a more recent third way as old as the second,
and cannot be taken back. A touch of a missing way can. -/
theorem touch_exact_tied :
    let ranked (rank : Nat) : Way := { Way.loaded rank with rank }
    let tied : Line := ((∅ : Line).insert 0 (ranked 2)).insert 1 (ranked 2) |>.insert 2 (ranked 1)
    (∀ j, (tied.way j).rank < 2 ^ 32) ∧ tied.touchInWords? 0 = some (tied.touch 0).toList ∧
      ((tied.touch 0).way 1).rank ≤ ((tied.touch 0).way 2).rank ∧
      (tied.touch 0).revert 0 2 ≠ tied ∧ (tied.touch 7).revert 7 Way.unranked = tied := by
  intro ranked tied
  have way_zero : tied.way 0 = ranked 2 := by simp [tied]
  have way_one : tied.way 1 = ranked 2 := by simp [tied]
  have way_two : tied.way 2 = ranked 1 := by simp [tied]
  have way_seven : tied.way 7 = Way.empty := by simp [tied]
  have ways (j : Nat) : tied.way j = ranked 1 ∨ tied.way j = ranked 2 ∨ tied.way j = Way.empty := by
    simp only [tied, way_insert, way_empty]
    grind
  have words (j : Nat) : (tied.way j).rank < 2 ^ 32 := by
    rcases ways j with same | same | same <;> rw [same] <;> decide
  obtain ⟨inWords, -, order, reverted⟩ := touch_exact tied 0
  obtain ⟨-, -, -, missing⟩ := touch_exact tied 7
  refine ⟨words, inWords words, ?_, ?_, ?_⟩
  · apply (order 1 2 (by decide) (by decide) (by rw [way_one]; rfl) (by rw [way_two]; rfl)).2.2
    rw [way_zero, way_one, way_two]
    decide
  · intro same
    rw [way_zero] at reverted
    rcases reverted.1 same with newest | apart
    · cases newest
    · exact apart 1 (by decide) (by rw [way_one]; rfl) (by rw [way_one])
  · rw [way_seven] at missing
    apply missing.2
    right
    intro j _ valid
    rcases ways j with same | same | same <;> rw [same] at valid ⊢
    · decide
    · decide
    · cases valid

end Line

end SetAssoc
