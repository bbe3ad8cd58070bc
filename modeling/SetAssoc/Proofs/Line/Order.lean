import Mathlib.Data.Finset.Card
import Mathlib.Data.Finset.Range
import SetAssoc.Recency

/-!
# The recency order of a line

The ways of a line are read as a function of their index (`Ways`), so that ways that were created
and ways that were not are treated alike.
-/

namespace SetAssoc

abbrev Ways := Nat → Way

namespace Ways

def promote (ways : Ways) (i : Nat) (w : Way) : Ways := fun j =>
  if j = i then { w with rank := 0 }
  else if (ways j).valid = true ∧ (ways j).rank < (ways i).rank then
    { ways j with rank := (ways j).rank + 1 }
  else ways j

def demote (ways : Ways) (i : Nat) (previous : Way) : Ways := fun j =>
  if j = i then previous
  else if (ways j).valid = true ∧ (ways j).rank ≤ previous.rank then
    { ways j with rank := (ways j).rank - 1 }
  else ways j

/-- The ranks of the valid ways are `0, …, k - 1`, each once. -/
structure Ordered (ways : Ways) : Prop where
  injective : ∀ {i j}, (ways i).valid = true → (ways j).valid = true →
    (ways i).rank = (ways j).rank → i = j
  downward : ∀ {i r}, (ways i).valid = true → r < (ways i).rank →
    ∃ j, (ways j).valid = true ∧ (ways j).rank = r

/-- A way that can be promoted: it is valid, or every valid way is more recent. -/
def Promotable (ways : Ways) (i : Nat) : Prop :=
  (ways i).valid = true ∨ ∀ j, (ways j).valid = true → (ways j).rank < (ways i).rank

variable {ways : Ways} {i j : Nat} {w : Way}

theorem promote_self : ways.promote i w i = { w with rank := 0 } := if_pos rfl

theorem promote_of_ne (distinct : j ≠ i) : ways.promote i w j =
    { ways j with
      rank :=
        if (ways j).valid = true ∧ (ways j).rank < (ways i).rank then (ways j).rank + 1
        else (ways j).rank } := by
  rw [promote, if_neg distinct]
  split <;> rfl

@[simp]
theorem rank_promote_self : (ways.promote i w i).rank = 0 := by rw [promote_self]

theorem valid_promote_self : (ways.promote i w i).valid = w.valid := by rw [promote_self]

theorem valid_promote (distinct : j ≠ i) : (ways.promote i w j).valid = (ways j).valid := by
  rw [promote_of_ne distinct]

theorem rank_promote (valid : (ways j).valid = true) (distinct : j ≠ i) :
    (ways.promote i w j).rank =
      if (ways j).rank < (ways i).rank then (ways j).rank + 1 else (ways j).rank := by
  rw [promote_of_ne distinct]
  simp only [valid, true_and]

theorem promote_of_invalid (distinct : j ≠ i) (invalid : (ways j).valid = false) :
    ways.promote i w j = ways j := by
  simp [promote, distinct, invalid]

theorem demote_self : ways.demote i w i = w := if_pos rfl

theorem demote_of_ne (distinct : j ≠ i) : ways.demote i w j =
    { ways j with
      rank :=
        if (ways j).valid = true ∧ (ways j).rank ≤ w.rank then (ways j).rank - 1
        else (ways j).rank } := by
  rw [demote, if_neg distinct]
  split <;> rfl

theorem demote_of_invalid (distinct : j ≠ i) (invalid : (ways j).valid = false) :
    ways.demote i w j = ways j := by
  simp [demote, distinct, invalid]

namespace Ordered

theorem rank_ne (ordered : ways.Ordered) (promotable : ways.Promotable i)
    (valid : (ways j).valid = true) (distinct : j ≠ i) : (ways j).rank ≠ (ways i).rank := by
  intro same
  rcases promotable with validI | older
  · exact distinct (ordered.injective valid validI same)
  · have := older j valid
    omega

theorem rank_promote_pos (ordered : ways.Ordered) (promotable : ways.Promotable i)
    (valid : (ways j).valid = true) (distinct : j ≠ i) : 0 < (ways.promote i w j).rank := by
  have := ordered.rank_ne promotable valid distinct
  rw [rank_promote valid distinct]
  split <;> omega

theorem promote (ordered : ways.Ordered) (promotable : ways.Promotable i)
    (stored : w.valid = true) : (ways.promote i w).Ordered := by
  constructor
  · intro a b validA validB same
    by_cases ha : a = i <;> by_cases hb : b = i
    · rw [ha, hb]
    · rw [valid_promote hb] at validB
      have := ordered.rank_promote_pos (w := w) promotable validB hb
      rw [ha, rank_promote_self] at same
      omega
    · rw [valid_promote ha] at validA
      have := ordered.rank_promote_pos (w := w) promotable validA ha
      rw [hb, rank_promote_self] at same
      omega
    · rw [valid_promote ha] at validA
      rw [valid_promote hb] at validB
      have neA := ordered.rank_ne promotable validA ha
      have neB := ordered.rank_ne promotable validB hb
      apply ordered.injective validA validB
      rw [rank_promote validA ha, rank_promote validB hb] at same
      split at same <;> split at same <;> omega
  · intro a r valid lower
    by_cases ha : a = i
    · rw [ha, rank_promote_self] at lower
      omega
    rw [valid_promote ha] at valid
    rw [rank_promote valid ha] at lower
    rcases Nat.eq_zero_or_pos r with rfl | positive
    · exact ⟨i, valid_promote_self.trans stored, rank_promote_self⟩
    -- the way that has rank `r` now had rank `r - 1` before if it was more recent than `i`
    have before : (if r ≤ (ways i).rank then r - 1 else r) < (ways a).rank := by
      split at lower <;> split <;> omega
    obtain ⟨j, validJ, rankJ⟩ := ordered.downward valid before
    have hj : j ≠ i := by
      rintro rfl
      split at rankJ <;> omega
    refine ⟨j, (valid_promote hj).trans validJ, ?_⟩
    rw [rank_promote validJ hj]
    split at rankJ <;> split <;> omega

theorem demote_promote (ordered : ways.Ordered) (promotable : ways.Promotable i) :
    (ways.promote i w).demote i (ways i) = ways := by
  funext j
  by_cases hj : j = i
  · rw [hj, demote_self]
  cases validJ : (ways j).valid with
  | false => rw [demote_of_invalid hj ((valid_promote hj).trans validJ), promote_of_invalid hj validJ]
  | true =>
      have ne := ordered.rank_ne promotable validJ hj
      have restored : (if (ways.promote i w j).rank ≤ (ways i).rank then (ways.promote i w j).rank - 1
          else (ways.promote i w j).rank) = (ways j).rank := by
        rw [rank_promote validJ hj]
        split <;> split <;> omega
      rw [demote_of_ne hj, valid_promote hj]
      simp only [validJ, true_and, restored]
      rw [promote_of_ne hj]

/-! ## Counting ranks -/

theorem rank_lt_card (ordered : ways.Ordered) (s : Finset Nat)
    (cover : ∀ j, (ways j).valid = true → j ∈ s) (valid : (ways i).valid = true) :
    (ways i).rank < s.card := by
  have older : Finset.range ((ways i).rank + 1) ⊆ s.image fun j => (ways j).rank := by
    intro r member
    rw [Finset.mem_range] at member
    rcases Nat.lt_or_eq_of_le (Nat.le_of_lt_succ member) with lower | rfl
    · obtain ⟨j, validJ, rankJ⟩ := ordered.downward valid lower
      exact Finset.mem_image.2 ⟨j, cover j validJ, rankJ⟩
    · exact Finset.mem_image.2 ⟨i, cover i valid, rfl⟩
  have := Finset.card_le_card older
  rw [Finset.card_range] at this
  have := Finset.card_image_le (s := s) (f := fun j => (ways j).rank)
  omega

theorem exists_last (ordered : ways.Ordered) {n : Nat} (positive : 0 < n)
    (full : ∀ j, (ways j).valid = true ↔ j < n) :
    ∃ j, j < n ∧ (ways j).rank = n - 1 := by
  have below : (Finset.range n).image (fun j => (ways j).rank) ⊆ Finset.range n := by
    intro r member
    obtain ⟨j, hj, rfl⟩ := Finset.mem_image.1 member
    have := ordered.rank_lt_card (Finset.range n) (fun j valid => Finset.mem_range.2 ((full j).1 valid))
      ((full j).2 (Finset.mem_range.1 hj))
    rwa [Finset.card_range, ← Finset.mem_range] at this
  have distinct : Set.InjOn (fun j => (ways j).rank) (Finset.range n) := by
    intro a ha b hb same
    exact ordered.injective ((full a).2 (Finset.mem_range.1 ha))
      ((full b).2 (Finset.mem_range.1 hb)) same
  have all := Finset.eq_of_subset_of_card_le below
    (by rw [Finset.card_image_of_injOn distinct])
  have last : n - 1 ∈ (Finset.range n).image fun j => (ways j).rank := by
    rw [all, Finset.mem_range]
    omega
  obtain ⟨j, hj, rankJ⟩ := Finset.mem_image.1 last
  exact ⟨j, Finset.mem_range.1 hj, rankJ⟩

end Ordered

end Ways

end SetAssoc
