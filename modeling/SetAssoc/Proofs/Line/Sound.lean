import Mathlib.Logic.Function.Basic
import SetAssoc.Cache.Basic
import SetAssoc.Proofs.Line.Order

/-!
# Sound lines

`Ways.store` and `Ways.withdraw` are the effects that an access and its undoing have on the ways of
a line, under either replacement policy.
-/

namespace SetAssoc

open Function (update)

namespace Ways

structure Sound (config : Config) (ways : Ways) : Prop where
  index_lt : ∀ {i}, (ways i).valid = true → i < config.ways
  eq_empty : ∀ {i}, (ways i).valid = false → ways i = Way.empty
  tag_injective : ∀ {i j}, (ways i).valid = true → (ways j).valid = true →
    (ways i).tag = (ways j).tag → i = j
  ordered : config.replacement = .lru → ways.Ordered

def store (config : Config) (ways : Ways) (i : Nat) (w : Way) : Ways :=
  if config.replacement = .lru then ways.promote i w else update ways i w

def withdraw (config : Config) (ways : Ways) (i : Nat) (previous : Way) : Ways :=
  if config.replacement = .lru then ways.demote i previous else update ways i previous

/-- The way that an allocating miss fills under least recently used replacement: the lowest invalid
way of `count` ways, else the oldest one. -/
def Victim (ways : Ways) (count i : Nat) : Prop :=
  ((ways i).valid = false ∧ ∀ j < count, (ways j).valid = false → i ≤ j) ∨
    ((∀ j < count, (ways j).valid = true) ∧ (ways i).rank = count - 1)

variable {config : Config} {ways : Ways} {i j : Nat} {w : Way}

theorem store_self : ways.store config i w i =
    { w with rank := if config.replacement = .lru then 0 else w.rank } := by
  unfold store
  split
  · rw [promote_self]
  · rw [Function.update_self]

theorem store_of_ne (distinct : j ≠ i) : ways.store config i w j =
    { ways j with rank := (ways.store config i w j).rank } := by
  unfold store
  split
  · rw [promote_of_ne distinct]
  · rw [Function.update_of_ne distinct]

theorem rank_store_of_ne (distinct : j ≠ i) :
    (ways.store config i w j).rank =
      if config.replacement = .lru ∧ (ways j).valid = true ∧ (ways j).rank < (ways i).rank then
        (ways j).rank + 1
      else (ways j).rank := by
  unfold store
  by_cases lru : config.replacement = .lru
  · rw [if_pos lru, promote_of_ne distinct]
    simp only [lru, true_and]
  · rw [if_neg lru, Function.update_of_ne distinct, if_neg fun older => lru older.1]

theorem store_of_invalid (distinct : j ≠ i) (invalid : (ways j).valid = false) :
    ways.store config i w j = ways j := by
  unfold store
  split
  · exact promote_of_invalid distinct invalid
  · exact Function.update_of_ne distinct _ _

theorem valid_store (distinct : j ≠ i) : (ways.store config i w j).valid = (ways j).valid := by
  rw [store_of_ne distinct]

theorem tag_store (distinct : j ≠ i) : (ways.store config i w j).tag = (ways j).tag := by
  rw [store_of_ne distinct]

theorem sound_empty : Sound config fun _ => Way.empty where
  index_lt h := by cases h
  eq_empty _ := rfl
  tag_injective h := by cases h
  ordered _ := ⟨(fun h => by cases h), (fun h => by cases h)⟩

namespace Sound

theorem eq_of_holds (sound : Sound config ways) {tag : Nat} (holdsI : (ways i).holds tag = true)
    (holdsJ : (ways j).holds tag = true) : i = j := by
  obtain ⟨validI, tagI⟩ := Way.holds_iff.1 holdsI
  obtain ⟨validJ, tagJ⟩ := Way.holds_iff.1 holdsJ
  exact sound.tag_injective validI validJ (tagI.trans tagJ.symm)

theorem rank_lt (sound : Sound config ways) (lru : config.replacement = .lru)
    (valid : (ways i).valid = true) : (ways i).rank < config.ways := by
  have := (sound.ordered lru).rank_lt_card (Finset.range config.ways)
    (fun j validJ => Finset.mem_range.2 (sound.index_lt validJ)) valid
  rwa [Finset.card_range] at this

theorem rank_lt_unranked (geometry : config.Valid) (sound : Sound config ways)
    (lru : config.replacement = .lru) (valid : (ways i).valid = true) :
    (ways i).rank < Way.unranked := by
  have := sound.rank_lt lru valid
  have := geometry.ways_le
  unfold Way.unranked
  omega

theorem promotable (geometry : config.Valid) (sound : Sound config ways)
    (lru : config.replacement = .lru) (i : Nat) : ways.Promotable i := by
  cases validI : (ways i).valid with
  | true => exact Or.inl validI
  | false =>
      right
      intro j validJ
      rw [sound.eq_empty validI]
      exact sound.rank_lt_unranked geometry lru validJ

theorem rank_lt_victim (geometry : config.Valid) (sound : Sound config ways)
    (lru : config.replacement = .lru) (victim : ways.Victim config.ways i)
    (validJ : (ways j).valid = true) (distinct : j ≠ i) : (ways j).rank < (ways i).rank := by
  have ne := (sound.ordered lru).rank_ne (sound.promotable geometry lru i) validJ distinct
  have below := sound.rank_lt lru validJ
  rcases victim with ⟨invalid, -⟩ | ⟨-, last⟩
  · rw [sound.eq_empty invalid]
    exact sound.rank_lt_unranked geometry lru validJ
  · omega

theorem store (geometry : config.Valid) (sound : Sound config ways) (bound : i < config.ways)
    (stored : w.valid = true) (fresh : ∀ j, j ≠ i → (ways j).holds w.tag = false) :
    Sound config (ways.store config i w) := by
  have storedI : (ways.store config i w i).valid = true := by rw [store_self]; exact stored
  have tagI : (ways.store config i w i).tag = w.tag := by rw [store_self]
  have other : ∀ {j}, j ≠ i → (ways j).valid = true → (ways j).tag ≠ w.tag := by
    intro j distinct validJ same
    have := fresh j distinct
    simp [Way.holds, validJ, same] at this
  refine ⟨?_, ?_, ?_, ?_⟩
  · intro j validJ
    by_cases hj : j = i
    · rwa [hj]
    · rw [valid_store hj] at validJ
      exact sound.index_lt validJ
  · intro j invalid
    by_cases hj : j = i
    · rw [hj, storedI] at invalid
      cases invalid
    · rw [valid_store hj] at invalid
      rw [store_of_invalid hj invalid]
      exact sound.eq_empty invalid
  · intro a b validA validB same
    by_cases ha : a = i <;> by_cases hb : b = i
    · rw [ha, hb]
    · rw [valid_store hb] at validB
      rw [ha, tagI, tag_store hb] at same
      exact absurd same.symm (other hb validB)
    · rw [valid_store ha] at validA
      rw [hb, tagI, tag_store ha] at same
      exact absurd same (other ha validA)
    · rw [valid_store ha] at validA
      rw [valid_store hb] at validB
      rw [tag_store ha, tag_store hb] at same
      exact sound.tag_injective validA validB same
  · intro lru
    rw [Ways.store, if_pos lru]
    exact (sound.ordered lru).promote (sound.promotable geometry lru i) stored

theorem withdraw_store (geometry : config.Valid) (sound : Sound config ways) (i : Nat) (w : Way) :
    (ways.store config i w).withdraw config i (ways i) = ways := by
  unfold Ways.store withdraw
  split
  · rename_i lru
    exact (sound.ordered lru).demote_promote (sound.promotable geometry lru i)
  · rw [Function.update_idem, Function.update_eq_self]

end Sound

end Ways

end SetAssoc
