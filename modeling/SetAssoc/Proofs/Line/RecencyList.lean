import Mathlib.Data.List.Nodup
import SetAssoc.Proofs.Line.Sound

/-!
# Recency lists

The textbook form of a line with least recently used replacement is the list of its tags, the most
recent first. `Ways.Listed` says that the ranks of the ways describe the same order.
-/

namespace SetAssoc

/-- The tags of a line after an access, the most recent first. A hit moves its tag to the front, and
a miss that allocates puts its tag in front of the others, where the last of `ways` tags has to go.
-/
def RecencyList.access (ways : Nat) (tags : List Nat) (tag : Nat) (allocates : Bool) : List Nat :=
  if tag ∈ tags then tag :: tags.erase tag
  else if allocates then
    if tags.length < ways then tag :: tags else tag :: tags.dropLast
  else tags

namespace RecencyList

variable {ways tag : Nat} {tags : List Nat} {allocates : Bool}

theorem access_of_mem (found : tag ∈ tags) : access ways tags tag allocates = tag :: tags.erase tag :=
  if_pos found

theorem access_of_bypass (absent : tag ∉ tags) : access ways tags tag false = tags := by
  simp [access, absent]

theorem access_of_room (absent : tag ∉ tags) (room : tags.length < ways) :
    access ways tags tag true = tag :: tags := by
  simp [access, absent, room]

theorem access_of_full (absent : tag ∉ tags) (full : ways ≤ tags.length) :
    access ways tags tag true = tag :: tags.dropLast := by
  simp [access, absent, Nat.not_lt.mpr full]

end RecencyList

namespace Ways

def Listed (ways : Ways) (tags : List Nat) : Prop :=
  ∀ r t, tags[r]? = some t ↔ ∃ i, (ways i).valid = true ∧ (ways i).rank = r ∧ (ways i).tag = t

variable {config : Config} {ways : Ways} {tags : List Nat} {i : Nat} {w : Way}

theorem listed_empty : Listed (fun _ => Way.empty) [] := by
  intro r t
  simp [Way.empty]

namespace Listed

theorem getElem?_rank (listed : ways.Listed tags) (valid : (ways i).valid = true) :
    tags[(ways i).rank]? = some (ways i).tag := (listed _ _).2 ⟨i, valid, rfl, rfl⟩

theorem rank_lt (listed : ways.Listed tags) (valid : (ways i).valid = true) :
    (ways i).rank < tags.length :=
  (List.getElem?_eq_some_iff.1 (listed.getElem?_rank valid)).1

theorem mem_iff (listed : ways.Listed tags) {t : Nat} :
    t ∈ tags ↔ ∃ i, (ways i).holds t = true := by
  rw [List.mem_iff_getElem?]
  constructor
  · rintro ⟨r, found⟩
    obtain ⟨i, valid, -, rfl⟩ := (listed r t).1 found
    exact ⟨i, by simp [Way.holds, valid]⟩
  · rintro ⟨i, holds⟩
    obtain ⟨valid, rfl⟩ := Way.holds_iff.1 holds
    exact ⟨_, listed.getElem?_rank valid⟩

theorem nodup (listed : ways.Listed tags) (sound : Sound config ways) : tags.Nodup := by
  rw [List.nodup_iff_getElem?_ne_getElem?]
  intro a b less bound same
  obtain ⟨i, validI, rankI, tagI⟩ := (listed a _).1 (List.getElem?_eq_getElem (Nat.lt_trans less bound))
  obtain ⟨j, validJ, rankJ, tagJ⟩ := (listed b _).1 (List.getElem?_eq_getElem bound)
  rw [List.getElem?_eq_getElem (Nat.lt_trans less bound), List.getElem?_eq_getElem bound,
    Option.some.injEq] at same
  have := sound.tag_injective validI validJ (by rw [tagI, tagJ, same])
  rw [this] at rankI
  omega

theorem length_le (listed : ways.Listed tags) (sound : Sound config ways)
    (lru : config.replacement = .lru) : tags.length ≤ config.ways := by
  rcases Nat.eq_zero_or_pos tags.length with empty | positive
  · omega
  · obtain ⟨i, valid, rank, -⟩ := (listed (tags.length - 1) _).1
      (List.getElem?_eq_getElem (by omega))
    have := sound.rank_lt lru valid
    omega

theorem length_lt (listed : ways.Listed tags) (sound : Sound config ways)
    (lru : config.replacement = .lru) (bound : i < config.ways)
    (invalid : (ways i).valid = false) : tags.length < config.ways := by
  rcases Nat.eq_zero_or_pos tags.length with empty | positive
  · omega
  · obtain ⟨j, valid, rank, -⟩ := (listed (tags.length - 1) _).1
      (List.getElem?_eq_getElem (by omega))
    have others : ∀ k, (ways k).valid = true → k ∈ (Finset.range config.ways).erase i := by
      intro k validK
      refine Finset.mem_erase.2 ⟨?_, Finset.mem_range.2 (sound.index_lt validK)⟩
      rintro rfl
      rw [invalid] at validK
      cases validK
    have := (sound.ordered lru).rank_lt_card _ others valid
    rw [Finset.card_erase_of_mem (Finset.mem_range.2 bound), Finset.card_range] at this
    omega

theorem promote (listed : ways.Listed tags) (ordered : ways.Ordered)
    (promotable : ways.Promotable i) (stored : w.valid = true) :
    (ways.promote i w).Listed (w.tag :: tags.eraseIdx (ways i).rank) := by
  have tag {j} (distinct : j ≠ i) : (ways.promote i w j).tag = (ways j).tag := by
    rw [promote_of_ne distinct]
  intro r t
  cases r with
  | zero =>
      rw [List.getElem?_cons_zero, Option.some.injEq]
      constructor
      · rintro rfl
        exact ⟨i, valid_promote_self.trans stored, rank_promote_self, by rw [promote_self]⟩
      · rintro ⟨j, validJ, rankJ, rfl⟩
        by_cases distinct : j = i
        · rw [distinct, promote_self]
        · rw [valid_promote distinct] at validJ
          have := ordered.rank_promote_pos (w := w) promotable validJ distinct
          omega
  | succ r =>
      rw [List.getElem?_cons_succ, List.getElem?_eraseIdx]
      have old : (if r < (ways i).rank then tags[r]? else tags[r + 1]?) = some t ↔
          ∃ j, (ways j).valid = true ∧
            (ways j).rank = (if r < (ways i).rank then r else r + 1) ∧ (ways j).tag = t := by
        split <;> exact listed _ t
      rw [old]
      constructor
      · rintro ⟨j, validJ, rankJ, tagJ⟩
        have distinct : j ≠ i := by
          rintro rfl
          split at rankJ <;> omega
        refine ⟨j, (valid_promote distinct).trans validJ, ?_, (tag distinct).trans tagJ⟩
        rw [rank_promote validJ distinct]
        split at rankJ <;> split <;> omega
      · rintro ⟨j, validJ, rankJ, tagJ⟩
        have distinct : j ≠ i := by
          rintro rfl
          rw [rank_promote_self] at rankJ
          omega
        rw [valid_promote distinct] at validJ
        rw [rank_promote validJ distinct] at rankJ
        have := ordered.rank_ne promotable validJ distinct
        refine ⟨j, validJ, ?_, (tag distinct).symm.trans tagJ⟩
        split at rankJ <;> split <;> omega

theorem access_hit (listed : ways.Listed tags) (geometry : config.Valid) (sound : Sound config ways)
    (lru : config.replacement = .lru) {tag : Nat} (hit : (ways i).holds tag = true)
    (stored : w.holds tag = true) (allocates : Bool) :
    (ways.promote i w).Listed (RecencyList.access config.ways tags tag allocates) := by
  obtain ⟨valid, rfl⟩ := Way.holds_iff.1 hit
  obtain ⟨storedValid, storedTag⟩ := Way.holds_iff.1 stored
  obtain ⟨bound, found⟩ := List.getElem?_eq_some_iff.1 (listed.getElem?_rank valid)
  have idx : tags.idxOf (ways i).tag = (ways i).rank := by
    have := (listed.nodup sound).idxOf_getElem _ bound
    rwa [found] at this
  rw [RecencyList.access_of_mem (found ▸ List.getElem_mem bound),
    List.erase_eq_eraseIdx_of_idxOf idx, ← storedTag]
  exact listed.promote (sound.ordered lru) (sound.promotable geometry lru i) storedValid

theorem access_miss (listed : ways.Listed tags) (geometry : config.Valid) (sound : Sound config ways)
    (lru : config.replacement = .lru) {tag : Nat} (miss : ∀ j, (ways j).holds tag = false)
    (bound : i < config.ways) (victim : ways.Victim config.ways i) (stored : w.holds tag = true) :
    (ways.promote i w).Listed (RecencyList.access config.ways tags tag true) := by
  obtain ⟨storedValid, rfl⟩ := Way.holds_iff.1 stored
  have absent : w.tag ∉ tags := by
    rw [listed.mem_iff]
    rintro ⟨j, holds⟩
    rw [miss j] at holds
    cases holds
  have promoted := listed.promote (sound.ordered lru) (sound.promotable geometry lru i) storedValid
  rcases victim with ⟨invalid, -⟩ | ⟨full, last⟩
  · have room := listed.length_lt sound lru bound invalid
    have := geometry.ways_le
    have unranked : tags.length ≤ (ways i).rank := by
      rw [sound.eq_empty invalid]
      unfold Way.empty Way.unranked
      dsimp only
      omega
    rwa [RecencyList.access_of_room absent room, ← List.eraseIdx_of_length_le unranked]
  · have := listed.rank_lt (full i bound)
    have := listed.length_le sound lru
    rwa [RecencyList.access_of_full absent (by omega),
      ← List.eraseIdx_eq_dropLast (i := (ways i).rank) (by omega)]

end Listed

end Ways

end SetAssoc
