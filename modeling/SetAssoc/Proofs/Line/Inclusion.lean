import SetAssoc.Proofs.Line.RecencyList

/-!
# Recency lists of two sizes

The same accesses are made to a short and to a long recency list. What the short list holds stays in
the long one: the tag that the long list drops is one that the short list drops too.
-/

namespace SetAssoc.RecencyList

open scoped List

variable {ways more tag : Nat} {tags short long : List Nat} {allocates : Bool}

theorem length_access_le (positive : 0 < ways) (bounded : tags.length ≤ ways) :
    (access ways tags tag allocates).length ≤ ways := by
  unfold access
  split
  · rename_i found
    rw [List.length_cons, List.length_erase_of_mem found]
    have := List.length_pos_of_mem found
    omega
  · split
    · split
      · rwa [List.length_cons]
      · rw [List.length_cons, List.length_dropLast]
        omega
    · exact bounded

theorem map_access (ways : Nat) (tags : List Nat) (tag : Nat) (allocates : Bool)
    {rename : Nat → Nat} (injective : Function.Injective rename) :
    (access ways tags tag allocates).map rename =
      access ways (tags.map rename) (rename tag) allocates := by
  simp only [access, List.mem_map_of_injective injective, List.length_map]
  split
  · rw [List.map_cons, List.map_erase injective]
  · split
    · split
      · rfl
      · rw [List.map_cons, List.map_dropLast]
    · rfl

theorem dropLast_sublist_dropLast (sublist : short <+ long) : short.dropLast <+ long.dropLast := by
  rw [← List.reverse_sublist, ← List.tail_reverse, ← List.tail_reverse]
  exact (List.reverse_sublist.2 sublist).tail

/-! ## The same tags go to both lists -/

structure Nested (ways : Nat) (short long : List Nat) : Prop where
  sublist : short <+ long
  eq_of_room : short.length < ways → short = long

theorem Nested.access (nested : Nested ways short long) (positive : 0 < ways) (le : ways ≤ more)
    (tag : Nat) (allocates : Bool) :
    Nested ways (access ways short tag allocates) (access more long tag allocates) := by
  by_cases held : tag ∈ short
  · rw [access_of_mem held, access_of_mem (nested.sublist.subset held)]
    refine ⟨(nested.sublist.erase tag).cons_cons tag, fun room => ?_⟩
    rw [List.length_cons, List.length_erase_of_mem held] at room
    rw [nested.eq_of_room (by omega)]
  have kept : short <+ long.erase tag := by
    have := nested.sublist.erase tag
    rwa [List.erase_of_not_mem held] at this
  by_cases heldLong : tag ∈ long
  · have full : ways ≤ short.length := by
      by_contra room
      exact held (nested.eq_of_room (by omega) ▸ heldLong)
    rw [access_of_mem heldLong]
    cases allocates with
    | false =>
        rw [access_of_bypass held]
        exact ⟨kept.cons tag, fun room => by omega⟩
    | true =>
        rw [access_of_full held full]
        refine ⟨((List.dropLast_sublist short).trans kept).cons_cons tag, fun room => ?_⟩
        rw [List.length_cons, List.length_dropLast] at room
        omega
  cases allocates with
  | false =>
      rw [access_of_bypass held, access_of_bypass heldLong]
      exact nested
  | true =>
      by_cases room : short.length < ways
      · have same := nested.eq_of_room room
        subst same
        rw [access_of_room held room, access_of_room held (by omega)]
        exact ⟨List.Sublist.refl _, fun _ => rfl⟩
      · rw [access_of_full held (by omega)]
        constructor
        · by_cases roomLong : long.length < more
          · rw [access_of_room heldLong roomLong]
            exact ((List.dropLast_sublist short).trans nested.sublist).cons_cons tag
          · rw [access_of_full heldLong (by omega)]
            exact (dropLast_sublist_dropLast nested.sublist).cons_cons tag
        · intro roomAfter
          rw [List.length_cons, List.length_dropLast] at roomAfter
          omega

/-! ## The long list is there for some of the tags only -/

variable {concerns : Nat → Bool}

theorem prefix_erase (front : short <+: long) (absent : tag ∉ short) : short <+: long.erase tag := by
  obtain ⟨rest, rfl⟩ := front
  rw [List.erase_append_right _ absent]
  exact List.prefix_append short (rest.erase tag)

theorem erase_prefix_erase (front : short <+: long) (held : tag ∈ short) :
    short.erase tag <+: long.erase tag := by
  obtain ⟨rest, rfl⟩ := front
  rw [List.erase_append_left _ held]
  exact List.prefix_append (short.erase tag) rest

theorem prefix_dropLast (front : short <+: long) (shorter : short.length < long.length) :
    short <+: long.dropLast := by
  apply List.prefix_of_prefix_length_le front (List.dropLast_prefix long)
  rw [List.length_dropLast]
  omega

theorem filter_access_prefix_of_other (other : concerns tag = false) :
    (access ways short tag allocates).filter concerns <+: short.filter concerns := by
  have dropped : (tag :: short.dropLast).filter concerns <+: short.filter concerns := by
    rw [List.filter_cons_of_neg (by simp [other])]
    exact (List.dropLast_prefix short).filter concerns
  unfold access
  split
  · rw [List.filter_cons_of_neg (by simp [other]), ← List.erase_filter, List.erase_of_not_mem]
    simp [other]
  · split
    · split
      · rw [List.filter_cons_of_neg (by simp [other])]
      · exact dropped
    · exact List.prefix_refl _

theorem filter_access_prefix (front : short.filter concerns <+: long) (concerned : concerns tag = true)
    (positive : 0 < ways) (le : ways ≤ more) (bounded : short.length ≤ ways) :
    (access ways short tag true).filter concerns <+: access more long tag true := by
  have heldIff : tag ∈ short.filter concerns ↔ tag ∈ short := by simp [concerned]
  have atFront : ∀ {rest others : List Nat}, rest.filter concerns <+: others →
      (tag :: rest).filter concerns <+: tag :: others := by
    intro rest others front
    rw [List.filter_cons_of_pos concerned]
    exact (List.prefix_cons_inj tag).2 front
  by_cases held : tag ∈ short
  · rw [access_of_mem held, access_of_mem (front.subset (heldIff.2 held))]
    apply atFront
    rw [← List.erase_filter]
    exact erase_prefix_erase front (heldIff.2 held)
  -- a miss in the short list leaves at most `ways - 1` of its tags
  obtain ⟨kept, miss, keptFront, keptShorter⟩ : ∃ kept, access ways short tag true = tag :: kept ∧
      kept.filter concerns <+: short.filter concerns ∧ (kept.filter concerns).length < ways := by
    by_cases room : short.length < ways
    · refine ⟨short, access_of_room held room, List.prefix_refl _, ?_⟩
      exact Nat.lt_of_le_of_lt (List.length_filter_le _ _) room
    · refine ⟨short.dropLast, access_of_full held (by omega), (List.dropLast_prefix short).filter _, ?_⟩
      have := List.length_filter_le concerns short.dropLast
      rw [List.length_dropLast] at this
      omega
  rw [miss]
  have keptLong := keptFront.trans front
  by_cases heldLong : tag ∈ long
  · rw [access_of_mem heldLong]
    exact atFront (keptFront.trans (prefix_erase front (mt heldIff.1 held)))
  · by_cases room : long.length < more
    · rw [access_of_room heldLong room]
      exact atFront keptLong
    · rw [access_of_full heldLong (by omega)]
      exact atFront (prefix_dropLast keptLong (by omega))

end SetAssoc.RecencyList
