import SetAssoc.Proofs.Cache.Sound

/-!
# Counting ways

`Cache.waysWhere` enumerates the ways of a cache that satisfy a test which the empty way fails, each
once. So their number can be compared with that of some accesses, and an access that changes the
test of one way only changes the number by at most one (`length_waysWhere_add`).
-/

namespace SetAssoc.Cache

def waysWhere (cache : Cache) (test : Way → Bool) : List (Nat × Nat) :=
  cache.lines.toList.flatMap fun (index, line) =>
    (line.toList.filter fun (_, way) => test way).map fun (i, _) => (index, i)

variable {cache after : Cache} {test : Way → Bool}

theorem line_of_getElem? {index : Nat} {line : Line} (found : cache.lines[index]? = some line) :
    cache.line index = line := by
  rw [Cache.line, found, Option.getD_some]

theorem mem_waysWhere (empty : test Way.empty = false) {index i : Nat} :
    (index, i) ∈ cache.waysWhere test ↔ test (cache.way index i) = true := by
  simp only [waysWhere, List.mem_flatMap, List.mem_map, List.mem_filter, Prod.exists, Prod.mk.injEq,
    Std.ExtTreeMap.mem_toList_iff_getElem?_eq_some]
  constructor
  · rintro ⟨_, line, foundLine, _, way, ⟨found, satisfied⟩, rfl, rfl⟩
    rw [Cache.way, line_of_getElem? foundLine, Line.way_of_getElem? found]
    exact satisfied
  · intro satisfied
    have created : i ∈ cache.line index := by
      by_contra absent
      rw [Cache.way, Line.way_of_not_mem absent, empty] at satisfied
      cases satisfied
    have found := Std.ExtTreeMap.getElem?_eq_some_getElem (mem_lines_of_mem_line created)
    have line := line_of_getElem? found
    refine ⟨index, _, found, i, cache.way index i, ⟨?_, satisfied⟩, rfl, rfl⟩
    rw [← line]
    exact Line.getElem?_of_mem created

theorem nodup_waysWhere (cache : Cache) (test : Way → Bool) : (cache.waysWhere test).Nodup := by
  rw [waysWhere, List.nodup_flatMap]
  constructor
  · rintro ⟨index, line⟩ -
    refine List.Pairwise.map _ (R := fun a b => a.1 ≠ b.1) ?_ ((pairwise_keys_ne line).filter _)
    intro a b distinct same
    exact distinct (congrArg Prod.snd same)
  · refine (pairwise_keys_ne cache.lines).imp ?_
    rintro ⟨index, line⟩ ⟨other, otherLine⟩ distinct place mem memOther
    obtain ⟨entry, -, rfl⟩ := List.mem_map.1 mem
    obtain ⟨entry, -, same⟩ := List.mem_map.1 memOther
    exact distinct (congrArg Prod.fst same).symm

theorem length_waysWhere_add (test : Way → Bool) (empty : test Way.empty = false) (index i : Nat)
    (same : ∀ otherIndex other, ¬ (otherIndex = index ∧ other = i) →
      test (after.way otherIndex other) = test (cache.way otherIndex other)) :
    (after.waysWhere test).length + (test (cache.way index i)).toNat =
      (cache.waysWhere test).length + (test (after.way index i)).toNat := by
  have others : ((after.waysWhere test).erase (index, i)).Perm
      ((cache.waysWhere test).erase (index, i)) := by
    rw [List.perm_ext_iff_of_nodup ((nodup_waysWhere after test).erase _)
      ((nodup_waysWhere cache test).erase _)]
    rintro ⟨otherIndex, other⟩
    rw [(nodup_waysWhere after test).mem_erase_iff, (nodup_waysWhere cache test).mem_erase_iff,
      mem_waysWhere empty, mem_waysWhere empty, ne_eq, Prod.mk.injEq]
    refine and_congr_right fun distinct => ?_
    rw [same otherIndex other distinct]
  have length (c : Cache) : (c.waysWhere test).length =
      ((c.waysWhere test).erase (index, i)).length + (test (c.way index i)).toNat := by
    by_cases satisfied : test (c.way index i) = true
    · have mem := (mem_waysWhere empty).2 satisfied
      have := List.length_pos_of_mem mem
      rw [List.length_erase_of_mem mem, satisfied, Bool.toNat_true]
      omega
    · have absent : (index, i) ∉ c.waysWhere test := fun mem => satisfied ((mem_waysWhere empty).1 mem)
      rw [List.erase_of_not_mem absent, Bool.eq_false_of_not_eq_true satisfied, Bool.toNat_false]
      omega
  rw [length after, length cache, others.length_eq]
  omega

end SetAssoc.Cache
