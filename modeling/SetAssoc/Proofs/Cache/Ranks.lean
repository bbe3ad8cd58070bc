import Mathlib.Data.List.Nodup
import SetAssoc.Proofs.Cache.Reachable

/-!
# Ranks in order

In every reachable cache with least recently used replacement the ranks of the valid ways of a line
are `0, …, k - 1`, each once, so there is always a way to fill.
-/

namespace SetAssoc

namespace Line

def validWays (line : Line) : List (Nat × Way) := line.toList.filter fun (_, way) => way.valid

def ranks (line : Line) : List Nat := line.validWays.map fun (_, way) => way.rank

variable {l : Line} {config : Config}

theorem mem_validWays {i : Nat} {w : Way} :
    (i, w) ∈ l.validWays ↔ l.way i = w ∧ w.valid = true := by
  rw [validWays, List.mem_filter, Std.ExtTreeMap.mem_toList_iff_getElem?_eq_some]
  constructor
  · rintro ⟨found, valid⟩
    exact ⟨way_of_getElem? found, valid⟩
  · rintro ⟨rfl, valid⟩
    exact ⟨getElem?_of_mem (mem_of_valid valid), valid⟩

theorem nodup_validWays : l.validWays.Nodup := by
  apply List.Nodup.filter
  refine (pairwise_keys_ne l).imp ?_
  rintro a b distinct rfl
  exact distinct rfl

theorem mem_ranks {r : Nat} : r ∈ l.ranks ↔ ∃ i, (l.way i).valid = true ∧ (l.way i).rank = r := by
  rw [ranks, List.mem_map]
  constructor
  · rintro ⟨⟨i, w⟩, mem, rfl⟩
    obtain ⟨rfl, valid⟩ := mem_validWays.1 mem
    exact ⟨i, valid, rfl⟩
  · rintro ⟨i, valid, rfl⟩
    exact ⟨(i, l.way i), mem_validWays.2 ⟨rfl, valid⟩, rfl⟩

theorem nodup_ranks (ordered : Ways.Ordered l.way) : l.ranks.Nodup := by
  refine List.Nodup.map_on ?_ nodup_validWays
  rintro ⟨i, _⟩ memI ⟨j, _⟩ memJ same
  obtain ⟨rfl, validI⟩ := mem_validWays.1 memI
  obtain ⟨rfl, validJ⟩ := mem_validWays.1 memJ
  rw [ordered.injective validI validJ same]

theorem ranks_perm (ordered : Ways.Ordered l.way) : l.ranks.Perm (List.range l.ranks.length) := by
  have nodup := nodup_ranks ordered
  have below : ∀ r ∈ l.ranks, r < l.ranks.length := by
    intro r mem
    have older : Finset.range (r + 1) ⊆ l.ranks.toFinset := by
      intro s lower
      rw [List.mem_toFinset]
      rcases Nat.lt_or_eq_of_le (Nat.le_of_lt_succ (Finset.mem_range.1 lower)) with lower | rfl
      · obtain ⟨i, valid, rfl⟩ := mem_ranks.1 mem
        exact mem_ranks.2 (ordered.downward valid lower)
      · exact mem
    have := Finset.card_le_card older
    rwa [Finset.card_range, List.toFinset_card_of_nodup nodup] at this
  refine (List.subperm_of_subset nodup ?_).perm_of_length_le ?_
  · intro r mem
    exact List.mem_range.2 (below r mem)
  · rw [List.length_range]

theorem length_ranks_le (sound : Ways.Sound config l.way) : l.ranks.length ≤ config.ways := by
  have keys : l.validWays.map Prod.fst ⊆ List.range config.ways := by
    intro i mem
    obtain ⟨⟨j, w⟩, member, rfl⟩ := List.mem_map.1 mem
    obtain ⟨rfl, valid⟩ := mem_validWays.1 member
    exact List.mem_range.2 (sound.index_lt valid)
  have nodup : (l.validWays.map Prod.fst).Nodup := by
    refine List.Nodup.map_on ?_ nodup_validWays
    rintro ⟨i, _⟩ memI ⟨j, _⟩ memJ same
    obtain ⟨rfl, -⟩ := mem_validWays.1 memI
    obtain ⟨rfl, -⟩ := mem_validWays.1 memJ
    cases same
    rfl
  have := (List.subperm_of_subset nodup keys).length_le
  rwa [List.length_map, List.length_range, ← List.length_map (fun entry => entry.2.rank)] at this

end Line

namespace Cache

variable {cache : Cache}

theorem Sound.isSome_chooseVictim (sound : cache.Sound) (lru : cache.config.replacement = .lru)
    (index : Nat) : ((cache.line index).chooseVictim cache.config.ways).1.isSome = true := by
  obtain ⟨way, chosen, -⟩ := Config.exists_chosen (sound.line index) lru (sound.bounded index)
  rw [chosen, Option.isSome_some]

theorem Sound.not_stuck (sound : cache.Sound) (address : UInt32) (kind : AccessKind) :
    cache.stuck address kind = false := by
  obtain ⟨way, created, after, chosen, -⟩ := Config.chooseWay?_eq_some cache.source
    (sound.line (cache.location address).line) (sound.bounded (cache.location address).line)
  have chosen : (cache.config.chooseWay? cache.source
      (cache.line (cache.layout.split (wordAddress address)).line)).1 = some way := by
    rw [← location, chosen]
  simp [stuck, chosen]

/-- In every reachable cache with least recently used replacement, the ranks of each line are in
order, invalid ways are empty, and a full line has a victim. So no access gets stuck. -/
theorem Reachable.ranks_in_order (reachable : cache.Reachable) :
    (cache.config.replacement = .lru →
      (∀ (index : Nat) (l : Line), cache.lines[index]? = some l →
        l.ranks.Perm (List.range l.ranks.length) ∧ l.ranks.length ≤ cache.config.ways ∧
          ∀ (i : Nat) (w : Way), l[i]? = some w → w.valid = false → w = Way.empty) ∧
      ∀ index, ((cache.line index).chooseVictim cache.config.ways).1.isSome = true) ∧
    ∀ address kind, cache.stuck address kind = false := by
  have sound := reachable.sound
  refine ⟨fun lru => ⟨?_, sound.isSome_chooseVictim lru⟩, sound.not_stuck⟩
  intro index l found
  have lineEq : cache.line index = l := by rw [line, found, Option.getD_some]
  have lineSound := sound.line index
  rw [lineEq] at lineSound
  refine ⟨Line.ranks_perm (lineSound.ordered lru), Line.length_ranks_le lineSound, ?_⟩
  intro i w created invalid
  rw [← Line.way_of_getElem? created] at invalid ⊢
  exact lineSound.eq_empty invalid

/-- A line of two ways is filled, an access is undone, and the history is cut before the next ones.
-/
theorem ranks_in_order_two_ways :
    let cache : Cache := { config := { blockBits := 0, lineBits := 0, wayBits := 1 } }
    let after := (cache.run [.access 0 .read, .access 4 .write, .undo, .setUndoDepth 1,
      .access 8 .read, .access 12 .read, .undo]).2.1
    after.Reachable ∧
      (after.config.replacement = .lru →
        (∀ (index : Nat) (l : Line), after.lines[index]? = some l →
          l.ranks.Perm (List.range l.ranks.length) ∧ l.ranks.length ≤ after.config.ways ∧
            ∀ (i : Nat) (w : Way), l[i]? = some w → w.valid = false → w = Way.empty) ∧
        ∀ index, ((after.line index).chooseVictim after.config.ways).1.isSome = true) ∧
      ∀ address kind, after.stuck address kind = false :=
  have reachable := (Reachable.new
    (show Cache.new { blockBits := 0, lineBits := 0, wayBits := 1 } = .ok _ from rfl)).run _
  ⟨reachable, reachable.ranks_in_order⟩

end Cache

end SetAssoc
