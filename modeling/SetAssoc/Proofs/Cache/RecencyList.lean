import SetAssoc.Proofs.Cache.Ranks
import SetAssoc.Proofs.Cache.Undo
import SetAssoc.Proofs.Line.RecencyList

/-!
# Least recently used replacement by recency lists

The textbook cache keeps one list of tags for each line, the most recent first. A cache with least
recently used replacement makes the same decisions.
-/

namespace SetAssoc

open Function (update update_self update_of_ne)

def Line.recency (line : Line) : List Nat :=
  (line.validWays.mergeSort fun a b => a.2.rank ≤ b.2.rank).map fun (_, way) => way.tag

abbrev RecencyLists := Nat → List Nat

namespace RecencyLists

/-- A missing tag is put in front by a read, and by a write if writes allocate. -/
def access (config : Config) (lists : RecencyLists) (request : Request) : RecencyLists :=
  let location := config.layout.split (wordAddress request.address)
  let loads := request.kind = .read ∨ config.writeAllocation = .writeAllocate
  update lists location.line
    (RecencyList.access config.ways (lists location.line) location.tag (decide loads))

def run (config : Config) (requests : List Request) : RecencyLists :=
  requests.foldl (access config) fun _ => []

end RecencyLists

theorem Line.rank_mergeSort {l : Line} (ordered : Ways.Ordered l.way) :
    ((l.validWays.mergeSort fun a b => a.2.rank ≤ b.2.rank).map fun entry => entry.2.rank) =
      List.range l.ranks.length := by
  apply List.Perm.eq_of_pairwise (fun a b _ _ => Nat.le_antisymm)
  · rw [List.pairwise_map]
    refine (List.pairwise_mergeSort ?_ ?_ l.validWays).imp ?_
    · intro a b c
      simp only [decide_eq_true_eq]
      omega
    · intro a b
      simp only [Bool.or_eq_true, decide_eq_true_eq]
      omega
    · intro a b
      simp
  · exact (List.pairwise_lt_range).imp Nat.le_of_lt
  · exact ((List.mergeSort_perm _ _).map _).trans (l.ranks_perm ordered)

theorem Line.recency_eq {l : Line} {tags : List Nat} (ordered : Ways.Ordered l.way)
    (listed : Ways.Listed l.way tags) : l.recency = tags := by
  let sorted := l.validWays.mergeSort fun a b => a.2.rank ≤ b.2.rank
  have perm : sorted.Perm l.validWays := List.mergeSort_perm _ _
  have ranks : (sorted.map fun entry => entry.2.rank) = List.range l.ranks.length :=
    Line.rank_mergeSort ordered
  apply List.ext_getElem?
  intro r
  have rank : sorted[r]?.map (fun entry => entry.2.rank) = (List.range l.ranks.length)[r]? := by
    rw [← ranks, List.getElem?_map]
  rw [recency, List.getElem?_map]
  cases entry : sorted[r]? with
  | some found =>
      obtain ⟨i, w⟩ := found
      obtain ⟨rfl, valid⟩ := mem_validWays.1 (perm.mem_iff.1 (List.mem_of_getElem? entry))
      rw [entry, Option.map_some] at rank
      obtain ⟨bound, same⟩ := List.getElem?_eq_some_iff.1 rank.symm
      rw [List.getElem_range] at same
      rw [Option.map_some, same]
      exact (listed.getElem?_rank valid).symm
  | none =>
      rw [entry, Option.map_none, eq_comm, List.getElem?_eq_none_iff, List.length_range] at rank
      rw [Option.map_none, eq_comm, List.getElem?_eq_none_iff]
      by_contra longer
      obtain ⟨i, valid, rankI, -⟩ := (listed r _).1 (List.getElem?_eq_getElem (Nat.lt_of_not_le longer))
      have mem := (l.ranks_perm ordered).mem_iff.1 (mem_ranks.2 ⟨i, valid, rankI⟩)
      rw [List.mem_range] at mem
      omega

namespace Cache

namespace Sound

variable {cache : Cache} {address : UInt32} {kind : AccessKind}

theorem isHit_access (sound : cache.Sound) (address : UInt32) (kind : AccessKind) :
    (cache.access address kind).1.isHit = true ↔
      ∃ i, (cache.way (cache.location address).line i).holds (cache.location address).tag = true := by
  rw [transaction_access]
  cases placed : cache.placement? address kind with
  | none =>
      simp only [Transaction.ofPlacement, Option.any_none, Bool.false_eq_true, false_iff]
      rintro ⟨i, holds⟩
      have miss := (Config.place_eq_none_iff.1 placed).1 i
      exact Bool.false_ne_true (miss.symm.trans holds)
  | some placement => exact (sound.suits placed).isHit_iff

theorem isHit_iff_contains (sound : cache.Sound) (address : UInt32) (kind : AccessKind) :
    (cache.access address kind).1.isHit = true ↔ cache.contains address = true := by
  rw [sound.isHit_access, contains_iff]

theorem exists_fill (sound : cache.Sound)
    (miss : ∀ i, (cache.way (cache.location address).line i).holds (cache.location address).tag = false)
    (allocates : kind.allocates cache.config.writeAllocation = true) :
    ∃ placement, cache.placement? address kind = some placement ∧ placement.isHit = false := by
  cases placed : cache.placement? address kind with
  | none =>
      rw [(Config.place_eq_none_iff.1 placed).2] at allocates
      cases allocates
  | some placement =>
      refine ⟨placement, rfl, Bool.eq_false_of_not_eq_true fun hit => ?_⟩
      obtain ⟨i, holds⟩ := (sound.suits placed).isHit_iff.1 hit
      exact Bool.false_ne_true ((miss i).symm.trans holds)

theorem listed_access (sound : cache.Sound) (lru : cache.config.replacement = .lru)
    {lists : RecencyLists} (listed : ∀ index, Ways.Listed (cache.way index) (lists index))
    (request : Request) (index : Nat) :
    Ways.Listed ((cache.access request.address request.kind).2.way index)
      (lists.access cache.config request index) := by
  have here := listed (cache.location request.address).line
  have lineSound := sound.line (cache.location request.address).line
  rw [RecencyLists.access, ← sound.location_eq]
  cases placed : cache.placement? request.address request.kind with
  | none =>
      obtain ⟨miss, bypass⟩ := Config.place_eq_none_iff.1 placed
      have absent : (cache.location request.address).tag ∉
          lists (cache.location request.address).line := by
        rw [here.mem_iff]
        rintro ⟨i, holds⟩
        exact Bool.false_ne_true ((miss i).symm.trans holds)
      have bypass : ¬ (request.kind = .read ∨ cache.config.writeAllocation = .writeAllocate) :=
        fun loads => Bool.false_ne_true (bypass.symm.trans (allocates_iff.2 loads))
      rw [way_access_of_none placed, decide_eq_false bypass, RecencyList.access_of_bypass absent,
        Function.update_eq_self]
      exact listed index
  | some placement =>
      have suits := sound.suits placed
      have stored := suits.holds_stored request.kind (cache.location request.address).block
      rw [sound.way_access_of_some placed]
      by_cases same : index = (cache.location request.address).line
      · rw [same, update_self, update_self, Ways.store, if_pos lru]
        cases hit : placement.isHit with
        | true =>
            exact here.access_hit sound.geometry lineSound lru (suits.hit hit).2 stored _
        | false =>
            obtain ⟨-, miss, victim⟩ := suits.fill hit
            rw [decide_eq_true (allocates_iff.1 (Config.allocates_of_place placed hit))]
            exact here.access_miss sound.geometry lineSound lru miss suits.way_lt (victim lru) stored
      · rw [update_of_ne same, update_of_ne same]
        exact listed index

theorem listed_accessAll (sound : cache.Sound) (lru : cache.config.replacement = .lru)
    {lists : RecencyLists} (listed : ∀ index, Ways.Listed (cache.way index) (lists index))
    (requests : List Request) (index : Nat) :
    Ways.Listed ((cache.accessAll requests).2.way index)
      (requests.foldl (RecencyLists.access cache.config) lists index) := by
  induction requests generalizing cache lists with
  | nil => exact listed index
  | cons request rest ih =>
      exact ih (sound.access request.address request.kind) lru (sound.listed_access lru listed request)

/-- What an allocating miss does, given the recency list of its line. The list has room just if the
way that is filled was invalid, and then it is the lowest such way; else the way held the tag that
is last in the list. -/
theorem fill_access (sound : cache.Sound) (lru : cache.config.replacement = .lru) {tags : List Nat}
    (listed : Ways.Listed (cache.way (cache.location address).line) tags)
    (miss : (cache.location address).tag ∉ tags)
    (loads : kind = .read ∨ cache.config.writeAllocation = .writeAllocate) :
    ((cache.access address kind).1.becameValid = true ↔ tags.length < cache.config.ways) ∧
      ∃ way, (cache.access address kind).1.way = some way ∧ way < cache.config.ways ∧
        if tags.length < cache.config.ways then
          (cache.way (cache.location address).line way).valid = false ∧
            ∀ other < cache.config.ways,
              (cache.way (cache.location address).line other).valid = false → way ≤ other
        else
          (cache.way (cache.location address).line way).valid = true ∧
            tags.getLast? = some (cache.way (cache.location address).line way).tag := by
  have lineSound := sound.line (cache.location address).line
  obtain ⟨placement, placed, fill⟩ := sound.exists_fill (fun i => Bool.eq_false_of_not_eq_true
    fun holds => miss (listed.mem_iff.2 ⟨i, holds⟩)) (allocates_iff.2 loads)
  have suits := sound.suits placed
  have became : (cache.access address kind).1.becameValid =
      !(cache.way (cache.location address).line placement.way).valid := by
    rw [transaction_access, placed]
    simp only [Transaction.ofPlacement, Option.any_some, Placement.becameValid, fill, Bool.not_false,
      Bool.true_and, suits.previous_eq]
    rfl
  rw [became]
  have filled : (cache.access address kind).1.way = some placement.way := by
    rw [way_access_fst, placed, Option.map_some]
  rcases (suits.fill fill).2.2 lru with ⟨invalid, lowest⟩ | ⟨full, last⟩
  · have room := listed.length_lt lineSound lru suits.way_lt invalid
    refine ⟨?_, placement.way, filled, suits.way_lt, ?_⟩
    · rw [way_eq, invalid]
      exact iff_of_true rfl room
    · rw [if_pos room]
      exact ⟨invalid, lowest⟩
  · have valid := full placement.way suits.way_lt
    have rank : (cache.way (cache.location address).line placement.way).rank =
      cache.config.ways - 1 := last
    have length : tags.length = cache.config.ways := by
      have below := listed.rank_lt valid
      have above := listed.length_le lineSound lru
      rw [rank] at below
      omega
    refine ⟨?_, placement.way, filled, suits.way_lt, ?_⟩
    · rw [way_eq, valid]
      exact iff_of_false (by decide) (by omega)
    · rw [if_neg (by omega), List.getLast?_eq_getElem?, length, ← rank]
      exact ⟨valid, listed.getElem?_rank valid⟩

end Sound

/-- A cache with least recently used replacement decides as the textbook cache does, whatever its
geometry and its write policies are. -/
theorem refines_recency_lists {config : Config} (geometry : config.Valid)
    (lru : config.replacement = .lru) (source : RandomSource) :
    ∃ fresh, Cache.new config source = .ok fresh ∧ ∀ requests : List Request,
      let cache := (fresh.accessAll requests).2
      let lists := RecencyLists.run config requests
      (∀ index, (cache.line index).recency = lists index ∧ (lists index).Nodup ∧
        (lists index).length ≤ config.ways) ∧
      ∀ request : Request,
        let location := config.layout.split (wordAddress request.address)
        let transaction := (cache.access request.address request.kind).1
        (transaction.isHit = true ↔ location.tag ∈ lists location.line) ∧
        (location.tag ∉ lists location.line →
          request.kind = .read ∨ config.writeAllocation = .writeAllocate →
          (transaction.becameValid = true ↔ (lists location.line).length < config.ways) ∧
            ∃ way, transaction.way = some way ∧ way < config.ways ∧
              if (lists location.line).length < config.ways then
                (cache.way location.line way).valid = false ∧
                  ∀ other < config.ways, (cache.way location.line other).valid = false → way ≤ other
              else
                (cache.way location.line way).valid = true ∧
                  (lists location.line).getLast? = some (cache.way location.line way).tag) := by
  have built : Cache.new config source = .ok { config, source } := by
    rw [Cache.new, (Config.validate_eq_ok_iff config).2 geometry]
    rfl
  refine ⟨_, built, fun requests => ?_⟩
  have fresh := sound_new built
  intro cache lists
  have sound : cache.Sound := fresh.accessAll requests
  have same : cache.config = config := config_accessAll _ requests
  have listed (index : Nat) : Ways.Listed (cache.way index) (lists index) := by
    refine fresh.listed_accessAll lru (fun index => ?_) requests index
    rw [way_of_empty rfl]
    exact Ways.listed_empty
  rw [← same] at lru
  refine ⟨fun index => ?_, fun request => ?_⟩
  · rw [← same]
    exact ⟨Line.recency_eq ((sound.line index).ordered lru) (listed index),
      (listed index).nodup (sound.line index), (listed index).length_le (sound.line index) lru⟩
  · intro location transaction
    have here : location = cache.location request.address := by rw [sound.location_eq, same]
    rw [here, ← same]
    refine ⟨?_, sound.fill_access lru (listed _)⟩
    rw [(listed _).mem_iff]
    exact sound.isHit_access request.address request.kind

/-- A cache of four lines of two ways, which writes through and loads on reads only. -/
theorem refines_recency_lists_two_ways :
    let config : Config :=
      { blockBits := 1, lineBits := 2, wayBits := 1,
        writePolicy := .writeThrough, writeAllocation := .noWriteAllocate }
    (config.Valid ∧ config.replacement = .lru) ∧
      ∃ fresh, Cache.new config = .ok fresh ∧ ∀ requests : List Request,
        let cache := (fresh.accessAll requests).2
        let lists := RecencyLists.run config requests
        (∀ index, (cache.line index).recency = lists index ∧ (lists index).Nodup ∧
          (lists index).length ≤ config.ways) ∧
        ∀ request : Request,
          let location := config.layout.split (wordAddress request.address)
          let transaction := (cache.access request.address request.kind).1
          (transaction.isHit = true ↔ location.tag ∈ lists location.line) ∧
          (location.tag ∉ lists location.line →
            request.kind = .read ∨ config.writeAllocation = .writeAllocate →
            (transaction.becameValid = true ↔ (lists location.line).length < config.ways) ∧
              ∃ way, transaction.way = some way ∧ way < config.ways ∧
                if (lists location.line).length < config.ways then
                  (cache.way location.line way).valid = false ∧
                    ∀ other < config.ways, (cache.way location.line other).valid = false → way ≤ other
                else
                  (cache.way location.line way).valid = true ∧
                    (lists location.line).getLast? = some (cache.way location.line way).tag) :=
  ⟨⟨by decide, rfl⟩, refines_recency_lists (by decide) rfl default⟩

end Cache

end SetAssoc
