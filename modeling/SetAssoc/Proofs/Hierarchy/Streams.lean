import SetAssoc.Proofs.Hierarchy.Run
import SetAssoc.Proofs.Hierarchy.Walk

/-!
# A hierarchy is a composition of caches

Each level of a hierarchy does what its cache would do alone on the requests that the levels above
miss. Nothing below a level has an influence on it.
-/

namespace SetAssoc

def Cache.missed (cache : Cache) : List Request → List Request
  | [] => []
  | request :: rest =>
      let (transaction, cache) := cache.access request.address request.kind
      if transaction.isHit then cache.missed rest else request :: cache.missed rest

theorem Cache.missed_cons_of_hit {cache : Cache} {request : Request} {rest : List Request}
    (hit : (cache.access request.address request.kind).1.isHit = true) :
    cache.missed (request :: rest) =
      (cache.access request.address request.kind).2.missed rest := if_pos hit

theorem Cache.missed_cons_of_miss {cache : Cache} {request : Request} {rest : List Request}
    (miss : (cache.access request.address request.kind).1.isHit = false) :
    cache.missed (request :: rest) =
      request :: (cache.access request.address request.kind).2.missed rest :=
  if_neg (ne_true_of_eq_false miss)

structure Outcome.Descends (outcome : Outcome) (levels : List Level) : Prop where
  levels_prefix : outcome.visits.map (·.level) <+: levels
  eq_nil_iff : outcome.visits = [] ↔ levels = []
  passed : ∀ visit ∈ outcome.visits.dropLast, visit.transaction.isHit = false
  stops : ∀ last, outcome.visits.getLast? = some last →
    last.transaction.isHit = true ∨ levels.getLast? = some last.level
  servedBy_eq : outcome.servedBy =
    (outcome.visits.getLast?.filter (·.transaction.isHit)).map (·.level)

namespace Hierarchy

/-- The requests that every enabled level above the given one misses, each level on its own and on
what the levels above it pass on. -/
def incoming (hierarchy : Hierarchy) (level : Level) (requests : List Request) : List Request :=
  (hierarchy.enabled.filter (·.1.index < level.index)).foldl
    (fun stream (_, cache) => cache.missed stream) requests

def reported (level : Level) (requests : List Request) (outcomes : List Outcome) :
    List (Request × Transaction) :=
  (requests.zip outcomes).filterMap fun (request, outcome) =>
    (outcome.visit? level).map (request, ·)

variable {hierarchy : Hierarchy} {address : UInt32} {kind : AccessKind} {level upper lower : Level}
  {cache : Cache}

theorem Walk.descends {levels : List Level} {outcome : Outcome} (walk : Walk levels outcome.visits) :
    outcome.Descends levels where
  levels_prefix := walk.levels_prefix
  eq_nil_iff := walk.eq_nil_iff
  passed := walk.missed_of_mem_dropLast
  stops _ := walk.isHit_or_lowest
  servedBy_eq := congrArg (Option.map _) walk.find?_isHit

theorem lt_reach_iff : level.index < hierarchy.reach address kind ↔
    ∃ t, LevelAccess.mk level t ∈ (hierarchy.access address kind).1.visits := by
  rw [← mem_levels_visits, mem_map_level_iff]

theorem visit?_access_of_le (unvisited : hierarchy.reach address kind ≤ level.index) :
    (hierarchy.access address kind).1.visit? level = none := by
  rw [Outcome.visit?, Option.map_eq_none_iff, List.find?_eq_none]
  intro visit mem same
  have visited := lt_reach_iff.2 ⟨visit.transaction, mem⟩
  rw [of_decide_eq_true same] at visited
  omega

theorem level?_access_of_lt (found : hierarchy.level? level = some cache)
    (visited : level.index < hierarchy.reach address kind) :
    (hierarchy.access address kind).2.level? level = some (cache.access address kind).2 := by
  rw [level?_access, found, Option.map_some, if_pos visited]

theorem level?_access_of_not_lt (found : hierarchy.level? level = some cache)
    (unvisited : ¬ level.index < hierarchy.reach address kind) :
    (hierarchy.access address kind).2.level? level = some cache := by
  rw [level?_access, found, Option.map_some, if_neg unvisited]

namespace Sound

theorem visit?_access_of_lt (sound : hierarchy.Sound) (found : hierarchy.level? level = some cache)
    (visited : level.index < hierarchy.reach address kind) :
    (hierarchy.access address kind).1.visit? level = some (cache.access address kind).1 := by
  obtain ⟨transaction, mem⟩ := lt_reach_iff.1 visited
  obtain ⟨same, found', rfl⟩ := transaction_of_mem_visits mem
  cases found.symm.trans found'
  exact ((sound.walk_access address kind).visit?_eq_some_iff nodup_enabledLevels).2 mem

theorem lt_reach_next_iff (sound : hierarchy.Sound) (child : upper.child? = some lower)
    (found : hierarchy.level? upper = some cache) (enabled : hierarchy.isEnabled lower = true)
    (address : UInt32) (kind : AccessKind) :
    lower.index < hierarchy.reach address kind ↔
      upper.index < hierarchy.reach address kind ∧ (cache.access address kind).1.isHit = false := by
  obtain ⟨above, below, split⟩ :=
    Level.split_of_child sound.enabledLevels_prefix child (mem_enabledLevels.2 enabled)
  have walk := sound.walk_access address kind
  have nodup : hierarchy.enabledLevels.Nodup := nodup_enabledLevels
  rw [split] at walk nodup
  rw [lt_reach_iff, lt_reach_iff, walk.exists_mem_next_iff nodup, ← exists_and_right]
  refine exists_congr fun transaction => and_congr_right fun mem => ?_
  obtain ⟨held, found', same⟩ := transaction_of_mem_visits mem
  cases found.symm.trans found'
  rw [← same]

/-! ## Runs of accesses -/

theorem reaching_first (sound : hierarchy.Sound) (enabled : hierarchy.isEnabled .l1 = true)
    (requests : List Request) : hierarchy.reaching .l1 requests = requests := by
  induction requests generalizing hierarchy with
  | nil => rfl
  | cons request rest ih =>
      have visited := hierarchy.reach_pos request.address request.kind enabled
      refine (if_pos visited).trans (congrArg (request :: ·) (ih (sound.access _ _) ?_))
      rwa [isEnabled_access]

theorem reaching_next (sound : hierarchy.Sound) (child : upper.child? = some lower)
    (found : hierarchy.level? upper = some cache) (enabled : hierarchy.isEnabled lower = true)
    (requests : List Request) :
    hierarchy.reaching lower requests = cache.missed (hierarchy.reaching upper requests) := by
  induction requests generalizing hierarchy cache with
  | nil => rfl
  | cons request rest ih =>
      have forwarded := sound.lt_reach_next_iff child found enabled request.address request.kind
      have later {after : Cache} (held : (hierarchy.access _ _).2.level? upper = some after) :=
        ih (sound.access request.address request.kind) held (by rwa [isEnabled_access])
      rw [reaching, reaching]
      by_cases visited : upper.index < hierarchy.reach request.address request.kind
      · have rest := later (level?_access_of_lt found visited)
        cases hit : (cache.access request.address request.kind).1.isHit with
        | true =>
            have unvisited := fun below => Bool.false_ne_true ((forwarded.1 below).2.symm.trans hit)
            rw [if_neg unvisited, if_pos visited, Cache.missed_cons_of_hit hit, rest]
        | false =>
            rw [if_pos (forwarded.2 ⟨visited, hit⟩), if_pos visited, Cache.missed_cons_of_miss hit, rest]
      · have unvisited := fun below => visited (forwarded.1 below).1
        rw [if_neg unvisited, if_neg visited, later (level?_access_of_not_lt found visited)]

theorem reaching_eq_incoming (sound : hierarchy.Sound) (enabled : hierarchy.isEnabled level = true)
    (requests : List Request) :
    hierarchy.reaching level requests = hierarchy.incoming level requests := by
  obtain ⟨first, foundFirst⟩ := isEnabled_eq_true_iff.1 (sound.isEnabled_first enabled)
  have top := sound.reaching_first (sound.isEnabled_first enabled) requests
  rw [incoming, sound.enabled_eq]
  cases level with
  | l1 =>
      rw [top]
      simp [Level.all, Level.index, foundFirst]
  | l2 =>
      obtain ⟨second, foundSecond⟩ := isEnabled_eq_true_iff.1 enabled
      rw [sound.reaching_next rfl foundFirst enabled, top]
      cases foundThird : hierarchy.level? .l3 <;>
        simp [Level.all, Level.index, foundFirst, foundSecond, foundThird]
  | l3 =>
      have between := sound.gapless .l3 .l2 rfl enabled
      obtain ⟨second, foundSecond⟩ := isEnabled_eq_true_iff.1 between
      obtain ⟨third, foundThird⟩ := isEnabled_eq_true_iff.1 enabled
      rw [sound.reaching_next rfl foundSecond enabled, sound.reaching_next rfl foundFirst between, top]
      simp [Level.all, Level.index, foundFirst, foundSecond, foundThird]

theorem reported_accessAll (sound : hierarchy.Sound) (found : hierarchy.level? level = some cache)
    (requests : List Request) : reported level requests (hierarchy.accessAll requests).1 =
      (hierarchy.reaching level requests).zip (cache.accessAll (hierarchy.reaching level requests)).1 := by
  induction requests generalizing hierarchy cache with
  | nil => rfl
  | cons request rest ih =>
      have later {after : Cache} (held : (hierarchy.access _ _).2.level? level = some after) :=
        ih (sound.access request.address request.kind) held
      rw [accessAll_cons, reaching, reported, List.zip_cons_cons]
      by_cases visited : level.index < hierarchy.reach request.address request.kind
      · have here := sound.visit?_access_of_lt found visited
        have rest := later (level?_access_of_lt found visited)
        simp only [List.filterMap_cons, here, Option.map_some]
        rw [if_pos visited, Cache.accessAll_cons, List.zip_cons_cons, ← rest, reported]
      · have here := visit?_access_of_le (Nat.le_of_not_lt visited)
        have rest := later (level?_access_of_not_lt found visited)
        simp only [List.filterMap_cons, here, Option.map_none]
        rw [if_neg visited, ← rest, reported]

theorem walk_accessAll (sound : hierarchy.Sound) (requests : List Request) :
    ∀ outcome ∈ (hierarchy.accessAll requests).1, Walk hierarchy.enabledLevels outcome.visits := by
  induction requests generalizing hierarchy with
  | nil => exact List.forall_mem_nil _
  | cons request rest ih =>
      have rest := ih (sound.access request.address request.kind)
      rw [enabledLevels_of_isEnabled (hierarchy.isEnabled_access _ _)] at rest
      rw [accessAll_cons]
      exact List.forall_mem_cons.2 ⟨sound.walk_access request.address request.kind, rest⟩

end Sound

/-- In a run of accesses each enabled level does what its cache does alone on the requests that the
levels above miss, and no outcome leaves a level out. -/
theorem Reachable.composes (reachable : hierarchy.Reachable) (requests : List Request) :
    let performed := hierarchy.accessAll requests
    (∀ level cache, hierarchy.level? level = some cache →
      let stream := hierarchy.incoming level requests
      let alone := cache.accessAll stream
      performed.2.level? level = some alone.2 ∧
        reported level requests performed.1 = stream.zip alone.1) ∧
      ∀ outcome ∈ performed.1, outcome.Descends hierarchy.enabledLevels := by
  intro performed
  have sound := reachable.sound
  refine ⟨?_, fun outcome mem => (sound.walk_accessAll requests outcome mem).descends⟩
  intro level cache found stream alone
  have stream_eq : hierarchy.reaching level requests = stream :=
    sound.reaching_eq_incoming (isEnabled_eq_true_iff.2 ⟨cache, found⟩) requests
  have final := hierarchy.level?_accessAll requests level
  have transactions := sound.reported_accessAll found requests
  rw [found, stream_eq] at final
  rw [stream_eq] at transactions
  exact ⟨final, transactions⟩

theorem composes_two_levels :
    let operations : List Operation :=
      [.enable .l1 { blockBits := 0, lineBits := 0, wayBits := 0 },
        .enable .l2 { blockBits := 0, lineBits := 0, wayBits := 1 },
        .access 0 .read, .access 4 .write]
    let hierarchy := (Hierarchy.run {} operations).2.1
    let requests : List Request := [⟨.read, 4⟩, ⟨.read, 0⟩, ⟨.write, 8⟩]
    hierarchy.Reachable ∧
      let performed := hierarchy.accessAll requests
      performed.1.map (·.servedBy) = [some .l1, some .l2, none] ∧
        (∀ level cache, hierarchy.level? level = some cache →
          let stream := hierarchy.incoming level requests
          let alone := cache.accessAll stream
          performed.2.level? level = some alone.2 ∧
            reported level requests performed.1 = stream.zip alone.1) ∧
          ∀ outcome ∈ performed.1, outcome.Descends hierarchy.enabledLevels := by
  intro operations hierarchy requests
  have reachable : hierarchy.Reachable := Reachable.new.run operations
  exact ⟨reachable, by decide, reachable.composes requests⟩

end Hierarchy

end SetAssoc
