import SetAssoc.Proofs.Hierarchy.Survivors
import SetAssoc.Replay
import SetAssoc.Statistics

/-!
# The figures of a hierarchy balance

What the levels count agrees with the outcomes of the surviving accesses, and with what a replay
counts along the way, although neither of them looks at the counters.
-/

namespace SetAssoc

def Outcome.missedAt (outcome : Outcome) (level : Level) : Option AccessKind :=
  (outcome.visit? level).bind fun transaction =>
    if transaction.isHit then none else some transaction.kind

structure Statistics.Balances (statistics : Statistics) (config : HierarchyConfig)
    (outcomes : List Outcome) : Prop where
  isSome_level? : ∀ level, (statistics.level? level).isSome = (config.get? level).isSome
  first : ∃ figures, statistics.level? .l1 = some figures ∧ figures.accesses = outcomes.length
  next : ∀ upper lower, upper.child? = some lower →
    ∀ above below, statistics.level? upper = some above → statistics.level? lower = some below →
      below.accesses = above.misses ∧
        below.reads = outcomes.countP (·.missedAt upper = some .read) ∧
          below.writes = outcomes.countP (·.missedAt upper = some .write)
  sums : ∀ level figures, statistics.level? level = some figures →
    figures.accesses = figures.hits + figures.misses ∧
      figures.accesses = figures.reads + figures.writes
  hits_eq : ∀ level figures, statistics.level? level = some figures →
    figures.hits = outcomes.countP (·.servedBy = some level)
  memoryAccesses_eq : statistics.memoryAccesses = outcomes.countP (·.servedBy = none)

namespace ReplaySummary

structure Counts (summary : ReplaySummary) (outcomes : List Outcome) : Prop where
  accesses_eq : summary.accesses = outcomes.length
  servedBy_eq : ∀ level, summary.servedBy level = outcomes.countP (·.servedBy = some level)
  memory_eq : summary.memory = outcomes.countP (·.servedBy = none)
  total : summary.accesses = summary.l1 + summary.l2 + summary.l3 + summary.memory

structure Matches (summary : ReplaySummary) (statistics : Statistics) (requests : List Request) :
    Prop where
  accesses_eq : summary.accesses = requests.length
  servedBy_eq : ∀ level, summary.servedBy level = ((statistics.level? level).map (·.hits)).getD 0
  memory_eq : summary.memory = statistics.memoryAccesses
  total : summary.accesses = summary.l1 + summary.l2 + summary.l3 + summary.memory

variable (summary : ReplaySummary) (served : Option Level)

theorem accesses_record : (summary.record served).accesses = summary.accesses + 1 := by
  rcases served with _ | _ | _ | _ <;> rfl

theorem servedBy_record (level : Level) : (summary.record served).servedBy level =
    summary.servedBy level + if served = some level then 1 else 0 := by
  rcases served with _ | _ | _ | _ <;> cases level <;> rfl

theorem memory_record :
    (summary.record served).memory = summary.memory + if served = none then 1 else 0 := by
  rcases served with _ | _ | _ | _ <;> rfl

variable {summary} in
theorem Counts.record {outcomes : List Outcome} (counts : summary.Counts outcomes)
    (outcome : Outcome) : (summary.record outcome.servedBy).Counts (outcome :: outcomes) where
  accesses_eq := by rw [accesses_record, counts.accesses_eq, List.length_cons]
  servedBy_eq level := by
    rw [servedBy_record, counts.servedBy_eq, List.countP_cons]
    simp only [decide_eq_true_iff]
  memory_eq := by
    rw [memory_record, counts.memory_eq, List.countP_cons]
    simp only [decide_eq_true_iff]
  total := by
    have total := counts.total
    rcases outcome.servedBy with _ | _ | _ | _ <;> simp only [ReplaySummary.record] <;> omega

end ReplaySummary

namespace Hierarchy

variable {hierarchy : Hierarchy} {outcome : Outcome} {outcomes : List Outcome}
  {level upper lower : Level} {cache : Cache} {levels : List Level}

theorem counts_replay (hierarchy : Hierarchy) (requests : List Request) :
    (hierarchy.replay requests).1.Counts (hierarchy.accessAll requests).1.reverse ∧
      (hierarchy.replay requests).2 = (hierarchy.accessAll requests).2 := by
  have start : ReplaySummary.Counts {} [] :=
    ⟨rfl, fun level => by cases level <;> rfl, rfl, rfl⟩
  rw [replay, ← List.append_nil (hierarchy.accessAll requests).1.reverse]
  generalize ({} : ReplaySummary) = summary at start ⊢
  generalize ([] : List Outcome) = outcomes at start ⊢
  induction requests generalizing hierarchy summary outcomes with
  | nil => exact ⟨start, rfl⟩
  | cons request rest ih =>
      rw [accessAll_cons, List.reverse_cons, List.append_assoc, List.singleton_append]
      exact ih _ _ _ (start.record _)

/-! ## Counting the transactions of a level -/

theorem countP_transactionsAt (accept : Transaction → Bool) :
    (transactionsAt level outcomes).countP accept =
      outcomes.countP fun outcome => (outcome.visit? level).any accept := by
  rw [transactionsAt, List.countP_filterMap]
  refine List.countP_congr fun outcome _ => ?_
  cases outcome.visit? level <;> rfl

theorem countP_missedAt : (outcomes.countP fun outcome => (outcome.missedAt level).any fun _ => true) =
    (transactionsAt level outcomes).countP (!·.isHit) := by
  rw [countP_transactionsAt]
  refine List.countP_congr fun outcome _ => ?_
  rw [Outcome.missedAt]
  rcases outcome.visit? level with _ | transaction
  · rfl
  · cases hit : transaction.isHit <;> simp [hit]

namespace Walk

theorem visit?_next (walk : Walk levels outcome.visits) (chain : levels <+: Level.all)
    (kind : ∃ kind, ∀ visit ∈ outcome.visits, visit.transaction.kind = kind)
    (child : upper.child? = some lower) (enabled : lower ∈ levels) :
    (outcome.visit? lower).map (·.kind) = outcome.missedAt upper := by
  obtain ⟨kind, same⟩ := kind
  have nodup : levels.Nodup := Level.nodup_all.sublist chain.sublist
  have visited {level : Level} {transaction : Transaction} :
      outcome.visit? level = some transaction ↔ ⟨level, transaction⟩ ∈ outcome.visits :=
    walk.visit?_eq_some_iff nodup
  obtain ⟨above, below, rfl⟩ := Level.split_of_child chain child enabled
  have next := walk.exists_mem_next_iff nodup
  simp only [← visited] at next
  rw [Outcome.missedAt]
  cases there : outcome.visit? lower with
  | some transaction =>
      obtain ⟨passed, seen, miss⟩ := next.1 ⟨transaction, there⟩
      have kinds : transaction.kind = passed.kind :=
        (same _ (visited.1 there)).trans (same _ (visited.1 seen)).symm
      rw [seen, Option.map_some, Option.bind_some, if_neg (ne_true_of_eq_false miss), kinds]
  | none =>
      rw [there] at next
      cases seen : outcome.visit? upper with
      | none => rfl
      | some passed =>
          cases hit : passed.isHit with
          | true => simp [hit]
          | false => simpa using next.2 ⟨passed, seen, hit⟩

end Walk

namespace Sound

theorem level?_statistics (sound : hierarchy.Sound) :
    hierarchy.statistics.level? level = (hierarchy.level? level).map (·.statistics) := by
  rw [Hierarchy.statistics, Statistics.level?, List.find?_map]
  change Option.map _ (Option.map _ (hierarchy.enabled.find? (·.1 = level))) = _
  rw [sound.find?_enabled, Option.map_map, Option.map_map]
  rfl

end Sound

namespace Accounted

variable {config : HierarchyConfig}

/-! ## Figures -/

theorem latest_counters (accounted : hierarchy.Accounted outcomes)
    (found : hierarchy.level? level = some cache) :
    cache.counters.latest = Counters.ofLog (transactionsAt level outcomes) := by
  rw [(accounted.told level cache found).counters_eq, CounterLog.latest_ofLog]

theorem accesses_first (accounted : hierarchy.Accounted outcomes) :
    (transactionsAt .l1 outcomes).length = outcomes.length := by
  rw [← List.countP_true, countP_transactionsAt, List.countP_eq_length]
  intro outcome mem
  have walk := accounted.walk outcome mem
  have top : hierarchy.enabledLevels = .l1 :: [.l2, .l3].filter hierarchy.isEnabled :=
    List.filter_cons_of_pos accounted.first
  obtain ⟨transaction, visit⟩ := (top ▸ walk).exists_mem_first
  rw [(walk.visit?_eq_some_iff nodup_enabledLevels).2 visit, Option.any_some]

theorem countP_next (accounted : hierarchy.Accounted outcomes) (child : upper.child? = some lower)
    (enabled : hierarchy.isEnabled lower = true) (accept : AccessKind → Bool) :
    (transactionsAt lower outcomes).countP (fun transaction => accept transaction.kind) =
      outcomes.countP fun outcome => (outcome.missedAt upper).any accept := by
  refine (countP_transactionsAt _).trans (List.countP_congr fun outcome mem => ?_)
  have next := (accounted.walk outcome mem).visit?_next accounted.reachable.sound.enabledLevels_prefix
    (accounted.kind outcome mem) child (mem_enabledLevels.2 enabled)
  rw [← next, Option.any_map]

theorem hits_eq (accounted : hierarchy.Accounted outcomes) :
    (transactionsAt level outcomes).countP (·.isHit) = outcomes.countP (·.servedBy = some level) := by
  refine (countP_transactionsAt _).trans (List.countP_congr fun outcome mem => ?_)
  have walk := accounted.walk outcome mem
  rw [decide_eq_true_iff, walk.servedBy_eq_some_iff]
  exact walk.any_visit?_iff nodup_enabledLevels _

theorem misses_lowest (accounted : hierarchy.Accounted outcomes)
    (lowest : hierarchy.enabledLevels.getLast? = some level) :
    (transactionsAt level outcomes).countP (!·.isHit) = outcomes.countP (·.servedBy = none) := by
  refine (countP_transactionsAt _).trans (List.countP_congr fun outcome mem => ?_)
  have walk := accounted.walk outcome mem
  rw [decide_eq_true_iff, walk.servedBy_eq_none_iff nodup_enabledLevels lowest]
  simpa only [Bool.not_eq_true'] using walk.any_visit?_iff nodup_enabledLevels (!·.isHit)

theorem memoryAccesses_eq (accounted : hierarchy.Accounted outcomes) :
    hierarchy.statistics.memoryAccesses = outcomes.countP (·.servedBy = none) := by
  have sound := accounted.reachable.sound
  cases last : hierarchy.enabled.getLast? with
  | none =>
      have first := mem_enabledLevels.2 accounted.first
      rw [← sound.map_fst_enabled, List.getLast?_eq_none_iff.1 last] at first
      cases first
  | some entry =>
      obtain ⟨level, cache⟩ := entry
      have lowest : hierarchy.enabledLevels.getLast? = some level := by
        rw [← sound.map_fst_enabled, List.getLast?_map, last]
        rfl
      have found := sound.mem_enabled_iff.1 (List.mem_of_getLast? last)
      have misses : hierarchy.statistics.memoryAccesses = cache.counters.latest.misses := by
        rw [Hierarchy.statistics, Statistics.memoryAccesses, List.getLast?_map, last]
        rfl
      rw [misses, accounted.latest_counters found]
      exact accounted.misses_lowest lowest

theorem exists_of_shown (accounted : hierarchy.Accounted outcomes) {figures : CacheStatistics}
    (shown : hierarchy.statistics.level? level = some figures) :
    ∃ cache, hierarchy.level? level = some cache ∧ cache.statistics = figures ∧
      cache.counters.latest = Counters.ofLog (transactionsAt level outcomes) := by
  rw [accounted.reachable.sound.level?_statistics, Option.map_eq_some_iff] at shown
  obtain ⟨cache, found, same⟩ := shown
  exact ⟨cache, found, same, accounted.latest_counters found⟩

theorem balances (accounted : hierarchy.Accounted outcomes)
    (configured : ∀ level, hierarchy.isEnabled level = (config.get? level).isSome) :
    hierarchy.statistics.Balances config outcomes where
  isSome_level? level := by
    rw [accounted.reachable.sound.level?_statistics, Option.isSome_map]
    exact configured level
  first := by
    obtain ⟨cache, found⟩ := isEnabled_eq_true_iff.1 accounted.first
    refine ⟨cache.statistics, by rw [accounted.reachable.sound.level?_statistics, found]; rfl, ?_⟩
    change cache.counters.latest.accesses = _
    rw [accounted.latest_counters found, Counters.accesses_ofLog, accounted.accesses_first]
  next upper lower child above below shownAbove shownBelow := by
    obtain ⟨upperCache, -, rfl, countersAbove⟩ := accounted.exists_of_shown shownAbove
    obtain ⟨lowerCache, found, rfl, countersBelow⟩ := accounted.exists_of_shown shownBelow
    have next := accounted.countP_next child (isEnabled_eq_true_iff.2 ⟨lowerCache, found⟩)
    change lowerCache.counters.latest.accesses = upperCache.counters.latest.misses ∧
      lowerCache.counters.latest.reads = _ ∧ lowerCache.counters.latest.writes = _
    rw [countersAbove, countersBelow, Counters.accesses_ofLog]
    refine ⟨?_, ?_, ?_⟩
    · rw [← List.countP_true, next fun _ => true]
      exact countP_missedAt
    · refine (next (!·.isWrite)).trans (List.countP_congr fun outcome _ => ?_)
      rcases outcome.missedAt upper with _ | _ | _ <;> decide
    · refine (next (·.isWrite)).trans (List.countP_congr fun outcome _ => ?_)
      rcases outcome.missedAt upper with _ | _ | _ <;> decide
  sums level figures shown := by
    obtain ⟨cache, -, rfl, counters⟩ := accounted.exists_of_shown shown
    refine ⟨rfl, ?_⟩
    change cache.counters.latest.accesses = cache.counters.latest.reads + cache.counters.latest.writes
    rw [counters, Counters.accesses_ofLog, Counters.reads_add_writes_ofLog]
  hits_eq level figures shown := by
    obtain ⟨cache, -, rfl, counters⟩ := accounted.exists_of_shown shown
    change cache.counters.latest.hits = _
    rw [counters]
    exact accounted.hits_eq
  memoryAccesses_eq := accounted.memoryAccesses_eq

theorem matches_of_counts (accounted : hierarchy.Accounted outcomes) {summary : ReplaySummary}
    (counts : summary.Counts outcomes) {requests : List Request}
    (length : outcomes.length = requests.length) : summary.Matches hierarchy.statistics requests where
  accesses_eq := counts.accesses_eq.trans length
  servedBy_eq level := by
    rw [counts.servedBy_eq, accounted.reachable.sound.level?_statistics, Option.map_map]
    cases found : hierarchy.level? level with
    | some cache =>
        change _ = cache.counters.latest.hits
        rw [accounted.latest_counters found]
        exact accounted.hits_eq.symm
    | none =>
        refine List.countP_eq_zero.2 fun outcome mem served => ?_
        have walk := accounted.walk outcome mem
        obtain ⟨transaction, visit, -⟩ := walk.servedBy_eq_some_iff.1 (of_decide_eq_true served)
        have enabled := mem_enabledLevels.1 (walk.mem_levels visit)
        rw [isEnabled, found] at enabled
        cases enabled
  memory_eq := counts.memory_eq.trans accounted.memoryAccesses_eq.symm
  total := counts.total

end Accounted

theorem isEnabled_perform {operation : Operation} (keeps : operation.keepsLevels = true) :
    (hierarchy.perform operation).2.isEnabled = hierarchy.isEnabled := by
  cases operation with
  | access address kind => exact hierarchy.isEnabled_access address kind
  | undo => exact isEnabled_undo
  | setUndoDepth depth => exact isEnabled_of_levels (hierarchy.level?_setUndoDepth depth)
  | reset => exact isEnabled_of_levels hierarchy.level?_reset
  | subscribe level observer =>
      rw [perform_subscribe]
      refine settle_induction (motive := (·.isEnabled = hierarchy.isEnabled)) rfl ?_ _
      intro changed accepted
      obtain ⟨-, rfl⟩ := subscribe_eq_ok_iff.1 accepted
      exact isEnabled_of_levels (hierarchy.level?_update level · (·.subscribe observer))
  | enable | disable | teardown | configure => cases keeps

theorem isEnabled_run {operations : List Operation}
    (keeps : ∀ operation ∈ operations, operation.keepsLevels = true) :
    (hierarchy.run operations).2.1.isEnabled = hierarchy.isEnabled := by
  induction operations generalizing hierarchy with
  | nil => rfl
  | cons operation rest ih =>
      obtain ⟨first, keeps⟩ := List.forall_mem_cons.1 keeps
      exact (ih keeps).trans (isEnabled_perform first)

theorem Sound.replay_of_nil (sound : hierarchy.Sound) (none : hierarchy.enabledLevels = [])
    (requests : List Request) :
    (hierarchy.replay requests).1 = { accesses := requests.length, memory := requests.length } ∧
      (hierarchy.replay requests).2.statistics.memoryAccesses = 0 := by
  obtain ⟨counts, final⟩ := hierarchy.counts_replay requests
  have served : ∀ outcome ∈ (hierarchy.accessAll requests).1.reverse, outcome.servedBy = Option.none := by
    intro outcome mem
    have walk := sound.walk_accessAll requests outcome (List.mem_reverse.1 mem)
    rw [Outcome.servedBy, walk.eq_nil_iff.2 none]
    rfl
  have length : (hierarchy.accessAll requests).1.reverse.length = requests.length := by
    rw [List.length_reverse, length_accessAll]
  constructor
  · have nowhere (level : Level) : (hierarchy.replay requests).1.servedBy level = 0 := by
      rw [counts.servedBy_eq, List.countP_eq_zero]
      intro outcome mem
      simp [served outcome mem]
    have memory : (hierarchy.replay requests).1.memory = requests.length := by
      rw [counts.memory_eq, ← length, List.countP_eq_length]
      exact fun outcome mem => decide_eq_true (served outcome mem)
    rw [ReplaySummary.mk.injEq]
    exact ⟨counts.accesses_eq.trans length, nowhere .l1, nowhere .l2, nowhere .l3, memory⟩
  · have levels := (sound.accessAll requests).map_fst_enabled
    rw [enabledLevels_of_isEnabled (hierarchy.isEnabled_accessAll requests), none] at levels
    rw [final, Hierarchy.statistics, List.map_eq_nil_iff.1 levels]
    rfl

/-- The figures of a hierarchy with some level balance, and those after a replay agree with what the
replay counts. Without a level every request goes to memory, and nothing counts it there. -/
theorem statistics_balance {config : HierarchyConfig} (built : ofConfig config = .ok hierarchy) :
    ((∃ level, (config.get? level).isSome = true) →
      (∀ operations : List Operation, (∀ operation ∈ operations, operation.keepsLevels = true) →
        let ran := hierarchy.run operations
        ran.2.1.statistics.Balances config (survivorsOf ran.1)) ∧
      ∀ requests : List Request,
        let replayed := hierarchy.replay requests
        replayed.1.Matches replayed.2.statistics requests) ∧
    ((∀ level, config.get? level = none) → ∀ requests : List Request,
      let replayed := hierarchy.replay requests
      replayed.1 = { accesses := requests.length, memory := requests.length } ∧
        replayed.2.statistics.memoryAccesses = 0) := by
  have configured (level : Level) : hierarchy.isEnabled level = (config.get? level).isSome := by
    rw [isEnabled, (fresh_ofConfig built).level?_eq, if_neg List.not_mem_nil, Option.isSome_map]
  refine ⟨?_, ?_⟩
  · rintro ⟨level, some⟩
    have accounted := accounted_ofConfig built some
    refine ⟨fun operations keeps => (accounted.run keeps).balances ?_, fun requests => ?_⟩
    · rw [isEnabled_run keeps]
      exact configured
    · obtain ⟨counts, final⟩ := hierarchy.counts_replay requests
      have after := accounted.accessAll requests
      rw [List.append_nil, ← final] at after
      refine after.matches_of_counts counts ?_
      rw [List.length_reverse, length_accessAll]
  · intro absent requests
    refine (reachable_ofConfig built).sound.replay_of_nil ?_ requests
    refine List.filter_eq_nil_iff.2 fun level _ => ?_
    rw [configured, absent]
    exact Bool.false_ne_true

/-- Two levels: an access that misses at both, one that is taken back, and hits at either level. -/
theorem statistics_balance_two_levels :
    let config : HierarchyConfig :=
      { l1 := some { blockBits := 0, lineBits := 0, wayBits := 0 }
        l2 := some { blockBits := 0, lineBits := 0, wayBits := 1 } }
    let operations : List Operation :=
      [.access 0 .read, .access 4 .write, .access 4 .read, .setUndoDepth 2, .undo, .access 0 .read]
    let requests : List Request := [⟨.read, 0⟩, ⟨.write, 4⟩, ⟨.read, 0⟩, ⟨.read, 0⟩]
    ∃ hierarchy, ofConfig config = .ok hierarchy ∧ (config.get? .l2).isSome = true ∧
      (∀ operation ∈ operations, operation.keepsLevels = true) ∧
        let ran := hierarchy.run operations
        (survivorsOf ran.1).map (·.servedBy) = [some .l2, none, none] ∧
          ran.2.1.statistics.Balances config (survivorsOf ran.1) ∧
            let replayed := hierarchy.replay requests
            replayed.1 = { accesses := 4, l1 := 1, l2 := 1, memory := 2 } ∧
              replayed.1.Matches replayed.2.statistics requests := by
  intro config operations requests
  have configured : (config.get? .l2).isSome = true := rfl
  have keeps : ∀ operation ∈ operations, operation.keepsLevels = true := by decide
  refine ⟨_, rfl, configured, keeps, ?_⟩
  obtain ⟨balances, replays⟩ := (statistics_balance rfl).1 ⟨.l2, configured⟩
  exact ⟨by decide, balances operations keeps, by decide, replays requests⟩

end Hierarchy

end SetAssoc
