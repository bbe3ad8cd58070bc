import SetAssoc.Proofs.Hierarchy.Sound

/-!
# Walks down the levels

An access walks down the enabled levels: it passes those that miss, and stops at one that hits or
where the levels end. All that an outcome can look like follows from this shape.
-/

namespace SetAssoc

namespace Level

theorem mem_all (level : Level) : level ∈ all := by cases level <;> decide

theorem split_of_child {levels : List Level} {upper lower : Level} (chain : levels <+: all)
    (child : upper.child? = some lower) (mem : lower ∈ levels) :
    ∃ above below, levels = above ++ upper :: lower :: below := by
  simp only [all, List.prefix_cons_iff, List.prefix_nil] at chain
  cases upper with
  | l1 =>
      cases child
      refine ⟨[], levels.drop 2, ?_⟩
      obtain rfl | ⟨_, rfl, rfl | ⟨_, rfl, _⟩⟩ := chain
      · cases mem
      · simp at mem
      · rfl
  | l2 =>
      cases child
      obtain rfl | ⟨_, rfl, rfl | ⟨_, rfl, rfl | ⟨_, rfl, rfl⟩⟩⟩ := chain
      · cases mem
      · simp at mem
      · simp at mem
      · exact ⟨[l1], [], rfl⟩
  | l3 => cases child

end Level

namespace Levels

variable {α : Type} {levels : Levels α} {level : Level} {order : List Level}

theorem chainOf_set (fresh : level ∉ order) (value : Option α) :
    (levels.set level value).chainOf order = levels.chainOf order := by
  induction order with
  | nil => rfl
  | cons first below ih =>
      obtain ⟨distinct, fresh⟩ := not_or.1 (mt List.mem_cons.2 fresh)
      rw [chainOf, chainOf, get?_set, if_neg (Ne.symm distinct), ih fresh]

theorem map_fst_chainOf_prefix (levels : Levels α) (order : List Level) :
    (levels.chainOf order).map Prod.fst <+: order := by
  induction order with
  | nil => exact List.nil_prefix
  | cons level below ih =>
      rw [chainOf]
      cases levels.get? level with
      | none => exact List.nil_prefix
      | some value => exact (List.prefix_cons_inj level).2 ih

theorem chainOf_eq_filterMap (gapless : order.Pairwise fun upper lower =>
      (levels.get? lower).isSome = true → (levels.get? upper).isSome = true) :
    levels.chainOf order = order.filterMap fun level => (levels.get? level).map (level, ·) := by
  induction order with
  | nil => rfl
  | cons first below ih =>
      obtain ⟨above, gapless⟩ := List.pairwise_cons.1 gapless
      rw [chainOf]
      cases found : levels.get? first with
      | some value =>
          rw [List.filterMap_cons_some (b := (first, value)) (by rw [found]; rfl), ih gapless]
      | none =>
          refine (List.filterMap_eq_nil_iff.2 fun level mem => ?_).symm
          rcases List.mem_cons.1 mem with rfl | mem
          · rw [found]
            rfl
          · have missing := mt (above level mem) (by simp [found])
            rw [Option.not_isSome_iff_eq_none.1 missing]
            rfl

end Levels

theorem mem_map_level_iff {visits : List LevelAccess} {level : Level} :
    level ∈ visits.map (·.level) ↔ ∃ t, LevelAccess.mk level t ∈ visits := by
  rw [List.mem_map]
  constructor
  · rintro ⟨visit, mem, rfl⟩
    exact ⟨visit.transaction, mem⟩
  · rintro ⟨transaction, mem⟩
    exact ⟨_, mem, rfl⟩

namespace Hierarchy

inductive Walk : List Level → List LevelAccess → Prop where
  | exhausted : Walk [] []
  | hit {level : Level} {below : List Level} {transaction : Transaction}
      (served : transaction.isHit = true) : Walk (level :: below) [⟨level, transaction⟩]
  | miss {level : Level} {below : List Level} {transaction : Transaction} {rest : List LevelAccess}
      (passed : transaction.isHit = false) (walk : Walk below rest) :
      Walk (level :: below) (⟨level, transaction⟩ :: rest)

/-! ## The shape of a walk -/

namespace Walk

variable {levels above below : List Level} {visits : List LevelAccess} {visit : LevelAccess}
  {level first upper lower : Level} {transaction : Transaction}

theorem levels_prefix (walk : Walk levels visits) : visits.map (·.level) <+: levels := by
  induction walk with
  | exhausted => exact List.nil_prefix
  | hit => exact (List.prefix_cons_inj _).2 List.nil_prefix
  | miss _ _ ih => exact (List.prefix_cons_inj _).2 ih

theorem eq_nil_iff (walk : Walk levels visits) : visits = [] ↔ levels = [] := by
  cases walk <;> simp

theorem missed_of_mem_dropLast (walk : Walk levels visits) :
    ∀ visit ∈ visits.dropLast, visit.transaction.isHit = false := by
  induction walk with
  | exhausted => simp
  | hit => simp
  | @miss level below transaction rest passed walk ih =>
      cases rest with
      | nil => simp
      | cons next rest => exact List.forall_mem_cons.2 ⟨passed, ih⟩

theorem isHit_or_lowest (walk : Walk levels visits) {last : LevelAccess}
    (ends : visits.getLast? = some last) :
    last.transaction.isHit = true ∨ levels.getLast? = some last.level := by
  induction walk with
  | exhausted => cases ends
  | hit served =>
      cases ends
      exact Or.inl served
  | @miss level below transaction rest passed walk ih =>
      cases rest with
      | nil =>
          cases ends
          rw [walk.eq_nil_iff.1 rfl]
          exact Or.inr rfl
      | cons next rest =>
          rw [List.getLast?_cons_cons] at ends
          refine (ih ends).imp_right fun lowest => ?_
          cases below with
          | nil => cases lowest
          | cons _ _ => rwa [List.getLast?_cons_cons]

theorem mem_levels (walk : Walk levels visits) (mem : visit ∈ visits) : visit.level ∈ levels :=
  walk.levels_prefix.subset (List.mem_map_of_mem mem)

/-! ## Who visits -/

theorem visit?_eq_some_iff (walk : Walk levels visits) (nodup : levels.Nodup) :
    Outcome.visit? ⟨visits⟩ level = some transaction ↔ ⟨level, transaction⟩ ∈ visits := by
  induction walk with
  | exhausted => simp [Outcome.visit?]
  | @hit first below held served =>
      by_cases same : first = level
      · simp [Outcome.visit?, same, eq_comm]
      · simp [Outcome.visit?, same, Ne.symm same]
  | @miss first below held rest passed walk ih =>
      obtain ⟨fresh, nodup⟩ := List.nodup_cons.1 nodup
      by_cases same : first = level
      · subst same
        have absent : (⟨first, transaction⟩ : LevelAccess) ∉ rest :=
          fun mem => fresh (walk.mem_levels mem)
        simp [Outcome.visit?, absent, eq_comm]
      · have rest := ih nodup
        simp only [Outcome.visit?] at rest ⊢
        simp [same, Ne.symm same, rest]

theorem any_visit?_iff (walk : Walk levels visits) (nodup : levels.Nodup)
    (accept : Transaction → Bool) : (Outcome.visit? ⟨visits⟩ level).any accept = true ↔
      ∃ t, ⟨level, t⟩ ∈ visits ∧ accept t = true := by
  simp only [Option.any_eq_true, walk.visit?_eq_some_iff nodup]

theorem lt_length_iff (walk : Walk levels visits) (chain : levels <+: Level.all) :
    level.index < visits.length ↔ ∃ t, Outcome.visit? ⟨visits⟩ level = some t := by
  have visited := List.prefix_iff_eq_take.1 (walk.levels_prefix.trans chain)
  rw [List.length_map] at visited
  simp only [walk.visit?_eq_some_iff (Level.nodup_all.sublist chain.sublist)]
  rw [← Level.mem_take_all, ← visited, mem_map_level_iff]

theorem exists_mem_first (walk : Walk (first :: below) visits) :
    ∃ t, LevelAccess.mk first t ∈ visits := by
  cases walk with
  | hit => exact ⟨_, List.mem_cons_self⟩
  | miss => exact ⟨_, List.mem_cons_self⟩

theorem exists_mem_next_iff (walk : Walk (above ++ upper :: lower :: below) visits)
    (nodup : (above ++ upper :: lower :: below).Nodup) :
    (∃ t, LevelAccess.mk lower t ∈ visits) ↔
      ∃ t, LevelAccess.mk upper t ∈ visits ∧ t.isHit = false := by
  induction above generalizing visits with
  | nil =>
      have distinct : lower ≠ upper := by
        rintro rfl
        exact (List.nodup_cons.1 nodup).1 List.mem_cons_self
      cases walk with
      | hit served => simp [distinct, served]
      | miss passed walk =>
          obtain ⟨transaction, mem⟩ := walk.exists_mem_first
          exact iff_of_true ⟨transaction, List.mem_cons_of_mem _ mem⟩ ⟨_, List.mem_cons_self, passed⟩
  | cons first above ih =>
      obtain ⟨fresh, nodup⟩ := List.nodup_cons.1 nodup
      have upper : upper ≠ first := by
        rintro rfl
        simp at fresh
      have lower : lower ≠ first := by
        rintro rfl
        simp at fresh
      cases walk with
      | hit served => simp [upper, lower]
      | miss passed walk => simpa [upper, lower] using ih walk nodup

/-! ## Who serves -/

theorem find?_isHit (walk : Walk levels visits) :
    visits.find? (·.transaction.isHit) = visits.getLast?.filter (·.transaction.isHit) := by
  induction walk with
  | exhausted => rfl
  | hit served => simp [served, Option.filter]
  | @miss level below transaction rest passed walk ih =>
      rw [List.find?_cons_of_neg (by simp [passed]), ih]
      cases rest with
      | nil => simp [passed, Option.filter]
      | cons next rest => rw [List.getLast?_cons_cons]

theorem find?_isHit_eq_some_iff (walk : Walk levels visits) :
    visits.find? (·.transaction.isHit) = some visit ↔
      visit ∈ visits ∧ visit.transaction.isHit = true := by
  induction walk with
  | exhausted => simp
  | hit served =>
      rw [List.find?_cons_of_pos (by simp [served]), Option.some_inj, List.mem_singleton, eq_comm]
      refine (and_iff_left_of_imp ?_).symm
      rintro rfl
      exact served
  | miss passed walk ih =>
      rw [List.find?_cons_of_neg (by simp [passed]), ih, List.mem_cons, or_and_right, or_iff_right]
      rintro ⟨rfl, served⟩
      exact Bool.false_ne_true (passed.symm.trans served)

theorem servedBy_eq_some_iff (walk : Walk levels visits) :
    Outcome.servedBy ⟨visits⟩ = some level ↔ ∃ t, ⟨level, t⟩ ∈ visits ∧ t.isHit = true := by
  rw [Outcome.servedBy, Option.map_eq_some_iff]
  simp only [walk.find?_isHit_eq_some_iff]
  constructor
  · rintro ⟨⟨_, transaction⟩, ⟨mem, served⟩, rfl⟩
    exact ⟨transaction, mem, served⟩
  · rintro ⟨transaction, mem, served⟩
    exact ⟨_, ⟨mem, served⟩, rfl⟩

theorem servedBy_eq_none_iff (walk : Walk levels visits) (nodup : levels.Nodup)
    (lowest : levels.getLast? = some level) :
    Outcome.servedBy ⟨visits⟩ = none ↔ ∃ t, ⟨level, t⟩ ∈ visits ∧ t.isHit = false := by
  induction walk with
  | exhausted => cases lowest
  | hit served => simp [Outcome.servedBy, served]
  | @miss first below transaction rest passed walk ih =>
      obtain ⟨fresh, nodup⟩ := List.nodup_cons.1 nodup
      simp only [Outcome.servedBy] at ih ⊢
      rw [List.find?_cons_of_neg (by simp [passed])]
      cases below with
      | nil =>
          cases lowest
          cases walk
          simp [passed]
      | cons second below =>
          rw [List.getLast?_cons_cons] at lowest
          have distinct : level ≠ first := by
            rintro rfl
            exact fresh (List.mem_of_getLast? lowest)
          rw [ih nodup lowest]
          simp [distinct]

end Walk

/-! ## Accesses are walks -/

def enabledLevels (hierarchy : Hierarchy) : List Level := Level.all.filter hierarchy.isEnabled

variable {hierarchy : Hierarchy} {level : Level} {cache : Cache} {address : UInt32} {kind : AccessKind}

theorem mem_enabledLevels : level ∈ hierarchy.enabledLevels ↔ hierarchy.isEnabled level = true := by
  simp [enabledLevels, level.mem_all]

theorem enabledLevels_of_isEnabled {changed : Hierarchy}
    (same : changed.isEnabled = hierarchy.isEnabled) :
    changed.enabledLevels = hierarchy.enabledLevels := congrArg (Level.all.filter ·) same

theorem nodup_enabledLevels : hierarchy.enabledLevels.Nodup := Level.nodup_all.filter _

theorem walk_visit {order : List Level} (nodup : order.Nodup) (levels : Levels Cache) :
    Walk ((levels.chainOf order).map Prod.fst) (visit address kind levels order).1 := by
  induction order generalizing levels with
  | nil => exact .exhausted
  | cons first below ih =>
      obtain ⟨fresh, nodup⟩ := List.nodup_cons.1 nodup
      rw [Levels.chainOf]
      cases found : levels.get? first with
      | none =>
          rw [visit_of_none below found]
          exact .exhausted
      | some cache =>
          cases hit : (cache.access address kind).1.isHit with
          | true =>
              rw [visit_of_hit below found hit]
              exact .hit hit
          | false =>
              have rest := ih nodup (levels.set first (some (cache.access address kind).2))
              rw [Levels.chainOf_set fresh] at rest
              rw [visit_of_miss below found hit]
              exact .miss hit rest

namespace Sound

theorem enabled_eq (sound : hierarchy.Sound) :
    hierarchy.enabled = Level.all.filterMap fun level => (hierarchy.level? level).map (level, ·) := by
  refine Levels.chainOf_eq_filterMap ?_
  have second := sound.gapless .l2 .l1 rfl
  have third := sound.gapless .l3 .l2 rfl
  simp only [isEnabled, level?] at second third
  simpa [Level.all] using ⟨⟨second, fun enabled => second (third enabled)⟩, third⟩

theorem map_fst_enabled (sound : hierarchy.Sound) :
    hierarchy.enabled.map Prod.fst = hierarchy.enabledLevels := by
  rw [sound.enabled_eq, List.map_filterMap, enabledLevels, ← List.filterMap_eq_filter]
  congr 1
  funext level
  change Option.map Prod.fst _ = Option.guard (fun level => (hierarchy.level? level).isSome) level
  cases found : hierarchy.level? level <;> simp [found, Option.guard]

theorem mem_enabled_iff (sound : hierarchy.Sound) :
    (level, cache) ∈ hierarchy.enabled ↔ hierarchy.level? level = some cache := by
  simp [sound.enabled_eq, level.mem_all]

theorem enabledLevels_prefix (sound : hierarchy.Sound) : hierarchy.enabledLevels <+: Level.all := by
  rw [← sound.map_fst_enabled]
  exact Levels.map_fst_chainOf_prefix _ _

theorem walk_access (sound : hierarchy.Sound) (address : UInt32) (kind : AccessKind) :
    Walk hierarchy.enabledLevels (hierarchy.access address kind).1.visits := by
  rw [← sound.map_fst_enabled]
  exact walk_visit Level.nodup_all hierarchy.levels

theorem find?_enabled (sound : hierarchy.Sound) :
    hierarchy.enabled.find? (·.1 = level) = (hierarchy.level? level).map (level, ·) := by
  cases first : hierarchy.enabled.find? (·.1 = level) with
  | none =>
      have absent := List.find?_eq_none.1 first
      cases found : hierarchy.level? level with
      | none => rfl
      | some cache => exact absurd (decide_eq_true rfl) (absent _ (sound.mem_enabled_iff.2 found))
  | some entry =>
      obtain ⟨other, cache⟩ := entry
      have same : other = level := by simpa using List.find?_some first
      subst same
      rw [sound.mem_enabled_iff.1 (List.mem_of_find?_eq_some first)]
      rfl

end Sound

end Hierarchy

end SetAssoc
