import SetAssoc.Proofs.Document
import SetAssoc.Proofs.Hierarchy.Atomicity

/-!
# Hierarchies built from configurations

The first level at which something is wrong decides the error: a gap above it, or else its
configuration. Reading a document checks all its configurations before any level is enabled, so
there an invalid configuration comes before any gap.
-/

namespace SetAssoc

namespace Level

theorem parent_not_mem {level parent : Level} {below : List Level}
    (suffix : level :: below <:+ all) (above : level.parent? = some parent) :
    parent ∉ level :: below := by
  have order : all.Pairwise (·.index < ·.index) := by decide
  have sorted := List.pairwise_cons.1 (order.sublist suffix.sublist)
  have before := index_lt_of_parent above
  intro mem
  rcases List.mem_cons.1 mem with rfl | mem
  · omega
  · have after := sorted.1 parent mem
    omega

end Level

namespace HierarchyConfig

variable {config : HierarchyConfig} {level : Level} {error : HierarchyError}

/-- What is wrong with a level: there is none above it, or its own configuration is invalid. -/
inductive Fault (config : HierarchyConfig) (level : Level) : HierarchyError → Prop
  | gap {own : Config} {parent : Level} (present : config.get? level = some own)
      (above : level.parent? = some parent) (missing : config.get? parent = none) :
      Fault config level (.parentDisabled level parent)
  | invalid {own : Config} {error : ConfigError} (present : config.get? level = some own)
      (attached : ∀ parent, level.parent? = some parent → (config.get? parent).isSome = true)
      (invalid : own.validate = .error error) : Fault config level (.config error)

theorem not_fault_iff : (∀ error, ¬ Fault config level error) ↔
    ∀ own, config.get? level = some own → own.validate = .ok () ∧
      ∀ parent, level.parent? = some parent → (config.get? parent).isSome = true := by
  constructor
  · intro sound own present
    have attached : ∀ parent, level.parent? = some parent → (config.get? parent).isSome = true := by
      intro parent above
      rw [Option.isSome_iff_ne_none]
      exact fun missing => sound _ (.gap present above missing)
    refine ⟨?_, attached⟩
    cases validate : own.validate with
    | ok => rfl
    | error error => exact absurd (.invalid present attached validate) (sound _)
  · rintro sound _ (⟨present, above, missing⟩ | ⟨present, -, invalid⟩)
    · have attached := (sound _ present).2 _ above
      simp [missing] at attached
    · have valid := (sound _ present).1
      simp [invalid] at valid

theorem exists_first_fault (faulty : ∃ level error, Fault config level error) :
    ∃ above level below error, Level.all = above ++ level :: below ∧
      (∀ other ∈ above, ∀ error, ¬ Fault config other error) ∧ Fault config level error := by
  classical
  obtain ⟨level, error, fault⟩ := faulty
  cases first : Level.all.find? fun level => decide (∃ error, Fault config level error) with
  | none =>
      have sound := List.find?_eq_none.1 first level level.mem_all
      exact absurd (decide_eq_true ⟨error, fault⟩) sound
  | some level =>
      obtain ⟨fault, above, below, split, sound⟩ := List.find?_eq_some_iff_append.1 first
      obtain ⟨error, fault⟩ := of_decide_eq_true fault
      have sound : ∀ other ∈ above, ∀ error, ¬ Fault config other error := by simpa using sound
      exact ⟨above, level, below, error, split, sound, fault⟩

theorem forM_validate_eq_ok_iff {levels : List Config} :
    forM levels Config.validate = .ok () ↔ ∀ own ∈ levels, own.validate = .ok () := by
  refine ⟨fun valid => ?_, forM_validate⟩
  induction levels with
  | nil => nofun
  | cons own rest ih =>
      rw [List.forM_cons] at valid
      cases validate : own.validate with
      | ok =>
          rw [validate] at valid
          exact List.forall_mem_cons.2 ⟨validate, ih valid⟩
      | error error => simp [validate, bind, Except.bind] at valid

theorem mem_present_iff {own : Config} :
    own ∈ config.present ↔ ∃ level, config.get? level = some own := by
  simp [present, Level.mem_all]

section

variable {text : String}

theorem ofJson_eq_map (given : (Json.Value.parse? text).bind ofValue? = some config) :
    ofJson text = config.validate.map fun _ => config := by
  simp [ofJson, given]

theorem ofJson_eq_ok_iff : ofJson text = .ok config ↔
    (Json.Value.parse? text).bind ofValue? = some config ∧
      ∀ own ∈ config.present, own.validate = .ok () := by
  constructor
  · intro decoded
    unfold ofJson at decoded
    split at decoded
    case h_1 read given =>
      cases valid : read.validate with
      | ok =>
          rw [valid] at decoded
          cases decoded
          rw [validate_eq_forM, forM_validate_eq_ok_iff] at valid
          exact ⟨given, valid⟩
      | error => simp [valid, Except.map] at decoded
    case h_2 => cases decoded
  · rintro ⟨given, valid⟩
    rw [ofJson_eq_map given, validate_eq_forM, forM_validate valid]
    rfl

theorem ofJson_of_first_invalid (given : (Json.Value.parse? text).bind ofValue? = some config)
    {above below : List Config} {own : Config} {error : ConfigError}
    (split : config.present = above ++ own :: below) (valid : ∀ own ∈ above, own.validate = .ok ())
    (invalid : own.validate = .error error) : ofJson text = .error error := by
  rw [ofJson_eq_map given, validate_of_first_invalid split valid invalid]
  rfl

end

end HierarchyConfig

open HierarchyConfig (Fault)

namespace Hierarchy

variable {config : HierarchyConfig} {hierarchy : Hierarchy} {level : Level} {below : List Level}
  {error : HierarchyError}

def enableGiven (config : HierarchyConfig) (hierarchy : Hierarchy) (level : Level) :
    Except HierarchyError Hierarchy :=
  match config.get? level with
  | some config => hierarchy.enable level config
  | none => .ok hierarchy

theorem ofConfig_eq_foldlM : ofConfig config = Level.all.foldlM (enableGiven config) {} := rfl

namespace Fresh

variable (fresh : Fresh config (level :: below) hierarchy) (suffix : level :: below <:+ Level.all)
include fresh suffix

theorem isEnabled_parent {parent : Level} (above : level.parent? = some parent) :
    hierarchy.isEnabled parent = (config.get? parent).isSome := by
  -- the level above comes earlier, so it is no longer among those still to be enabled
  rw [isEnabled, fresh.level?_eq, if_neg (Level.parent_not_mem suffix above), Option.isSome_map]

theorem enableGiven_of_fault (fault : Fault config level error) :
    enableGiven config hierarchy level = .error error := by
  cases fault with
  | @gap _ parent present above missing =>
      have disabled : hierarchy.isEnabled parent = false := by
        rw [fresh.isEnabled_parent suffix above, missing]
        rfl
      rw [enableGiven, present]
      exact enable_of_missing (missingParent?_eq_some_iff.2 ⟨above, disabled⟩)
  | invalid present attached invalid =>
      have suits : hierarchy.missingParent? level = none :=
        missingParent?_eq_none_iff.2 fun parent above =>
          (fresh.isEnabled_parent suffix above).trans (attached parent above)
      rw [enableGiven, present]
      exact enable_of_invalid suits invalid

theorem enableGiven_of_sound (sound : ∀ error, ¬ Fault config level error) :
    ∃ changed, enableGiven config hierarchy level = .ok changed ∧ Fresh config below changed := by
  cases present : config.get? level with
  | none => exact ⟨hierarchy, by rw [enableGiven, present], fresh.skip present⟩
  | some own =>
      obtain ⟨valid, attached⟩ := HierarchyConfig.not_fault_iff.1 sound own present
      have suits : ∀ parent, level.parent? = some parent → hierarchy.isEnabled parent = true :=
        fun parent above => (fresh.isEnabled_parent suffix above).trans (attached parent above)
      obtain ⟨changed, accepted⟩ := exists_ok_enable_iff.2 ⟨suits, valid⟩
      exact ⟨changed, by simp [enableGiven, present, accepted], fresh.enable present accepted⟩

end Fresh

theorem Fresh.foldlM_of_sound {above : List Level} (fresh : Fresh config (above ++ below) hierarchy)
    (suffix : above ++ below <:+ Level.all)
    (sound : ∀ level ∈ above, ∀ error, ¬ Fault config level error) :
    ∃ changed, above.foldlM (enableGiven config) hierarchy = .ok changed ∧
      Fresh config below changed := by
  induction above generalizing hierarchy with
  | nil => exact ⟨hierarchy, rfl, fresh⟩
  | cons level rest ih =>
      rw [List.forall_mem_cons] at sound
      obtain ⟨next, enabled, fresh⟩ := fresh.enableGiven_of_sound suffix sound.1
      rw [List.foldlM_cons, enabled]
      exact ih fresh ((List.suffix_cons level (rest ++ below)).trans suffix) sound.2

theorem fresh_new : Fresh config Level.all {} :=
  ⟨Level.nodup_all, rfl, rfl, fun level => by cases level <;> rfl⟩

theorem ofConfig_of_first_fault {above : List Level} (split : Level.all = above ++ level :: below)
    (sound : ∀ other ∈ above, ∀ error, ¬ Fault config other error)
    (fault : Fault config level error) : ofConfig config = .error error := by
  have fresh : Fresh config (above ++ level :: below) {} := split ▸ fresh_new
  have suffix : above ++ level :: below <:+ Level.all := split ▸ List.suffix_refl _
  obtain ⟨changed, enabled, fresh⟩ := fresh.foldlM_of_sound suffix sound
  have refused := fresh.enableGiven_of_fault ((List.suffix_append _ _).trans suffix) fault
  rw [ofConfig_eq_foldlM, split, List.foldlM_append, enabled]
  simp [refused, bind, Except.bind]

theorem exists_ok_ofConfig_iff : (∃ hierarchy, ofConfig config = .ok hierarchy) ↔
    ∀ level error, ¬ Fault config level error := by
  constructor
  · rintro ⟨hierarchy, built⟩ level error fault
    obtain ⟨_, _, _, _, split, sound, fault⟩ :=
      HierarchyConfig.exists_first_fault ⟨level, error, fault⟩
    rw [ofConfig_of_first_fault split sound fault] at built
    cases built
  · intro sound
    have fresh : Fresh config (Level.all ++ []) {} := fresh_new
    obtain ⟨hierarchy, built, -⟩ :=
      fresh.foldlM_of_sound (List.suffix_refl _) fun level _ => sound level
    exact ⟨hierarchy, built⟩

theorem ofConfig_eq_error_iff : ofConfig config = .error error ↔
    ∃ above level below, Level.all = above ++ level :: below ∧
      (∀ other ∈ above, ∀ error, ¬ Fault config other error) ∧ Fault config level error := by
  constructor
  · intro refused
    -- without a fault the hierarchy would be built
    have faulty : ∃ level error, Fault config level error := by
      by_contra sound
      obtain ⟨hierarchy, built⟩ := exists_ok_ofConfig_iff.2 (by simpa using sound)
      rw [built] at refused
      cases refused
    obtain ⟨above, level, below, found, split, sound, fault⟩ :=
      HierarchyConfig.exists_first_fault faulty
    have same := ofConfig_of_first_fault split sound fault
    rw [refused] at same
    cases same
    exact ⟨above, level, below, split, sound, fault⟩
  · rintro ⟨above, level, below, split, sound, fault⟩
    exact ofConfig_of_first_fault split sound fault

def ofJson (text : String) : Except HierarchyError Hierarchy := do
  let config ← (HierarchyConfig.ofJson text).mapError .config
  ofConfig config

structure Built (hierarchy : Hierarchy) (config : HierarchyConfig) : Prop where
  absent : ∀ level, config.get? level = none → hierarchy.level? level = none
  present : ∀ level own, config.get? level = some own → ∃ cache, Cache.new own = .ok cache ∧
    cache.undoDepth = defaultUndoDepth ∧ hierarchy.level? level = some cache
  undoDepth_eq : hierarchy.undoDepth = defaultUndoDepth
  history_eq : hierarchy.history = []

theorem built_ofConfig (accepted : ofConfig config = .ok hierarchy) : hierarchy.Built config := by
  have fresh := fresh_ofConfig accepted
  refine ⟨fun level absent => ?_, fun level own present => ?_, fresh.undoDepth_eq, fresh.history_eq⟩
  · rw [fresh.level?_eq, if_neg List.not_mem_nil, absent, Option.map_none]
  · have sound := exists_ok_ofConfig_iff.1 ⟨hierarchy, accepted⟩ level
    obtain ⟨valid, -⟩ := HierarchyConfig.not_fault_iff.1 sound own present
    refine ⟨{ config := own }, ?_, rfl, ?_⟩
    · rw [Cache.new, valid]
      rfl
    · rw [fresh.level?_eq, if_neg List.not_mem_nil, present, Option.map_some]

theorem ofConfig_first_fault :
    (∀ config : HierarchyConfig,
      ((∃ hierarchy, ofConfig config = .ok hierarchy) ↔
        ∀ level own, config.get? level = some own → own.validate = .ok () ∧
          ∀ parent, level.parent? = some parent → (config.get? parent).isSome = true) ∧
      (∀ hierarchy, ofConfig config = .ok hierarchy → hierarchy.Built config) ∧
      ∀ error, ofConfig config = .error error ↔
        ∃ above level below, Level.all = above ++ level :: below ∧
          (∀ other ∈ above, ∀ error, ¬ Fault config other error) ∧ Fault config level error) ∧
      (∀ text config error, HierarchyConfig.ofJson text = .ok config →
        ofConfig config = .error error → ∃ level parent, error = .parentDisabled level parent) ∧
      ∀ text config, (Json.Value.parse? text).bind HierarchyConfig.ofValue? = some config →
        ((∀ own ∈ config.present, own.validate = .ok ()) → ofJson text = ofConfig config) ∧
          ∀ above own below error, config.present = above ++ own :: below →
            (∀ own ∈ above, own.validate = .ok ()) → own.validate = .error error →
              ofJson text = .error (.config error) := by
  refine ⟨fun config => ⟨?_, fun _ => built_ofConfig, fun _ => ofConfig_eq_error_iff⟩,
    fun text config error decoded refused => ?_, fun text config given => ⟨fun valid => ?_, ?_⟩⟩
  · rw [exists_ok_ofConfig_iff]
    exact forall_congr' fun level => HierarchyConfig.not_fault_iff
  · obtain ⟨-, valid⟩ := HierarchyConfig.ofJson_eq_ok_iff.1 decoded
    obtain ⟨_, level, _, -, -, fault⟩ := ofConfig_eq_error_iff.1 refused
    cases fault with
    | gap => exact ⟨_, _, rfl⟩
    | invalid present _ invalid =>
        have sound := valid _ (HierarchyConfig.mem_present_iff.2 ⟨level, present⟩)
        rw [sound] at invalid
        cases invalid
  · rw [ofJson, HierarchyConfig.ofJson_eq_ok_iff.2 ⟨given, valid⟩]
    rfl
  · intro above own below error split valid invalid
    rw [ofJson, HierarchyConfig.ofJson_of_first_invalid given split valid invalid]
    rfl

/-- Two levels, a gap above two invalid levels, the same from a document, and a gap that a document
of valid levels has. -/
theorem ofConfig_first_fault_gap :
    let two : HierarchyConfig := { l1 := some {}, l2 := some { lineBits := 6 } }
    let invalid : HierarchyConfig := { l2 := some { wayBits := 6 }, l3 := some { lineBits := 40 } }
    let gap : HierarchyConfig := { l1 := some {}, l3 := some {} }
    (∃ hierarchy, ofConfig two = .ok hierarchy ∧ hierarchy.Built two) ∧
      ofConfig invalid = .error (.parentDisabled .l2 .l1) ∧
      ofJson invalid.toJson.compact = .error (.config (.wayBitsOutOfRange 6)) ∧
      (HierarchyConfig.ofJson gap.toJson.compact = .ok gap ∧
        ofJson gap.toJson.compact = ofConfig gap ∧
        ∃ level parent, HierarchyError.parentDisabled .l3 .l2 = .parentDisabled level parent) := by
  intro two invalid gap
  obtain ⟨built, decoded, documents⟩ := ofConfig_first_fault
  have given (config : HierarchyConfig) :
      (Json.Value.parse? config.toJson.compact).bind HierarchyConfig.ofValue? = some config := by
    rw [(Document.writtenAs_compact config.written_toJson).parse?_eq]
    exact config.ofValue?_toJson
  have accepted : ∃ hierarchy, ofConfig two = .ok hierarchy := by
    refine (built two).1.2 fun level own present => ?_
    cases level <;> cases present <;> exact ⟨rfl, by decide⟩
  have fault : Fault invalid .l2 (.parentDisabled .l2 .l1) := .gap rfl rfl rfl
  have first : ∀ other ∈ [Level.l1], ∀ error, ¬ Fault invalid other error := by
    rw [List.forall_mem_singleton, HierarchyConfig.not_fault_iff]
    nofun
  have valid : ∀ own ∈ gap.present, own.validate = .ok () := by decide
  have read := HierarchyConfig.ofJson_eq_ok_iff.2 ⟨given gap, valid⟩
  obtain ⟨hierarchy, accepted⟩ := accepted
  exact ⟨⟨hierarchy, accepted, (built two).2.1 hierarchy accepted⟩,
    ((built invalid).2.2 _).2 ⟨[.l1], .l2, [.l3], rfl, first, fault⟩,
    (documents _ _ (given invalid)).2 [] { wayBits := 6 } [{ lineBits := 40 }] _ rfl nofun rfl,
    read, (documents _ _ (given gap)).1 valid, decoded _ gap _ read rfl⟩

end Hierarchy

end SetAssoc
