import SetAssoc.Document
import SetAssoc.Proofs.Json.Value

/-!
# Configuration documents

Configurations, hierarchies and presets are read back from the text that they are written as.
-/

namespace SetAssoc

open Json (Value Text Token)

namespace Document

/-! ## Tokens of written documents -/

def Written : Token → Prop
  | .number lexeme => ∃ word : UInt32, lexeme = word.toNat.repr
  | .string text => text.isSome = true
  | _ => True

theorem Written.readable {token : Token} (written : Written token) : token.Readable := by
  cases token with
  | number _ =>
      obtain ⟨word, rfl⟩ := written
      exact Json.isNumber_repr word.toNat
  | _ => trivial

theorem writtenAs_compact {value : Value} (written : ∀ token ∈ value.tokens, Written token) :
    value.WrittenAs value.compact :=
  Value.writtenAs_compact fun token mem => (written token mem).readable

theorem Written.isBufferable {token : Token} (written : Written token) :
    token.isBufferable = true := by
  cases token with
  | number _ =>
      obtain ⟨word, rfl⟩ := written
      exact Json.isFinite_repr (Nat.lt_trans word.toNat_lt (by decide))
  | string _ => exact written
  | _ => rfl

theorem written_ofNat (word : UInt32) : ∀ token ∈ (Value.ofNat word.toNat).tokens, Written token :=
  List.forall_mem_singleton.2 ⟨word, rfl⟩

theorem written_ofString (text : String) : ∀ token ∈ (Value.ofString text).tokens, Written token :=
  List.forall_mem_singleton.2 rfl

section

variable {members : List (String × Value)}
  (values : ∀ member ∈ members, ∀ token ∈ member.2.tokens, Written token)
include values

theorem written_memberTokens :
    ∀ token ∈ Value.memberTokens (members.map fun (key, value) => (some key, value)),
      Written token := by
  induction members with
  | nil => simp [Value.memberTokens, Written]
  | cons member rest ih =>
      rw [List.forall_mem_cons] at values
      simp only [List.map_cons, Value.memberTokens, List.cons_append, List.forall_mem_cons,
        List.forall_mem_append]
      exact ⟨trivial, rfl, trivial, values.1, ih values.2⟩

theorem written_ofMembers : ∀ token ∈ (Value.ofMembers members).tokens, Written token := by
  cases members with
  | nil => simp [Value.ofMembers, Value.tokens, Written]
  | cons member rest =>
      -- the first member follows the opening of the object, any other one a comma
      have others := written_memberTokens values
      simp only [List.map_cons, Value.memberTokens, List.cons_append,
        List.forall_mem_cons] at others
      simp only [Value.ofMembers, List.map_cons, Value.tokens, List.cons_append,
        List.forall_mem_cons]
      exact ⟨trivial, others.2⟩

end

/-! ## Members and names -/

theorem readKeys_ofMembers (members : List (String × Value)) :
    readKeys (members.map fun (key, value) => (some key, value)) = some members := by
  induction members with
  | nil => rfl
  | cons member rest ih =>
      simp only [readKeys] at ih
      simp [readKeys, ih]

theorem eq_of_readKeys {members : List (Text × Value)} {named : List (String × Value)}
    (read : readKeys members = some named) :
    members = named.map fun (key, value) => (some key, value) := by
  induction members generalizing named with
  | nil =>
      cases read
      rfl
  | cons member rest ih =>
      simp only [readKeys, List.mapM_cons, Option.bind_eq_bind, Option.bind_eq_some_iff,
        Option.map_eq_some_iff, Option.pure_def, Option.some.injEq] at read
      obtain ⟨_, ⟨key, text, rfl⟩, others, read, rfl⟩ := read
      rw [List.map_cons, ← ih read]
      exact congrArg (· :: rest) (Prod.ext text rfl)

theorem readRecord_ofMembers {α : Type} (keys : List String)
    (read : List (String × Value) → Option α) (members : List (String × Value)) :
    readRecord keys read (.ofMembers members) = read members := by
  simp [Value.ofMembers, readRecord, readKeys_ofMembers]

theorem readWord_ofNat (word : UInt32) : readWord (.ofNat word.toNat) = some word := word?_repr word

theorem Names.lookup_eq_some_iff {α : Type} {names : Names α} (distinct : (names.map Prod.fst).Nodup)
    {name : String} {value : α} : names.lookup name = some value ↔ (name, value) ∈ names := by
  rw [List.lookup_eq_some_iff]
  constructor
  · rintro ⟨before, after, rfl, -⟩
    simp
  · intro mem
    obtain ⟨before, after, rfl⟩ := List.append_of_mem mem
    refine ⟨before, after, rfl, fun other mem_before => ?_⟩
    rw [List.map_append, List.nodup_append] at distinct
    have apart := distinct.2.2 other.1 (List.mem_map_of_mem mem_before) name (by simp)
    simpa using apart.symm

theorem Names.readName_toJson {α : Type} [DecidableEq α] {names : Names α} {value : α}
    (distinct : (names.map Prod.fst).Nodup) (known : value ∈ names.map Prod.snd)
    (holdsNothing : Value → Bool) :
    readName holdsNothing names (names.toJson value) = some value := by
  obtain ⟨member, mem, rfl⟩ := List.mem_map.1 known
  obtain ⟨⟨name, written⟩, found⟩ : ∃ first, names.find? (·.2 = member.2) = some first := by
    rw [← Option.isSome_iff_exists, List.find?_isSome]
    exact ⟨member, mem, by simp⟩
  have same : written = member.2 := by simpa using List.find?_some found
  have lookup : names.lookup name = some member.2 :=
    (lookup_eq_some_iff distinct).2 (same ▸ List.mem_of_find?_eq_some found)
  simpa [toJson, nameOf, found, readName, Value.ofString] using lookup

/-! ## Members of other names -/

theorem readMember_cons_self {α : Type} {name : String} {value : Value}
    {members : List (String × Value)} (other : ∀ member ∈ members, member.1 ≠ name)
    (read : Value → Option α) (default : α) :
    readMember ((name, value) :: members) name read default = read value := by
  have none : members.filter (·.1 = name) = [] := by simpa using other
  simp [readMember, member?, none]

theorem readMember_cons_of_ne {α : Type} {name : String} {member : String × Value}
    (other : member.1 ≠ name) (members : List (String × Value)) (read : Value → Option α)
    (default : α) :
    readMember (member :: members) name read default = readMember members name read default := by
  simp [readMember, member?, other]

end Document

open Document

section

variable (holdsNothing : Value → Bool)

theorem WritePolicy.readName_toJson (policy : WritePolicy) :
    readName holdsNothing names (names.toJson policy) = some policy :=
  Names.readName_toJson (by decide) (by cases policy <;> decide) holdsNothing

theorem WriteAllocation.readName_toJson (policy : WriteAllocation) :
    readName holdsNothing names (names.toJson policy) = some policy :=
  Names.readName_toJson (by decide) (by cases policy <;> decide) holdsNothing

theorem Replacement.readName_toJson (policy : Replacement) :
    readName holdsNothing names (names.toJson policy) = some policy :=
  Names.readName_toJson (by decide) (by cases policy <;> decide) holdsNothing

end

/-! ## Configurations -/

namespace Config

theorem ofMembers_toMembers (holdsNothing : Value → Bool) (config : Config) :
    ofMembers holdsNothing config.toMembers = some config := by
  simp [ofMembers, toMembers, readMember_cons_self, readMember_cons_of_ne, readWord_ofNat,
    WritePolicy.readName_toJson, WriteAllocation.readName_toJson, Replacement.readName_toJson]

theorem ofMembers_cons_of_not_mem (holdsNothing : Value → Bool) {member : String × Value}
    (other : member.1 ∉ keys) (members : List (String × Value)) :
    ofMembers holdsNothing (member :: members) = ofMembers holdsNothing members := by
  simp only [keys, List.mem_cons, not_or] at other
  simp [ofMembers, readMember_cons_of_ne, other]

theorem written_toMembers (config : Config) :
    ∀ member ∈ config.toMembers, ∀ token ∈ member.2.tokens, Written token := by
  simp only [toMembers, List.forall_mem_cons]
  exact ⟨written_ofNat _, written_ofNat _, written_ofNat _, written_ofString _, written_ofString _,
    written_ofString _, nofun⟩

theorem written_toJson (config : Config) : ∀ token ∈ config.toJson.tokens, Written token :=
  written_ofMembers config.written_toMembers

theorem ofValue?_toJson (config : Config) : ofValue? config.toJson = some config := by
  rw [ofValue?, toJson, readRecord_ofMembers, ofMembers_toMembers]

theorem ofJson_toJson (config : Config) : ofJson config.toJson.compact = config.validated := by
  have written := writtenAs_compact config.written_toJson
  simp [ofJson, written.parse?_eq, ofValue?_toJson]

end Config

/-! ## Presets -/

namespace Preset

theorem written_toJson (preset : Preset) : ∀ token ∈ preset.toJson.tokens, Written token := by
  apply written_ofMembers
  rw [List.forall_mem_cons]
  exact ⟨written_ofString preset.name, preset.config.written_toMembers⟩

theorem isBufferable_toJson (preset : Preset) : Json.isBufferable preset.toJson.tokens = true := by
  have tokens : preset.toJson.tokens.all Token.isBufferable = true :=
    List.all_eq_true.2 fun token mem => (preset.written_toJson token mem).isBufferable
  have shallow : Json.nesting preset.toJson.tokens = 1 := rfl
  rw [Json.isBufferable, tokens, shallow]
  rfl

theorem exists_members_toJson (preset : Preset) :
    ∃ members named, preset.toJson = .object members ∧ readKeys members = some named ∧
      member? named "name" = some (some (.string (some preset.name))) ∧
      Config.ofMembers isNullOrEmpty named = some preset.config := by
  refine ⟨_, _, rfl, readKeys_ofMembers _, ?_, ?_⟩
  · simp [member?, Config.toMembers, Value.ofString]
  · rw [Config.ofMembers_cons_of_not_mem isNullOrEmpty (by simp [Config.keys]),
      Config.ofMembers_toMembers]

theorem ofJson_toJson (preset : Preset) : ofJson preset.toJson.compact = .ok preset := by
  have tokens : Json.tokens? preset.toJson.compact = some preset.toJson.tokens :=
    (writtenAs_compact preset.written_toJson).tokens?_eq
  obtain ⟨members, named, object, keys, name, config⟩ := preset.exists_members_toJson
  have parsed : Value.ofTokens? preset.toJson.tokens = some (.object members) := by
    rw [Value.ofTokens?_tokens, object]
  have read : ofJson.read preset.toJson.compact = some preset := by
    simp [ofJson.read, tokens, preset.isBufferable_toJson, parsed, keys, name, config]
  simp [ofJson, read]

end Preset

/-! ## Hierarchies -/

namespace HierarchyConfig

def present (config : HierarchyConfig) : List Config := Level.all.filterMap config.get?

theorem forM_levels (config : HierarchyConfig) (levels : List Level) :
    (forM levels fun level =>
      match config.get? level with
      | some config => config.validate
      | none => .ok ()) = forM (levels.filterMap config.get?) Config.validate := by
  induction levels with
  | nil => rfl
  | cons level rest ih =>
      cases value : config.get? level with
      | none =>
          simp only [List.forM_cons, List.filterMap_cons, value]
          exact ih
      | some config => simp [value, ih]

theorem validate_eq_forM (config : HierarchyConfig) :
    config.validate = forM config.present Config.validate :=
  config.forM_levels Level.all

theorem readLevel_toJson (config : Option Config) :
    readLevel ((config.map Config.toJson).getD .null) = some config := by
  cases config with
  | none => rfl
  | some config => exact congrArg (Option.map some) config.ofValue?_toJson

theorem ofValue?_toJson (config : HierarchyConfig) : ofValue? config.toJson = some config := by
  rw [ofValue?, toJson, readRecord_ofMembers]
  simp [ofMembers, readMember_cons_self, readMember_cons_of_ne, readLevel_toJson]

theorem written_toJson (config : HierarchyConfig) :
    ∀ token ∈ config.toJson.tokens, Written token := by
  have level (config : Option Config) :
      ∀ token ∈ ((config.map Config.toJson).getD .null).tokens, Written token := by
    cases config with
    | none => simp [Value.tokens, Written]
    | some config => exact config.written_toJson
  apply written_ofMembers
  simp only [List.forall_mem_cons]
  exact ⟨level config.l1, level config.l2, level config.l3, nofun⟩

theorem ofJson_toJson (config : HierarchyConfig) :
    ofJson config.toJson.compact = config.validate.map fun _ => config := by
  have written := writtenAs_compact config.written_toJson
  simp [ofJson, written.parse?_eq, ofValue?_toJson]

theorem forM_validate {levels : List Config} (valid : ∀ level ∈ levels, level.validate = .ok ()) :
    forM levels Config.validate = .ok () := by
  induction levels with
  | nil => rfl
  | cons level rest ih =>
      rw [List.forall_mem_cons] at valid
      rw [List.forM_cons, valid.1]
      exact ih valid.2

theorem validate_of_first_invalid {config : HierarchyConfig} {above below : List Config}
    {level : Config} {error : ConfigError} (split : config.present = above ++ level :: below)
    (valid : ∀ level ∈ above, level.validate = .ok ()) (invalid : level.validate = .error error) :
    config.validate = .error error := by
  rw [validate_eq_forM, split, List.forM_append, forM_validate valid, List.forM_cons, invalid]
  rfl

end HierarchyConfig

/-! ## Round trips -/

theorem Document.round_trip :
    (∀ config : Config,
      (config.validate = .ok () → Config.ofJson config.toJson.compact = .ok config) ∧
        ∀ error, config.validate = .error error →
          Config.ofJson config.toJson.compact = .error error) ∧
      (∀ config : HierarchyConfig,
        ((∀ level ∈ config.present, level.validate = .ok ()) →
          HierarchyConfig.ofJson config.toJson.compact = .ok config) ∧
        ∀ above level below error, config.present = above ++ level :: below →
          (∀ valid ∈ above, valid.validate = .ok ()) → level.validate = .error error →
            HierarchyConfig.ofJson config.toJson.compact = .error error) ∧
      ∀ preset : Preset, Preset.ofJson preset.toJson.compact = .ok preset := by
  refine ⟨fun config => ⟨?_, ?_⟩, fun config => ⟨?_, ?_⟩, Preset.ofJson_toJson⟩
  · intro valid
    rw [config.ofJson_toJson, Config.validated, valid]
    rfl
  · intro error invalid
    rw [config.ofJson_toJson, Config.validated, invalid]
    rfl
  · intro valid
    rw [config.ofJson_toJson, config.validate_eq_forM, HierarchyConfig.forM_validate valid]
    rfl
  · intro above level below error split valid invalid
    rw [config.ofJson_toJson, HierarchyConfig.validate_of_first_invalid split valid invalid]
    rfl

theorem Document.round_trip_third_level :
    Config.ofJson (Config.toJson {}).compact = .ok {} ∧
      Config.ofJson (Config.toJson { wayBits := 6 }).compact = .error (.wayBitsOutOfRange 6) ∧
      HierarchyConfig.ofJson (HierarchyConfig.toJson { l1 := some {} }).compact =
        .ok { l1 := some {} } ∧
      HierarchyConfig.ofJson (HierarchyConfig.toJson
          { l1 := some {}, l3 := some { blockBits := 20, lineBits := 11 } }).compact =
        .error (.addressBitsExceeded 20 11) ∧
      Preset.ofJson (Preset.toJson ⟨"\"\\\x01😀", { wayBits := 6 }⟩).compact =
        .ok ⟨"\"\\\x01😀", { wayBits := 6 }⟩ := by
  obtain ⟨single, levels, named⟩ := round_trip
  have valid : ∀ level ∈ [({} : Config)], level.validate = .ok () := by
    rw [List.forall_mem_singleton]
    rfl
  exact ⟨(single _).1 rfl, (single _).2 _ rfl, (levels { l1 := some {} }).1 valid,
    (levels _).2 [{}] { blockBits := 20, lineBits := 11 } [] _ rfl valid rfl, named _⟩

end SetAssoc
