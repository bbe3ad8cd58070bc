import SetAssoc.Proofs.Document

/-!
# The configuration that a document describes

A field whose key does not occur has its default, and one whose key occurs once has the value that
stands there, wherever that is.
-/

namespace SetAssoc

open Json (Value Text)

namespace Document

/-! ## Values of fields -/

inductive DenotesWord : Value → UInt32 → Prop
  | digits {lexeme : String} {word : UInt32} (numeral : IsNumeral 10 lexeme.toList word.toNat) :
      DenotesWord (.number lexeme) word

/-- One of the names of a value, as a string or as the only key of an object that holds `null`. -/
inductive DenotesName {α : Type} (names : Names α) : Value → α → Prop
  | string {name : String} {value : α} (named : (name, value) ∈ names) :
      DenotesName names (.string (some name)) value
  | object {name : String} {value : α} (named : (name, value) ∈ names) :
      DenotesName names (.object [(some name, .null)]) value

theorem readWord_eq_some_iff (value : Value) (word : UInt32) :
    readWord value = some word ↔ DenotesWord value word := by
  constructor
  · intro read
    cases value with
    | number lexeme => exact .digits ((word?_eq_some_iff (by decide)).1 read)
    | null | bool | string | array | object => cases read
  · rintro ⟨numeral⟩
    exact (word?_eq_some_iff (by decide)).2 numeral

theorem eq_null_of_isNull {value : Value} (null : value.isNull = true) : value = .null := by
  cases value with
  | null => rfl
  | bool | number | string | array | object => cases null

theorem readName_eq_some_iff {α : Type} {names : Names α} (distinct : (names.map Prod.fst).Nodup)
    (value : Value) (named : α) :
    readName Value.isNull names value = some named ↔ DenotesName names value named := by
  constructor
  · intro read
    unfold readName at read
    split at read
    · exact .string ((Names.lookup_eq_some_iff distinct).1 read)
    · split at read
      · rename_i null
        rw [eq_null_of_isNull null]
        exact .object ((Names.lookup_eq_some_iff distinct).1 read)
      · cases read
    · cases read
  · rintro (known | known) <;> exact (Names.lookup_eq_some_iff distinct).2 known

/-! ## Members -/

/-- What the members of one name say about a field that has a default value. -/
inductive Gives {α : Type} (members : List (String × Value)) (name : String)
    (denotes : Value → α → Prop) (default : α) : α → Prop
  | missing (absent : ∀ member ∈ members, member.1 ≠ name) :
      Gives members name denotes default default
  | given {before after : List (String × Value)} {value : Value} {field : α}
      (split : members = before ++ (name, value) :: after)
      (once : ∀ member ∈ before ++ after, member.1 ≠ name) (meaning : denotes value field) :
      Gives members name denotes default field

section

variable {α : Type} {members : List (String × Value)} {name : String} {denotes : Value → α → Prop}
  {default field : α}

theorem filter_eq_singleton_iff {value : Value} :
    members.filter (·.1 = name) = [(name, value)] ↔
      ∃ before after, members = before ++ (name, value) :: after ∧
        ∀ member ∈ before ++ after, member.1 ≠ name := by
  simp only [List.filter_eq_cons_iff, List.filter_eq_nil_iff, List.forall_mem_append,
    decide_eq_true_eq, true_and]

theorem readMember_eq_some_iff {read : Value → Option α}
    (reads : ∀ value field, read value = some field ↔ denotes value field) :
    readMember members name read default = some field ↔ Gives members name denotes default field := by
  constructor
  · intro result
    unfold readMember member? at result
    split at result
    · rename_i absent
      cases result
      exact .missing (by simpa using absent)
    · rename_i key value single
      have mem : (key, value) ∈ members.filter (·.1 = name) := by simp [single]
      have same : key = name := by simpa using (List.mem_filter.1 mem).2
      obtain ⟨before, after, split, once⟩ := filter_eq_singleton_iff.1 (same ▸ single)
      exact .given split once ((reads _ _).1 result)
    · cases result
  · rintro (absent | ⟨split, once, meaning⟩)
    · have none : members.filter (·.1 = name) = [] := by simpa using absent
      simp [readMember, member?, none]
    · have single := filter_eq_singleton_iff.2 ⟨_, _, split, once⟩
      simp [readMember, member?, single, (reads _ _).2 meaning]

namespace Gives

variable (gives : Gives members name denotes default field)
include gives

theorem countP_le : members.countP (·.1 = name) ≤ 1 := by
  cases gives with
  | missing absent =>
      have none : members.countP (·.1 = name) = 0 := List.countP_eq_zero.2 (by simpa using absent)
      omega
  | @given before after _ _ split once _ =>
      have others : (before ++ after).countP (·.1 = name) = 0 :=
        List.countP_eq_zero.2 (by simpa using once)
      rw [List.countP_append] at others
      rw [split, List.countP_append, List.countP_cons_of_pos (by simp)]
      omega

theorem denotes_of_mem {value : Value} (mem : (name, value) ∈ members) : denotes value field := by
  cases gives with
  | missing absent => exact absurd rfl (absent _ mem)
  | given split once meaning =>
      rw [split, List.mem_append, List.mem_cons] at mem
      rcases mem with mem | same | mem
      · exact absurd rfl (once _ (List.mem_append_left _ mem))
      · cases same
        exact meaning
      · exact absurd rfl (once _ (List.mem_append_right _ mem))

end Gives

end

/-! ## Policies -/

def DenotesWritePolicy : Value → WritePolicy → Prop :=
  DenotesName [("WriteThrough", .writeThrough), ("WriteBack", .writeBack)]

def DenotesWriteAllocation : Value → WriteAllocation → Prop :=
  DenotesName [("WriteAllocate", .writeAllocate), ("NoWriteAllocate", .noWriteAllocate)]

def DenotesReplacement : Value → Replacement → Prop :=
  DenotesName [("RANDOM", .random), ("Random", .random), ("LRU", .lru), ("Lru", .lru)]

theorem readName_writePolicy (value : Value) (policy : WritePolicy) :
    readName Value.isNull WritePolicy.names value = some policy ↔ DenotesWritePolicy value policy :=
  readName_eq_some_iff (by decide) value policy

theorem readName_writeAllocation (value : Value) (policy : WriteAllocation) :
    readName Value.isNull WriteAllocation.names value = some policy ↔
      DenotesWriteAllocation value policy :=
  readName_eq_some_iff (by decide) value policy

theorem readName_replacement (value : Value) (policy : Replacement) :
    readName Value.isNull Replacement.names value = some policy ↔ DenotesReplacement value policy :=
  readName_eq_some_iff (by decide) value policy

end Document

open Document

namespace Config

/-! ## Configurations -/

structure Describes (members : List (String × Value)) (config : Config) : Prop where
  blockBits : Gives members "block_bits" DenotesWord 2 config.blockBits
  lineBits : Gives members "line_bits" DenotesWord 5 config.lineBits
  wayBits : Gives members "way_bits" DenotesWord 0 config.wayBits
  writePolicy : Gives members "write_policy" DenotesWritePolicy .writeBack config.writePolicy
  writeAllocation :
    Gives members "write_alloc_policy" DenotesWriteAllocation .writeAllocate config.writeAllocation
  replacement : Gives members "replacement_policy" DenotesReplacement .lru config.replacement

inductive Mistyped : String → Value → Prop
  | bits {key : String} {value : Value} (field : key ∈ ["block_bits", "line_bits", "way_bits"])
      (noWord : ∀ word, ¬ DenotesWord value word) : Mistyped key value
  | writePolicy {value : Value} (noPolicy : ∀ policy, ¬ DenotesWritePolicy value policy) :
      Mistyped "write_policy" value
  | writeAllocation {value : Value} (noPolicy : ∀ policy, ¬ DenotesWriteAllocation value policy) :
      Mistyped "write_alloc_policy" value
  | replacement {value : Value} (noPolicy : ∀ policy, ¬ DenotesReplacement value policy) :
      Mistyped "replacement_policy" value

inductive Faulty (members : List (Text × Value)) : Prop
  | repeated {key : String} (field : key ∈ keys) (twice : 1 < members.countP (·.1 = some key))
  | mistyped {key : String} {value : Value} (mem : (some key, value) ∈ members)
      (mistyped : Mistyped key value)

variable {members : List (String × Value)} {config : Config} {text : String}

theorem ofMembers_eq_some_iff :
    ofMembers Value.isNull members = some config ↔ Describes members config := by
  simp only [ofMembers, Option.bind_eq_bind, Option.bind_eq_some_iff, Option.pure_def,
    Option.some.injEq, readMember_eq_some_iff readWord_eq_some_iff,
    readMember_eq_some_iff readName_writePolicy, readMember_eq_some_iff readName_writeAllocation,
    readMember_eq_some_iff readName_replacement]
  constructor
  · rintro ⟨_, blockBits, _, lineBits, _, wayBits, _, writePolicy, _, writeAllocation, _, replacement,
      rfl⟩
    exact ⟨blockBits, lineBits, wayBits, writePolicy, writeAllocation, replacement⟩
  · rintro ⟨blockBits, lineBits, wayBits, writePolicy, writeAllocation, replacement⟩
    exact ⟨_, blockBits, _, lineBits, _, wayBits, _, writePolicy, _, writeAllocation, _, replacement,
      rfl⟩

namespace Describes

variable (describes : Describes members config)
include describes

theorem countP_le {key : String} (field : key ∈ keys) : members.countP (·.1 = key) ≤ 1 := by
  simp only [keys, List.mem_cons, List.not_mem_nil, or_false] at field
  rcases field with rfl | rfl | rfl | rfl | rfl | rfl
  · exact describes.blockBits.countP_le
  · exact describes.lineBits.countP_le
  · exact describes.wayBits.countP_le
  · exact describes.writePolicy.countP_le
  · exact describes.writeAllocation.countP_le
  · exact describes.replacement.countP_le

theorem not_mistyped {key : String} {value : Value} (mem : (key, value) ∈ members) :
    ¬ Mistyped key value := by
  intro mistyped
  cases mistyped with
  | bits field noWord =>
      simp only [List.mem_cons, List.not_mem_nil, or_false] at field
      rcases field with rfl | rfl | rfl
      · exact noWord _ (describes.blockBits.denotes_of_mem mem)
      · exact noWord _ (describes.lineBits.denotes_of_mem mem)
      · exact noWord _ (describes.wayBits.denotes_of_mem mem)
  | writePolicy noPolicy => exact noPolicy _ (describes.writePolicy.denotes_of_mem mem)
  | writeAllocation noPolicy => exact noPolicy _ (describes.writeAllocation.denotes_of_mem mem)
  | replacement noPolicy => exact noPolicy _ (describes.replacement.denotes_of_mem mem)

end Describes

theorem ofValue?_of_faulty {members : List (Text × Value)} (faulty : Faulty members) :
    ofValue? (.object members) = none := by
  rw [Option.eq_none_iff_forall_ne_some]
  intro config read
  obtain ⟨named, keys, read⟩ := Option.bind_eq_some_iff.1 read
  have describes := ofMembers_eq_some_iff.1 read
  rw [eq_of_readKeys keys] at faulty
  cases faulty with
  | repeated field twice =>
      have once := describes.countP_le field
      simp only [List.countP_map, Function.comp_def, Option.some.injEq] at twice
      omega
  | mistyped mem mistyped =>
      obtain ⟨⟨_, _⟩, mem, same⟩ := List.mem_map.1 mem
      cases same
      exact describes.not_mistyped mem mistyped

/-! ## Texts -/

theorem ofJson_of_some {value : Value} (written : value.WrittenAs text)
    (read : ofValue? value = some config) : ofJson text = config.validated := by
  simp [ofJson, written.parse?_eq, read]

theorem ofJson_of_none {value : Value} (written : value.WrittenAs text)
    (none : ofValue? value = none) : ofJson text = .error .malformedDocument := by
  simp [ofJson, written.parse?_eq, none]

theorem ofJson_congr {value other : Value} {text₂ : String} (written : value.WrittenAs text)
    (writtenOther : other.WrittenAs text₂) (same : ofValue? value = ofValue? other) :
    ofJson text = ofJson text₂ := by
  simp [ofJson, written.parse?_eq, writtenOther.parse?_eq, same]

theorem ofValue?_ofMembers (members : List (String × Value)) :
    ofValue? (.ofMembers members) = ofMembers Value.isNull members :=
  readRecord_ofMembers _ _ _

theorem decodes_by_key :
    (∀ text members config, (Value.ofMembers members).WrittenAs text → Describes members config →
      (config.validate = .ok () → ofJson text = .ok config) ∧
        ∀ error, config.validate = .error error → ofJson text = .error error) ∧
      (∀ text members, (Value.object members).WrittenAs text → Faulty members →
        ofJson text = .error .malformedDocument) ∧
      (∀ text items, (Value.array items).WrittenAs text → items.length ≤ 6 →
        ∀ other, (Value.ofMembers (["block_bits", "line_bits", "way_bits", "write_policy",
          "write_alloc_policy", "replacement_policy"].zip items)).WrittenAs other →
            ofJson text = ofJson other) ∧
      ∀ text items, (Value.array items).WrittenAs text → 6 < items.length →
        ofJson text = .error .malformedDocument := by
  refine ⟨fun text members config written describes => ?_, fun text members written faulty => ?_,
    fun text items written short other writtenOther => ?_, fun text items written long => ?_⟩
  · have read : ofValue? (.ofMembers members) = some config := by
      rw [ofValue?_ofMembers, ofMembers_eq_some_iff.2 describes]
    rw [ofJson_of_some written read, validated]
    refine ⟨fun valid => ?_, fun error invalid => ?_⟩
    · rw [valid]
      rfl
    · rw [invalid]
      rfl
  · exact ofJson_of_none written (ofValue?_of_faulty faulty)
  · apply ofJson_congr written writtenOther
    rw [ofValue?_ofMembers]
    exact if_pos short
  · exact ofJson_of_none written (if_neg (Nat.not_le.2 long))

theorem decodes_by_key_escaped :
    ofJson " \x7b \"\\u0077ay_bits\":2,\"x\":[true]\x7d" = .ok { wayBits := 2 } ∧
      ofJson (Value.ofMembers [("way_bits", .ofNat 6)]).compact = .error (.wayBitsOutOfRange 6) ∧
      ofJson (Value.ofMembers [("way_bits", .ofNat 6), ("way_bits", .ofNat 6)]).compact =
        .error .malformedDocument ∧
      ofJson (Value.array [.ofNat 3]).compact =
        ofJson (Value.ofMembers [("block_bits", .ofNat 3)]).compact ∧
      ofJson (Value.array (List.replicate 7 .null)).compact = .error .malformedDocument := by
  obtain ⟨described, faulty, short, long⟩ := decodes_by_key
  have escaped : (Value.ofMembers [("way_bits", .ofNat 2), ("x", .array [.bool true])]).WrittenAs
      " \x7b \"\\u0077ay_bits\":2,\"x\":[true]\x7d" := by
    have piece : Json.SpellsPiece ['\\', 'u', '0', '0', '7', '7'] (.char 'w') :=
      .char rfl ((numeral?_eq_some_iff (by decide)).1 (by decide))
    have key := Json.SpellsToken.string (.cons piece (Json.spellsPieces_escape "ay_bits".toList))
    have rest := @Json.writesTokens_text
      [.colon, .number (Nat.repr 2), .comma, .string (some "x"), .colon, .openArray, .bool true,
        .closeArray, .closeObject] (by simpa [Json.Token.Readable] using Json.isNumber_repr 2)
    have blank : Json.AreBlanks [' '] := by simp [Json.AreBlanks]
    exact .cons blank .openObject (.cons blank key rest)
  have writtenBits (key : String) (word : UInt32) :
      (Value.ofMembers [(key, .ofNat word.toNat)]).WrittenAs
        (Value.ofMembers [(key, .ofNat word.toNat)]).compact :=
    writtenAs_compact (written_ofMembers (List.forall_mem_singleton.2 (written_ofNat word)))
  have writtenTwice : (Value.ofMembers [("way_bits", .ofNat 6), ("way_bits", .ofNat 6)]).WrittenAs
      (Value.ofMembers [("way_bits", .ofNat 6), ("way_bits", .ofNat 6)]).compact :=
    writtenAs_compact (written_ofMembers
      (List.forall_mem_cons.2 ⟨written_ofNat 6, List.forall_mem_singleton.2 (written_ofNat 6)⟩))
  have writtenItem : (Value.array [.ofNat 3]).WrittenAs (Value.array [.ofNat 3]).compact :=
    Value.writtenAs_compact (by
      simpa [Value.tokens, Value.itemTokens, Value.ofNat, Json.Token.Readable] using
        Json.isNumber_repr 3)
  have writtenItems : (Value.array (List.replicate 7 .null)).WrittenAs
      (Value.array (List.replicate 7 .null)).compact :=
    Value.writtenAs_compact (by
      simp [List.replicate, Value.tokens, Value.itemTokens, Json.Token.Readable])
  refine ⟨(described _ _ _ escaped (ofMembers_eq_some_iff.1 (by decide))).1 rfl,
    (described _ _ { wayBits := 6 } (writtenBits _ 6) (ofMembers_eq_some_iff.1 (by decide))).2 _ rfl,
    faulty _ _ writtenTwice (.repeated (show "way_bits" ∈ keys by decide) (by decide)),
    short _ _ writtenItem (by decide) _ (writtenBits _ 3), long _ _ writtenItems (by decide)⟩

end Config

end SetAssoc
