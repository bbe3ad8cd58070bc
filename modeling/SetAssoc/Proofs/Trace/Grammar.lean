import SetAssoc.Proofs.Numeral
import SetAssoc.Proofs.Trace.Lines

/-!
# The grammar of a trace line

What a line may say is given here by relations between its text and its meaning, and the reader is
shown to accept just that.
-/

namespace SetAssoc.Trace

open Text (Runs isBlank)

/-! ## Access kinds and addresses -/

def kindNames : List (List Char × AccessKind) :=
  [(['R'], .read), (['r'], .read), (['W'], .write), (['w'], .write)]

inductive IsUnsigned (radix : Nat) : List Char → Nat → Prop
  | plain {digits : List Char} {value : Nat} (numeral : IsNumeral radix digits value) :
      IsUnsigned radix digits value
  | plus {digits : List Char} {value : Nat} (numeral : IsNumeral radix digits value) :
      IsUnsigned radix ('+' :: digits) value

/-- A number in hexadecimal, after its marker, or in decimal; it need not fit into a word. -/
inductive Spells : List Char → Nat → Prop
  | hexadecimal {marker : Char} {number : List Char} {value : Nat} (marked : marker = 'x' ∨ marker = 'X')
      (unsigned : IsUnsigned 16 number value) : Spells ('0' :: marker :: number) value
  | decimal {number : List Char} {value : Nat} (unsigned : IsUnsigned 10 number value) :
      Spells number value

theorem kind?_eq_some_iff {field : List Char} {kind : AccessKind} :
    kind? field = some kind ↔ (field, kind) ∈ kindNames := by
  unfold kind?
  split <;> cases kind <;> simp_all [kindNames]

theorem not_isDigit_plus {radix value : Nat} (small : radix ≤ 16) : ¬ IsDigit radix '+' value := by
  intro digit
  have read := (digit?_eq_some_iff small).2 digit
  simp [digit?] at read

theorem not_isDigit_marker {marker : Char} {value : Nat} (marked : marker = 'x' ∨ marker = 'X') :
    ¬ IsDigit 10 marker value := by
  intro digit
  have read := (digit?_eq_some_iff (by decide)).2 digit
  rcases marked with rfl | rfl <;> cases read

theorem unsigned?_eq_some_iff {radix : Nat} (small : radix ≤ 16) {field : List Char} {word : UInt32} :
    unsigned? radix field = some word ↔ IsUnsigned radix field word.toNat := by
  by_cases signed : ∃ digits, field = '+' :: digits
  · obtain ⟨digits, rfl⟩ := signed
    refine (word?_eq_some_iff small).trans ⟨.plus, ?_⟩
    intro unsigned
    cases unsigned with
    | plus numeral => exact numeral
    | plain numeral =>
        -- a plus sign is no digit
        obtain ⟨-, values, places, -⟩ := numeral
        cases places with
        | cons digit _ => exact absurd digit (not_isDigit_plus small)
  · have plain : unsigned? radix field = word? radix field := by
      unfold unsigned?
      split
      · exact absurd ⟨_, rfl⟩ signed
      · rfl
    rw [plain, word?_eq_some_iff small]
    refine ⟨.plain, ?_⟩
    intro unsigned
    cases unsigned with
    | plain numeral => exact numeral
    | plus _ => exact absurd ⟨_, rfl⟩ signed

theorem address?_of_marked {marker : Char} (marked : marker = 'x' ∨ marker = 'X') (number : List Char) :
    address? ('0' :: marker :: number) = unsigned? 16 number := by
  rcases marked with rfl | rfl <;> rfl

theorem address?_of_unmarked {field : List Char}
    (unmarked : ∀ marker number, marker = 'x' ∨ marker = 'X' → field ≠ '0' :: marker :: number) :
    address? field = unsigned? 10 field := by
  unfold address?
  split
  · exact absurd rfl (unmarked 'x' _ (.inl rfl))
  · exact absurd rfl (unmarked 'X' _ (.inr rfl))
  · rfl

theorem not_isUnsigned_marked {marker : Char} (marked : marker = 'x' ∨ marker = 'X') {number : List Char}
    {value : Nat} : ¬ IsUnsigned 10 ('0' :: marker :: number) value := by
  intro unsigned
  cases unsigned with
  | plain numeral =>
      obtain ⟨-, values, places, -⟩ := numeral
      cases places with
      | cons _ places =>
          cases places with
          | cons digit _ => exact not_isDigit_marker marked digit

theorem address?_eq_some_iff {field : List Char} {address : UInt32} :
    address? field = some address ↔ Spells field address.toNat := by
  by_cases marked : ∃ marker number, (marker = 'x' ∨ marker = 'X') ∧ field = '0' :: marker :: number
  · obtain ⟨marker, number, marked, rfl⟩ := marked
    rw [address?_of_marked marked, unsigned?_eq_some_iff (by decide)]
    refine ⟨.hexadecimal marked, ?_⟩
    intro spells
    cases spells with
    | hexadecimal _ unsigned => exact unsigned
    | decimal unsigned => exact absurd unsigned (not_isUnsigned_marked marked)
  · have unmarked (marker : Char) (number : List Char) (named : marker = 'x' ∨ marker = 'X') :
        field ≠ '0' :: marker :: number := fun same => marked ⟨marker, number, named, same⟩
    rw [address?_of_unmarked unmarked, unsigned?_eq_some_iff (by decide)]
    refine ⟨.decimal, ?_⟩
    intro spells
    cases spells with
    | hexadecimal named _ => exact absurd rfl (unmarked _ _ named)
    | decimal unsigned => exact unsigned

/-! ## Lines -/

inductive Describes : List (List Char) → Request → Prop
  | access {name number : List Char} {kind : AccessKind} {value : Nat} (named : (name, kind) ∈ kindNames)
      (spells : Spells number value) (fits : value < 2 ^ 32) :
      Describes [name, number] { kind, address := value.toUInt32 }

inductive Fails : List (List Char) → Fault → Prop
  | unknownKind {name : List Char} {rest : List (List Char)}
      (unknown : ∀ kind, (name, kind) ∉ kindNames) :
      Fails (name :: rest) (.unknownKind (.ofList name))
  | missingAddress {name : List Char} {kind : AccessKind} (named : (name, kind) ∈ kindNames) :
      Fails [name] .missingAddress
  | unexpectedField {name second third : List Char} {rest : List (List Char)} {kind : AccessKind}
      (named : (name, kind) ∈ kindNames) :
      Fails (name :: second :: third :: rest) (.unexpectedField (.ofList third))
  | invalidAddress {name number : List Char} {kind : AccessKind} (named : (name, kind) ∈ kindNames)
      (invalid : ∀ value < 2 ^ 32, ¬ Spells number value) :
      Fails [name, number] (.invalidAddress (.ofList number))

theorem address?_eq_some_iff_exists {number : List Char} {address : UInt32} :
    address? number = some address ↔
      ∃ value < 2 ^ 32, Spells number value ∧ value.toUInt32 = address := by
  rw [address?_eq_some_iff]
  constructor
  · intro spells
    exact ⟨address.toNat, address.toNat_lt, spells, UInt32.ofNat_toNat⟩
  · rintro ⟨value, fits, spells, rfl⟩
    rwa [Nat.toUInt32_eq, UInt32.toNat_ofNat_of_lt' fits]

theorem kind?_eq_none_iff {field : List Char} :
    kind? field = none ↔ ∀ kind, (field, kind) ∉ kindNames := by
  simp only [Option.eq_none_iff_forall_ne_some, ne_eq, kind?_eq_some_iff]

theorem address?_eq_none_iff {number : List Char} :
    address? number = none ↔ ∀ value < 2 ^ 32, ¬ Spells number value := by
  constructor
  · intro none value fits spells
    have read := address?_eq_some_iff_exists.2 ⟨value, fits, spells, rfl⟩
    rw [none] at read
    cases read
  · intro invalid
    cases read : address? number with
    | none => rfl
    | some address =>
        obtain ⟨value, fits, spells, -⟩ := address?_eq_some_iff_exists.1 read
        exact absurd spells (invalid value fits)

theorem Describes.ofFields_eq {fields : List (List Char)} {request : Request}
    (describes : Describes fields request) : ofFields fields = .ok (some request) := by
  cases describes with
  | access named spells fits =>
      simp only [ofFields, kind?_eq_some_iff.2 named,
        address?_eq_some_iff_exists.2 ⟨_, fits, spells, rfl⟩]

theorem Fails.ofFields_eq {fields : List (List Char)} {fault : Fault} (fails : Fails fields fault) :
    ofFields fields = .error fault := by
  cases fails with
  | unknownKind unknown => simp only [ofFields, kind?_eq_none_iff.2 unknown]
  | missingAddress named => simp only [ofFields, kind?_eq_some_iff.2 named]
  | unexpectedField named => simp only [ofFields, kind?_eq_some_iff.2 named]
  | invalidAddress named invalid =>
      simp only [ofFields, kind?_eq_some_iff.2 named, address?_eq_none_iff.2 invalid]

theorem describes_or_fails {fields : List (List Char)} (nonempty : fields ≠ []) :
    (∃ request, Describes fields request) ∨ ∃ fault, Fails fields fault := by
  obtain ⟨name, rest, rfl⟩ := List.exists_cons_of_ne_nil nonempty
  cases known : kind? name with
  | none => exact .inr ⟨_, .unknownKind (kind?_eq_none_iff.1 known)⟩
  | some kind =>
      have named := kind?_eq_some_iff.1 known
      match rest with
      | [] => exact .inr ⟨_, .missingAddress named⟩
      | _ :: _ :: _ => exact .inr ⟨_, .unexpectedField named⟩
      | [number] =>
          cases read : address? number with
          | none => exact .inr ⟨_, .invalidAddress named (address?_eq_none_iff.1 read)⟩
          | some address =>
              obtain ⟨value, fits, spells, -⟩ := address?_eq_some_iff_exists.1 read
              exact .inl ⟨_, .access named spells fits⟩

/-! ## Texts of one line -/

section

variable {text : String} {fields : List (List Char)} (single : '\n' ∉ text.toList)
  (cut : Runs (body text.toList) fields)

include single cut

theorem Describes.ofText_eq {request : Request} (describes : Describes fields request) :
    ofText text = .ok [request] := by
  have read : ofLine text.toList = .ok (some request) := by
    rw [ofLine, cut.fields_eq, describes.ofFields_eq]
  rw [ofText_eq_ofLines, Text.splitLines_of_not_mem single, ofLines_cons_of_ok read]
  rfl

theorem Fails.ofText_eq {fault : Fault} (fails : Fails fields fault) :
    ofText text = .error (.malformed 1 fault) := by
  have read : ofLine text.toList = .error fault := by
    rw [ofLine, cut.fields_eq, fails.ofFields_eq]
  rw [ofText_eq_ofLines, Text.splitLines_of_not_mem single, ofLines_cons_of_error read]

end

structure ReadsFields (text : String) : Prop where
  ok_iff : ∀ requests, ofText text = .ok requests ↔
    ∃ fields request, Runs (body text.toList) fields ∧ Describes fields request ∧ requests = [request]
  error_iff : ∀ error, ofText text = .error error ↔
    ∃ fields fault, Runs (body text.toList) fields ∧ Fails fields fault ∧ error = .malformed 1 fault

theorem reads_grammar {text : String} (single : '\n' ∉ text.toList)
    (content : ∃ c ∈ body text.toList, isBlank c = false) : ReadsFields text := by
  obtain ⟨fields, cut⟩ := Text.exists_runs (body text.toList)
  have nonempty : fields ≠ [] := by
    rintro rfl
    obtain ⟨c, mem, solid⟩ := content
    rw [cut.blank c mem] at solid
    cases solid
  refine ⟨fun requests => ⟨fun read => ?_, ?_⟩, fun error => ⟨fun read => ?_, ?_⟩⟩
  · rcases describes_or_fails nonempty with ⟨request, describes⟩ | ⟨fault, fails⟩
    · rw [describes.ofText_eq single cut] at read
      exact ⟨fields, request, cut, describes, (Except.ok.inj read).symm⟩
    · rw [fails.ofText_eq single cut] at read
      cases read
  · rintro ⟨fields, request, cut, describes, rfl⟩
    exact describes.ofText_eq single cut
  · rcases describes_or_fails nonempty with ⟨request, describes⟩ | ⟨fault, fails⟩
    · rw [describes.ofText_eq single cut] at read
      cases read
    · rw [fails.ofText_eq single cut] at read
      exact ⟨fields, fault, cut, fails, (Except.error.inj read).symm⟩
  · rintro ⟨fields, fault, cut, fails, rfl⟩
    exact fails.ofText_eq single cut

/-- A sign and leading zeros after the marker, and a comment right behind the last digit. -/
theorem reads_grammar_signed :
    let text := "w\u3000 0X+00fF# evicts"
    ('\n' ∉ text.toList ∧ ∃ c ∈ body text.toList, isBlank c = false) ∧ ReadsFields text ∧
      ofText text = .ok [{ kind := .write, address := 255 }] := by
  intro text
  have single : '\n' ∉ text.toList := by decide
  have content : ∃ c ∈ body text.toList, isBlank c = false := ⟨'w', by decide, rfl⟩
  have reads : ReadsFields text := reads_grammar single content
  have cut : Runs (body text.toList) [['w'], "0X+00fF".toList] := Text.fields_eq_iff.1 (by decide)
  have numeral : IsNumeral 16 "00fF".toList 255 := by
    refine ⟨by decide, [0, 0, 15, 15], ?_, rfl⟩
    exact .cons (by decide) (.cons (by decide) (.cons (by decide) (.cons (by decide) .nil)))
  have spells : Spells "0X+00fF".toList 255 := .hexadecimal (.inr rfl) (.plus numeral)
  have describes := Describes.access (show (['w'], .write) ∈ kindNames by decide) spells (by decide)
  exact ⟨⟨single, content⟩, reads, (reads.ok_iff _).2 ⟨_, _, cut, describes, rfl⟩⟩

end SetAssoc.Trace
