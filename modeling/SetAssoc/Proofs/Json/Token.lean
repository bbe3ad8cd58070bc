import Mathlib.Data.List.Chain
import SetAssoc.Proofs.Json.Number

/-!
# The grammar of tokens

How tokens may be written is given here by relations. The lexer reads tokens back from every text of
them, given that no word or number stands directly before another.
-/

namespace SetAssoc.Json

/-! ## Strings -/

def escapes : List (Char × Char) :=
  [('"', '"'), ('\\', '\\'), ('/', '/'), ('b', '\x08'), ('f', '\x0c'), ('n', '\n'), ('r', '\r'),
    ('t', '\t')]

inductive SpellsPiece : List Char → Piece → Prop
  | plain {c : Char} (printable : 32 ≤ c.toNat) (noQuote : c ≠ '"') (noBackslash : c ≠ '\\') :
      SpellsPiece [c] (.char c)
  | escape {letter c : Char} (known : (letter, c) ∈ escapes) : SpellsPiece ['\\', letter] (.char c)
  | char {digits : List Char} {c : Char} (four : digits.length = 4)
      (numeral : IsNumeral 16 digits c.toNat) : SpellsPiece ('\\' :: 'u' :: digits) (.char c)
  | high {digits : List Char} {bits : Nat} (four : digits.length = 4) (bound : bits < 0x400)
      (numeral : IsNumeral 16 digits (0xD800 + bits)) :
      SpellsPiece ('\\' :: 'u' :: digits) (.highSurrogate bits)
  | low {digits : List Char} {bits : Nat} (four : digits.length = 4) (bound : bits < 0x400)
      (numeral : IsNumeral 16 digits (0xDC00 + bits)) :
      SpellsPiece ('\\' :: 'u' :: digits) (.lowSurrogate bits)

namespace Piece

theorem ofCodeUnit_high {bits : Nat} (bound : bits < 0x400) :
    ofCodeUnit (0xD800 + bits) = .highSurrogate bits := by
  rw [ofCodeUnit, if_pos (by omega), Nat.add_sub_cancel_left]

theorem ofCodeUnit_low {bits : Nat} (bound : bits < 0x400) :
    ofCodeUnit (0xDC00 + bits) = .lowSurrogate bits := by
  rw [ofCodeUnit, if_neg (by omega), if_pos (by omega), Nat.add_sub_cancel_left]

theorem ofCodeUnit_char (c : Char) : ofCodeUnit c.toNat = .char c := by
  have valid : c.toNat < 0xD800 ∨ 0xDFFF < c.toNat ∧ c.toNat < 0x110000 := c.valid
  rw [ofCodeUnit, if_neg (by omega), if_neg (by omega), Char.ofNat_toNat]

end Piece

namespace Lexer

@[simp]
theorem flush_between (tokens : List Token) : flush { read := tokens } = some tokens := rfl

@[simp]
theorem step_between (tokens : List Token) (c : Char) :
    step { read := tokens } c = start tokens c := rfl

variable {tokens : List Token} {read : List Piece}

theorem foldlM_codeUnit {digits : List Char} {count start unit : Nat}
    (length : digits.length = count + 1) (value : numeralFrom? 16 start digits = some unit) :
    digits.foldlM step { read := tokens, mode := .codeUnit read (count + 1) start } =
      some { read := tokens, mode := .string (.ofCodeUnit unit :: read) } := by
  induction digits generalizing count start with
  | nil => cases length
  | cons c rest ih =>
      obtain ⟨first, digit, value⟩ : ∃ first, digit? 16 c = some first ∧
          numeralFrom? 16 (start * 16 + first) rest = some unit := by
        simpa [numeralFrom?, Option.bind_eq_some_iff] using value
      rw [List.length_cons, Nat.succ_inj] at length
      cases count with
      | zero =>
          rw [List.length_eq_zero_iff.1 length] at value ⊢
          cases value
          simp [step, readCodeUnit, digit]
      | succ count =>
          have rests := ih length value
          simpa [step, readCodeUnit, digit] using rests

theorem foldlM_escapedUnit {digits : List Char} {unit : Nat} (four : digits.length = 4)
    (numeral : IsNumeral 16 digits unit) :
    ('\\' :: 'u' :: digits).foldlM step { read := tokens, mode := .string read } =
      some { read := tokens, mode := .string (.ofCodeUnit unit :: read) } := by
  have value : numeralFrom? 16 0 digits = some unit := by
    have read := (numeral?_eq_some_iff (by decide)).2 numeral
    rwa [numeral?, if_neg (by simpa using numeral.1)] at read
  exact foldlM_codeUnit four value

theorem escaped?_of_mem {letter c : Char} (known : (letter, c) ∈ escapes) :
    letter ≠ 'u' ∧ escaped? letter = some c := by
  simp only [escapes, List.mem_cons, Prod.mk.injEq, List.not_mem_nil, or_false] at known
  rcases known with ⟨rfl, rfl⟩ | ⟨rfl, rfl⟩ | ⟨rfl, rfl⟩ | ⟨rfl, rfl⟩ | ⟨rfl, rfl⟩ | ⟨rfl, rfl⟩ |
    ⟨rfl, rfl⟩ | ⟨rfl, rfl⟩ <;> exact ⟨by decide, rfl⟩

theorem foldlM_piece {text : List Char} {piece : Piece} (spells : SpellsPiece text piece) :
    text.foldlM step { read := tokens, mode := .string read } =
      some { read := tokens, mode := .string (piece :: read) } := by
  cases spells with
  | plain printable noQuote noBackslash =>
      simp [step, readString, noQuote, noBackslash, Nat.not_lt.2 printable]
  | escape known =>
      obtain ⟨noUnit, escaped⟩ := escaped?_of_mem known
      simp [step, readString, readEscape, noUnit, escaped]
  | char four numeral => rw [foldlM_escapedUnit four numeral, Piece.ofCodeUnit_char]
  | high four bound numeral => rw [foldlM_escapedUnit four numeral, Piece.ofCodeUnit_high bound]
  | low four bound numeral => rw [foldlM_escapedUnit four numeral, Piece.ofCodeUnit_low bound]

theorem foldlM_pieces {texts : List (List Char)} {pieces : List Piece}
    (spells : List.Forall₂ SpellsPiece texts pieces) :
    texts.flatten.foldlM step { read := tokens, mode := .string read } =
      some { read := tokens, mode := .string (pieces.reverse ++ read) } := by
  induction spells generalizing read with
  | nil => rfl
  | cons first _ ih => simp [foldlM_piece first, ih]

end Lexer

/-! ## Reading tokens -/

def Delimits (text : List Char) : Prop :=
  ∀ c ∈ text.head?, Lexer.isWordChar c = false ∧ Lexer.isNumberChar c = false

namespace Token

def isOpen : Token → Bool
  | null | bool _ | number _ => true
  | _ => false

end Token

/-- The tokens of a text that follows other tokens, these in reverse. -/
def tokensAfter? (read : List Token) (text : List Char) : Option (List Token) :=
  (text.foldlM Lexer.step { read }).bind fun lexer => lexer.flush.map List.reverse

theorem tokensAfter?_append {read next : List Token} {text : List Char} (rest : List Char)
    (reads : text.foldlM Lexer.step { read } = some { read := next }) :
    tokensAfter? read (text ++ rest) = tokensAfter? next rest := by
  simp [tokensAfter?, reads]

theorem tokensAfter?_append_open {read next : List Token} {text rest : List Char} {lexer : Lexer}
    (reads : text.foldlM Lexer.step { read } = some lexer) (flush : lexer.flush = some next)
    (ends : ∀ c ∈ rest.head?, lexer.step c = Lexer.start next c) :
    tokensAfter? read (text ++ rest) = tokensAfter? next rest := by
  rw [tokensAfter?, List.foldlM_append, reads]
  cases rest with
  | nil => simp [tokensAfter?, flush]
  | cons c rest =>
      have begins : lexer.step c = Lexer.start next c := ends c rfl
      simp [tokensAfter?, begins]

section

variable {read : List Token} {rest : List Char}

theorem tokensAfter?_word {word : List Char} {token : Token} (delimits : Delimits rest)
    (reads : word.foldlM Lexer.step { read } = some { read, mode := .word word.reverse })
    (known : Lexer.wordToken? word = some token) :
    tokensAfter? read (word ++ rest) = tokensAfter? (token :: read) rest := by
  have flush : Lexer.flush { read, mode := .word word.reverse } = some (token :: read) := by
    simp [Lexer.flush, known]
  apply tokensAfter?_append_open reads flush
  intro c mem
  simp [Lexer.step, (delimits c mem).1, flush]

theorem Lexer.foldlM_number {text : List Char} (all : ∀ c ∈ text, Lexer.isNumberChar c = true)
    (begun : List Char) :
    text.foldlM Lexer.step { read, mode := .number begun } =
      some { read, mode := .number (text.reverse ++ begun) } := by
  induction text generalizing begun with
  | nil => rfl
  | cons c rest ih =>
      rw [List.forall_mem_cons] at all
      simp [Lexer.step, all.1, ih all.2]

theorem Lexer.start_number {c : Char} (begins : isDigit c = true ∨ c = '-') :
    Lexer.start read c = some { read, mode := .number [c] } := by
  have blank : isBlank c = false := by
    simp only [isBlank, Bool.or_eq_false_iff, beq_eq_false_iff_ne]
    rcases begins with digit | rfl
    · refine ⟨⟨⟨?_, ?_⟩, ?_⟩, ?_⟩ <;> rintro rfl <;> exact absurd digit (by decide)
    · decide
  have quote : c ≠ '"' := by
    rintro rfl
    exact absurd begins (by decide)
  have word : isWordChar c = false := by
    rcases begins with digit | rfl
    · exact isWordChar_of_isDigit digit
    · rfl
  have digit : (isDigit c || c == '-') = true := by simpa using begins
  simp [start, blank, quote, word, digit]

theorem tokensAfter?_number {lexeme : String} (delimits : Delimits rest)
    (number : IsNumber lexeme.toList) :
    tokensAfter? read (lexeme.toList ++ rest) = tokensAfter? (.number lexeme :: read) rest := by
  obtain ⟨first, digits, text, begins, all⟩ := number.exists_cons
  have reads : lexeme.toList.foldlM Lexer.step { read } =
      some { read, mode := .number lexeme.toList.reverse } := by
    simp [text, Lexer.start_number begins, Lexer.foldlM_number all]
  have flush : Lexer.flush { read, mode := .number lexeme.toList.reverse } =
      some (.number lexeme :: read) := by
    simp [Lexer.flush, number.isNumber_eq]
  apply tokensAfter?_append_open reads flush
  intro c mem
  simp [Lexer.step, (delimits c mem).2, flush]

end

/-! ## Spellings of tokens -/

inductive SpellsToken : List Char → Token → Prop
  | openArray : SpellsToken ['['] .openArray
  | closeArray : SpellsToken [']'] .closeArray
  | openObject : SpellsToken ['\x7b'] .openObject
  | closeObject : SpellsToken ['\x7d'] .closeObject
  | colon : SpellsToken [':'] .colon
  | comma : SpellsToken [','] .comma
  | wordNull : SpellsToken ['n', 'u', 'l', 'l'] .null
  | wordTrue : SpellsToken ['t', 'r', 'u', 'e'] (.bool true)
  | wordFalse : SpellsToken ['f', 'a', 'l', 's', 'e'] (.bool false)
  | number {lexeme : String} (number : IsNumber lexeme.toList) :
      SpellsToken lexeme.toList (.number lexeme)
  | string {texts : List (List Char)} {pieces : List Piece}
      (spells : List.Forall₂ SpellsPiece texts pieces) :
      SpellsToken ('"' :: texts.flatten ++ ['"']) (.string ((joinPieces pieces).map .ofList))

namespace SpellsToken

variable {text rest : List Char} {token : Token} {read : List Token}

theorem tokensAfter?_string {texts : List (List Char)} {pieces : List Piece}
    (spells : List.Forall₂ SpellsPiece texts pieces) :
    tokensAfter? read ('"' :: texts.flatten ++ ['"'] ++ rest) =
      tokensAfter? (.string ((joinPieces pieces).map .ofList) :: read) rest := by
  have opened : Lexer.step { read } '"' = some { read, mode := .string [] } := rfl
  have closed : Lexer.step { read, mode := .string pieces.reverse } '"' =
      some { read := .string ((joinPieces pieces).map .ofList) :: read } := by
    simp [Lexer.step, Lexer.readString]
  apply tokensAfter?_append
  simp [opened, Lexer.foldlM_pieces spells, closed]

theorem tokensAfter?_eq (spells : SpellsToken text token)
    (delimits : token.isOpen = true → Delimits rest) :
    tokensAfter? read (text ++ rest) = tokensAfter? (token :: read) rest := by
  cases spells with
  | wordNull | wordTrue | wordFalse => exact tokensAfter?_word (delimits rfl) rfl rfl
  | number number => exact tokensAfter?_number (delimits rfl) number
  | string pieces => exact tokensAfter?_string pieces
  | openArray | closeArray | openObject | closeObject | colon | comma =>
      exact tokensAfter?_append rest rfl

theorem delimits (spells : SpellsToken text token) (closed : token.isOpen = false) :
    Delimits (text ++ rest) := by
  intro c mem
  cases spells with
  | wordNull | wordTrue | wordFalse | number => contradiction
  | openArray | closeArray | openObject | closeObject | colon | comma | string =>
      cases Option.mem_some.1 mem
      exact ⟨rfl, rfl⟩

end SpellsToken

/-! ## Sequences of tokens -/

def Token.Before (token next : Token) : Prop := token.isOpen = true → next.isOpen = false

theorem isChain_cons_of_closed {token : Token} {rest : List Token} (closed : token.isOpen = false) :
    (token :: rest).IsChain Token.Before ↔ rest.IsChain Token.Before := by
  simp [List.isChain_cons, Token.Before, closed]

theorem isChain_append_of_closed {first others : List Token}
    (separated : first.IsChain Token.Before) (separatedOthers : others.IsChain Token.Before)
    (closed : ∀ token ∈ others.head?, token.isOpen = false) :
    (first ++ others).IsChain Token.Before :=
  separated.append separatedOthers fun _ _ next mem _ => closed next mem

def AreBlanks (text : List Char) : Prop := ∀ c ∈ text, c ∈ [' ', '\t', '\n', '\r']

inductive WritesTokens : List Char → List Token → Prop
  | nil {blanks : List Char} (areBlanks : AreBlanks blanks) : WritesTokens blanks []
  | cons {blanks text rest : List Char} {token : Token} {tokens : List Token}
      (areBlanks : AreBlanks blanks) (spells : SpellsToken text token)
      (writes : WritesTokens rest tokens) : WritesTokens (blanks ++ (text ++ rest)) (token :: tokens)

theorem tokensAfter?_blanks {blanks : List Char} (areBlanks : AreBlanks blanks) (read : List Token)
    (rest : List Char) : tokensAfter? read (blanks ++ rest) = tokensAfter? read rest := by
  induction blanks with
  | nil => rfl
  | cons c blanks ih =>
      obtain ⟨blank, areBlanks⟩ := List.forall_mem_cons.1 areBlanks
      have skips : Lexer.start read c = some { read } := by
        simp only [List.mem_cons, List.not_mem_nil, or_false] at blank
        rcases blank with rfl | rfl | rfl | rfl <;> rfl
      have skipped :
          tokensAfter? read (c :: (blanks ++ rest)) = tokensAfter? read (blanks ++ rest) := by
        simp [tokensAfter?, skips]
      rw [List.cons_append, skipped, ih areBlanks]

theorem delimits_blanks {blanks rest : List Char} (areBlanks : AreBlanks blanks)
    (delimits : Delimits rest) : Delimits (blanks ++ rest) := by
  cases blanks with
  | nil => exact delimits
  | cons c blanks =>
      intro first mem
      cases Option.mem_some.1 mem
      have blank := areBlanks c List.mem_cons_self
      simp only [List.mem_cons, List.not_mem_nil, or_false] at blank
      rcases blank with rfl | rfl | rfl | rfl <;> exact ⟨rfl, rfl⟩

namespace WritesTokens

variable {text : List Char} {tokens : List Token}

theorem delimits (writes : WritesTokens text tokens)
    (closed : ∀ token ∈ tokens.head?, token.isOpen = false) : Delimits text := by
  cases writes with
  | nil areBlanks =>
      rw [← List.append_nil text]
      exact delimits_blanks areBlanks (by simp [Delimits])
  | cons areBlanks spells _ => exact delimits_blanks areBlanks (spells.delimits (closed _ rfl))

theorem tokensAfter?_eq (writes : WritesTokens text tokens) (separated : tokens.IsChain Token.Before)
    (read : List Token) : tokensAfter? read text = some (read.reverse ++ tokens) := by
  induction writes generalizing read with
  | nil areBlanks =>
      have skipped := tokensAfter?_blanks areBlanks read []
      simpa [tokensAfter?] using skipped
  | @cons _ _ _ token tokens areBlanks spells writes ih =>
      have ends : token.isOpen = true → Delimits _ := fun isOpen =>
        writes.delimits fun next mem => (List.isChain_cons.1 separated).1 next mem isOpen
      rw [tokensAfter?_blanks areBlanks, spells.tokensAfter?_eq ends, ih separated.tail]
      simp

theorem tokens?_eq {text : String} (writes : WritesTokens text.toList tokens)
    (separated : tokens.IsChain Token.Before) : tokens? text = some tokens := by
  simpa [tokens?, tokensAfter?] using writes.tokensAfter?_eq separated []

end WritesTokens

/-! ## The shortest texts -/

theorem digit?_hexDigit : ∀ value < 16, digit? 16 (hexDigit value) = some value := by decide

theorem joinPieces_map_char (text : List Char) : joinPieces (text.map .char) = some text := by
  induction text with
  | nil => rfl
  | cons c rest ih => simp [joinPieces, ih]

theorem isNumeral_control {c : Char} (control : c.toNat < 32) :
    IsNumeral 16 ['0', '0', hexDigit (c.toNat / 16), hexDigit (c.toNat % 16)] c.toNat := by
  have high := digit?_hexDigit (c.toNat / 16) (by omega)
  have low := digit?_hexDigit (c.toNat % 16) (by omega)
  have zero : digit? 16 '0' = some 0 := by decide
  have value : c.toNat / 16 * 16 + c.toNat % 16 = c.toNat := by omega
  rw [← numeral?_eq_some_iff (by decide)]
  simp [numeral?, numeralFrom?, high, low, zero, value]

theorem spellsPiece_escape (c : Char) : SpellsPiece (escape c) (.char c) := by
  unfold escape
  split
  case h_8 _ noQuote noBackslash _ _ _ _ _ =>
    split
    next control => exact .char rfl (isNumeral_control control)
    next printable => exact .plain (Nat.le_of_not_lt printable) noQuote noBackslash
  all_goals exact .escape (by decide)

theorem spellsPieces_escape (text : List Char) :
    List.Forall₂ SpellsPiece (text.map escape) (text.map .char) := by
  rw [List.forall₂_map_left_iff, List.forall₂_map_right_iff, List.forall₂_same]
  exact fun c _ => spellsPiece_escape c

def Token.Readable : Token → Prop
  | number lexeme => IsNumber lexeme.toList
  | _ => True

theorem spellsToken_text {token : Token} (readable : token.Readable) :
    SpellsToken token.text token := by
  cases token with
  | openArray => exact .openArray
  | closeArray => exact .closeArray
  | openObject => exact .openObject
  | closeObject => exact .closeObject
  | colon => exact .colon
  | comma => exact .comma
  | null => exact .wordNull
  | bool value =>
      cases value with
      | true => exact .wordTrue
      | false => exact .wordFalse
  | number lexeme => exact .number readable
  | string text =>
      cases text with
      | none =>
          have lone : SpellsPiece ['\\', 'u', 'd', '8', '0', '0'] (.highSurrogate 0) :=
            .high rfl (by decide) ((numeral?_eq_some_iff (by decide)).1 (by decide))
          exact .string (.cons lone .nil)
      | some text =>
          have spelled := SpellsToken.string (spellsPieces_escape text.toList)
          rwa [joinPieces_map_char, ← List.flatMap_def, Option.map_some, String.ofList_toList] at spelled

example : quote "\"\\\x01😀" = "\"\\\"\\\\\\u0001😀\"".toList := by decide

theorem writesTokens_text {tokens : List Token} (readable : ∀ token ∈ tokens, token.Readable) :
    WritesTokens (tokens.flatMap Token.text) tokens := by
  induction tokens with
  | nil => exact .nil nofun
  | cons token rest ih =>
      obtain ⟨first, readable⟩ := List.forall_mem_cons.1 readable
      have noBlanks : AreBlanks [] := nofun
      exact .cons noBlanks (spellsToken_text first) (ih readable)

end SetAssoc.Json
