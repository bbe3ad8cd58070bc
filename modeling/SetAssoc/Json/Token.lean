import SetAssoc.Numeral
/-!
# JSON tokens

The lexer reads a text character by character and keeps, beside the tokens read so far, how far it
is into the next one. It knows no nesting, so texts of any depth are read alike.
-/

namespace SetAssoc.Json

/-- The contents of a string, or `none` if an escape leaves a surrogate without its partner. -/
abbrev Text := Option String

inductive Token where
  | openArray
  | closeArray
  | openObject
  | closeObject
  | colon
  | comma
  | null
  | bool (value : Bool)
  | number (lexeme : String)
  | string (text : Text)
  deriving DecidableEq, Repr

/-! ## Contents of strings -/

inductive Piece where
  | char (c : Char)
  | highSurrogate (bits : Nat)
  | lowSurrogate (bits : Nat)
  deriving DecidableEq, Repr

def Piece.ofCodeUnit (unit : Nat) : Piece :=
  if 0xD800 ≤ unit ∧ unit < 0xDC00 then .highSurrogate (unit - 0xD800)
  else if 0xDC00 ≤ unit ∧ unit < 0xE000 then .lowSurrogate (unit - 0xDC00)
  else .char (Char.ofNat unit)

def joinPieces : List Piece → Option (List Char)
  | [] => some []
  | .char c :: rest => (joinPieces rest).map (c :: ·)
  | .highSurrogate high :: .lowSurrogate low :: rest =>
      (joinPieces rest).map (Char.ofNat (0x10000 + (high <<< 10) + low) :: ·)
  | .highSurrogate _ :: _ => none
  | .lowSurrogate _ :: _ => none

def escaped? : Char → Option Char
  | '"' => some '"'
  | '\\' => some '\\'
  | '/' => some '/'
  | 'b' => some '\x08'
  | 'f' => some '\x0c'
  | 'n' => some '\n'
  | 'r' => some '\r'
  | 't' => some '\t'
  | _ => none

def hexDigit (value : Nat) : Char := Char.ofNat (if value < 10 then 48 + value else 87 + value)

def escape (c : Char) : List Char :=
  match c with
  | '"' => ['\\', '"']
  | '\\' => ['\\', '\\']
  | '\x08' => ['\\', 'b']
  | '\x0c' => ['\\', 'f']
  | '\n' => ['\\', 'n']
  | '\r' => ['\\', 'r']
  | '\t' => ['\\', 't']
  | c =>
      if c.toNat < 32 then
        ['\\', 'u', '0', '0', hexDigit (c.toNat / 16), hexDigit (c.toNat % 16)]
      else
        [c]

/-! ## Numbers -/

def isDigit (c : Char) : Bool := '0' ≤ c && c ≤ '9'

def isExponent : List Char → Bool
  | '+' :: digits | '-' :: digits => !digits.isEmpty && digits.all isDigit
  | digits => !digits.isEmpty && digits.all isDigit

def isNumberTail (tail : List Char) : Bool :=
  match tail with
  | '.' :: rest =>
      !(rest.takeWhile isDigit).isEmpty && isExponentTail (rest.dropWhile isDigit)
  | rest => isExponentTail rest
where
  isExponentTail : List Char → Bool
    | [] => true
    | 'e' :: rest | 'E' :: rest => isExponent rest
    | _ => false

def isUnsignedNumber : List Char → Bool
  | '0' :: rest => isNumberTail rest
  | c :: rest => isDigit c && isNumberTail (rest.dropWhile isDigit)
  | [] => false

def isNumber : List Char → Bool
  | '-' :: rest => isUnsignedNumber rest
  | rest => isUnsignedNumber rest

/-! ## The lexer -/

/-- How far the lexer is into a token; what was read of it is kept in reverse. -/
inductive Mode where
  | between
  | word (read : List Char)
  | number (read : List Char)
  | string (read : List Piece)
  | escape (read : List Piece)
  | codeUnit (read : List Piece) (digits value : Nat)
  deriving DecidableEq, Repr

structure Lexer where
  read : List Token := []
  mode : Mode := .between
  deriving DecidableEq, Repr

namespace Lexer

def isBlank (c : Char) : Bool := c == ' ' || c == '\t' || c == '\n' || c == '\r'

def isWordChar (c : Char) : Bool := 'a' ≤ c && c ≤ 'z'

def isNumberChar (c : Char) : Bool :=
  isDigit c || c == '-' || c == '+' || c == '.' || c == 'e' || c == 'E'

def wordToken? (word : List Char) : Option Token :=
  if word = ['n', 'u', 'l', 'l'] then some .null
  else if word = ['t', 'r', 'u', 'e'] then some (.bool true)
  else if word = ['f', 'a', 'l', 's', 'e'] then some (.bool false)
  else none

def markToken? : Char → Option Token
  | '[' => some .openArray
  | ']' => some .closeArray
  | '\x7b' => some .openObject
  | '\x7d' => some .closeObject
  | ':' => some .colon
  | ',' => some .comma
  | _ => none

def start (read : List Token) (c : Char) : Option Lexer :=
  if isBlank c then some { read }
  else if c = '"' then some { read, mode := .string [] }
  else if isWordChar c then some { read, mode := .word [c] }
  else if isDigit c || c == '-' then some { read, mode := .number [c] }
  else (markToken? c).map fun token => { read := token :: read }

def flush (lexer : Lexer) : Option (List Token) :=
  match lexer.mode with
  | .between => some lexer.read
  | .word word => (wordToken? word.reverse).map (· :: lexer.read)
  | .number number =>
      let lexeme := number.reverse
      if isNumber lexeme then some (.number (.ofList lexeme) :: lexer.read) else none
  | .string _ | .escape _ | .codeUnit .. => none

def readString (tokens : List Token) (read : List Piece) (c : Char) : Option Lexer :=
  if c = '"' then
    some { read := .string ((joinPieces read.reverse).map .ofList) :: tokens }
  else if c = '\\' then some { read := tokens, mode := .escape read }
  else if c.toNat < 32 then none
  else some { read := tokens, mode := .string (.char c :: read) }

def readEscape (tokens : List Token) (read : List Piece) (c : Char) : Option Lexer :=
  if c = 'u' then some { read := tokens, mode := .codeUnit read 4 0 }
  else (escaped? c).map fun c => { read := tokens, mode := .string (.char c :: read) }

def readCodeUnit (tokens : List Token) (read : List Piece) (digits value : Nat) (c : Char) :
    Option Lexer :=
  (digit? 16 c).map fun digit =>
    let value := value * 16 + digit
    if digits ≤ 1 then { read := tokens, mode := .string (.ofCodeUnit value :: read) }
    else { read := tokens, mode := .codeUnit read (digits - 1) value }

def step (lexer : Lexer) (c : Char) : Option Lexer :=
  match lexer.mode with
  | .between => start lexer.read c
  | .word word =>
      if isWordChar c then some { lexer with mode := .word (c :: word) }
      else lexer.flush.bind (start · c)
  | .number number =>
      if isNumberChar c then some { lexer with mode := .number (c :: number) }
      else lexer.flush.bind (start · c)
  | .string read => readString lexer.read read c
  | .escape read => readEscape lexer.read read c
  | .codeUnit read digits value => readCodeUnit lexer.read read digits value c

end Lexer

def tokens? (text : String) : Option (List Token) :=
  (text.toList.foldlM Lexer.step {}).bind fun lexer => lexer.flush.map List.reverse

/-! ## The text of a token -/

def quote (text : String) : List Char := '"' :: text.toList.flatMap escape ++ ['"']

/-- The text of a token. A string without text is written as the lone surrogate U+D800. -/
def Token.text : Token → List Char
  | openArray => ['[']
  | closeArray => [']']
  | openObject => ['\x7b']
  | closeObject => ['\x7d']
  | colon => [':']
  | comma => [',']
  | null => ['n', 'u', 'l', 'l']
  | bool true => ['t', 'r', 'u', 'e']
  | bool false => ['f', 'a', 'l', 's', 'e']
  | number lexeme => lexeme.toList
  | string (some text) => quote text
  | string none => ['"', '\\', 'u', 'd', '8', '0', '0', '"']

end SetAssoc.Json
