import SetAssoc.Json.Token
/-!
# JSON values

A value is built from its tokens with a stack of the arrays and objects that are still open, so that
nesting of any depth is read alike.
-/

namespace SetAssoc.Json

/-- A JSON value. Numbers are kept as they are written, and objects keep the order of their members
and members whose keys repeat. -/
inductive Value where
  | null
  | bool (value : Bool)
  | number (lexeme : String)
  | string (text : Text)
  | array (items : List Value)
  | object (members : List (Text × Value))
  deriving Repr

namespace Value

instance : Inhabited Value := ⟨null⟩

def ofNat (n : Nat) : Value := number n.repr

def ofString (text : String) : Value := string (some text)

def ofMembers (members : List (String × Value)) : Value :=
  object (members.map fun (key, value) => (some key, value))

def isNull : Value → Bool
  | null => true
  | _ => false

/-! ## Values from tokens -/

inductive Frame where
  | array (items : List Value)
  | object (members : List (Text × Value)) (key : Text)

/-- What is expected next, within the given open arrays and objects, the innermost first. -/
inductive Expectation where
  | value (outer : List Frame)
  | item (outer : List Frame)
  | member (outer : List Frame)
  | key (members : List (Text × Value)) (outer : List Frame)
  | colon (members : List (Text × Value)) (key : Text) (outer : List Frame)
  | after (value : Value) (outer : List Frame)

namespace Expectation

def beginValue (outer : List Frame) : Token → Option Expectation
  | .null => some (.after .null outer)
  | .bool b => some (.after (.bool b) outer)
  | .number lexeme => some (.after (.number lexeme) outer)
  | .string text => some (.after (.string text) outer)
  | .openArray => some (.item outer)
  | .openObject => some (.member outer)
  | _ => none

def resume (value : Value) : List Frame → Token → Option Expectation
  | .array items :: outer, .comma => some (.value (.array (value :: items) :: outer))
  | .array items :: outer, .closeArray => some (.after (.array (value :: items).reverse) outer)
  | .object members name :: outer, .comma => some (.key ((name, value) :: members) outer)
  | .object members name :: outer, .closeObject =>
      some (.after (.object ((name, value) :: members).reverse) outer)
  | _, _ => none

def step (expectation : Expectation) (token : Token) : Option Expectation :=
  match expectation with
  | value outer => beginValue outer token
  | item outer =>
      match token with
      | .closeArray => some (after (.array []) outer)
      | token => beginValue (.array [] :: outer) token
  | member outer =>
      match token with
      | .closeObject => some (after (.object []) outer)
      | .string text => some (colon [] text outer)
      | _ => none
  | key members outer =>
      match token with
      | .string text => some (colon members text outer)
      | _ => none
  | colon members name outer =>
      match token with
      | .colon => some (value (.object members name :: outer))
      | _ => none
  | after read outer => resume read outer token

end Expectation

def ofTokens? (tokens : List Token) : Option Value :=
  match tokens.foldlM Expectation.step (.value []) with
  | some (.after value []) => some value
  | _ => none

def parse? (text : String) : Option Value := (tokens? text).bind ofTokens?

/-! ## Printing -/

mutual

def tokens : Value → List Token
  | null => [.null]
  | bool b => [.bool b]
  | number lexeme => [.number lexeme]
  | string text => [.string text]
  | array [] => [.openArray, .closeArray]
  | array (item :: items) => .openArray :: tokens item ++ itemTokens items
  | object [] => [.openObject, .closeObject]
  | object ((key, value) :: members) =>
      .openObject :: .string key :: .colon :: tokens value ++ memberTokens members

def itemTokens : List Value → List Token
  | [] => [.closeArray]
  | item :: items => .comma :: tokens item ++ itemTokens items

def memberTokens : List (Text × Value) → List Token
  | [] => [.closeObject]
  | (key, value) :: members =>
      .comma :: .string key :: .colon :: tokens value ++ memberTokens members

end

def compact (value : Value) : String := .ofList (value.tokens.flatMap Token.text)

def newLine (depth : Nat) : String := String.ofList ('\n' :: List.replicate (2 * depth) ' ')

def keyText (key : Text) : String := .ofList ((Token.string key).text ++ [':', ' '])

mutual

def prettyAt (depth : Nat) : Value → String
  | array (item :: items) =>
      "[" ++ newLine (depth + 1) ++ prettyAt (depth + 1) item ++ prettyItems depth items
  | object ((key, value) :: members) =>
      "\x7b" ++ newLine (depth + 1) ++ keyText key ++ prettyAt (depth + 1) value ++
        prettyMembers depth members
  | value => .ofList (value.tokens.flatMap Token.text)

def prettyItems (depth : Nat) : List Value → String
  | [] => newLine depth ++ "]"
  | item :: items =>
      "," ++ newLine (depth + 1) ++ prettyAt (depth + 1) item ++ prettyItems depth items

def prettyMembers (depth : Nat) : List (Text × Value) → String
  | [] => newLine depth ++ "\x7d"
  | (key, value) :: members =>
      "," ++ newLine (depth + 1) ++ keyText key ++ prettyAt (depth + 1) value ++
        prettyMembers depth members

end

def pretty (value : Value) : String := value.prettyAt 0

end Value

end SetAssoc.Json
