import SetAssoc.Access
import SetAssoc.File
import SetAssoc.Numeral
import SetAssoc.Text
/-!
# Memory traces

A trace is a text with one access per line: `R` or `W`, in either case, and an address in decimal
or, after `0x`, in hexadecimal. A `#` starts a comment, and lines without any field are skipped.
-/

namespace SetAssoc.Trace

inductive Fault where
  | unknownKind (field : String)
  | missingAddress
  | unexpectedField (field : String)
  | invalidAddress (field : String)
  deriving DecidableEq, Repr

def Fault.reason : Fault → String
  | unknownKind field => "unknown access kind `" ++ field ++ "`"
  | missingAddress => "missing address"
  | unexpectedField field => "unexpected field `" ++ field ++ "`"
  | invalidAddress field => "invalid address `" ++ field ++ "`"

inductive Error where
  | unreadable (fault : File.Fault)
  | malformed (line : Nat) (fault : Fault)
  deriving DecidableEq, Repr

def Error.message : Error → String
  | unreadable fault => s!"failed to read trace: {fault.message}"
  | malformed line fault => s!"line {line}: {fault.reason}"

/-! ## Lines -/

def kind? : List Char → Option AccessKind
  | ['R'] | ['r'] => some .read
  | ['W'] | ['w'] => some .write
  | _ => none

def unsigned? (radix : Nat) : List Char → Option UInt32
  | '+' :: digits => word? radix digits
  | digits => word? radix digits

def address? : List Char → Option UInt32
  | '0' :: 'x' :: digits | '0' :: 'X' :: digits => unsigned? 16 digits
  | digits => unsigned? 10 digits

def ofFields : List (List Char) → Except Fault (Option Request)
  | [] => .ok none
  | kind :: rest =>
      match kind? kind, rest with
      | none, _ => .error (.unknownKind (.ofList kind))
      | some _, [] => .error .missingAddress
      | some _, _ :: extra :: _ => .error (.unexpectedField (.ofList extra))
      | some kind, [field] =>
          match address? field with
          | some address => .ok (some { kind, address })
          | none => .error (.invalidAddress (.ofList field))

def body (line : List Char) : List Char := line.takeWhile (· != '#')

def ofLine (line : List Char) : Except Fault (Option Request) := ofFields (Text.fields (body line))

/-! ## Texts and files -/

def ofLines (number : Nat) (lines : List (List Char)) : Except Error (List Request) := do
  let requests ← (lines.zipIdx number).mapM fun (line, number) =>
    (ofLine line).mapError (.malformed number)
  return requests.filterMap id

def ofText (text : String) : Except Error (List Request) := ofLines 1 (Text.lines text.toList)

def ofFile (contents : Option ByteArray) : Except Error (List Request) :=
  match File.text contents with
  | .ok text => ofText text
  | .error fault => .error (.unreadable fault)

end SetAssoc.Trace
