/-!
# Lines and blanks of a text

Texts are lists of characters here. A line ends at a line feed; a blank is any character with the
Unicode property White_Space.
-/

namespace SetAssoc.Text

def blanks : List Nat := [0x20, 0x85, 0xA0, 0x1680, 0x2028, 0x2029, 0x202F, 0x205F, 0x3000]

def isBlank (c : Char) : Bool :=
  (0x09 ≤ c.toNat && c.toNat ≤ 0x0D) || (0x2000 ≤ c.toNat && c.toNat ≤ 0x200A) ||
    blanks.contains c.toNat

def splitLines (text : List Char) : List (List Char) :=
  text.foldr (fun c lines =>
    if c = '\n' then [] :: lines
    else
      match lines with
      | line :: rest => (c :: line) :: rest
      | [] => [[c]]) [[]]

def dropReturn (line : List Char) : List Char :=
  if line.getLast? = some '\r' then line.dropLast else line

/-- A line that a line feed ends loses a carriage return before it, and the last line need not be
ended. -/
def dropEnds : List (List Char) → List (List Char)
  | [] => []
  | [last] => if last.isEmpty then [] else [last]
  | line :: rest => dropReturn line :: dropEnds rest

def lines (text : List Char) : List (List Char) := dropEnds (splitLines text)

/-- The fields of a line before the field that `current`, in reverse, is the beginning of. -/
def fieldsAfter (current : List Char) : List Char → List (List Char)
  | [] => if current.isEmpty then [] else [current.reverse]
  | c :: rest =>
      if isBlank c then
        if current.isEmpty then fieldsAfter [] rest
        else current.reverse :: fieldsAfter [] rest
      else
        fieldsAfter (c :: current) rest

def fields (line : List Char) : List (List Char) := fieldsAfter [] line

end SetAssoc.Text
