/-!
# Files

The contents of a file are its bytes, or nothing if there is no such file. A text is valid UTF-8.
-/

namespace SetAssoc.File

inductive Fault where
  | missing
  | notUtf8
  deriving DecidableEq, Repr

def Fault.message : Fault → String
  | missing => "No such file or directory (os error 2)"
  | notUtf8 => "stream did not contain valid UTF-8"

def text (contents : Option ByteArray) : Except Fault String :=
  match contents with
  | none => .error .missing
  | some bytes =>
      match String.fromUTF8? bytes with
      | some text => .ok text
      | none => .error .notUtf8

end SetAssoc.File
