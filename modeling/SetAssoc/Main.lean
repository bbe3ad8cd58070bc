import SetAssoc.CommandLine
/-!
# The program

Reads the files that the command names, carries the command out and prints its result.
-/

open SetAssoc

def usage : String :=
  "usage: setassoc run [--config FILE] --trace FILE [--json] [--sections NAME,NAME]\n" ++
  "       setassoc presets\n" ++
  "       setassoc size [--config FILE]\n"

def readContents (name : String) : IO (Option ByteArray) := do
  try
    return some (← IO.FS.readBinFile name)
  catch _ =>
    return none

def main (arguments : List String) : IO UInt32 := do
  match Command.parse? arguments with
  | none =>
      IO.eprint usage
      return 2
  | some command =>
      let files ← command.files.mapM fun name => return (name, ← readContents name)
      let result := command.execute fun name => (files.lookup name).join
      IO.print result.output
      IO.eprint result.errors
      return result.exitCode.toUInt32
