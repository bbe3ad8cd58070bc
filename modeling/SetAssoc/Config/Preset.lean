import SetAssoc.Config.Basic
/-!
# Presets

A preset is a configuration with a name. The built-in ones all hold 128 words and differ in how the
words are arranged.
-/

namespace SetAssoc

structure Preset where
  name : String
  config : Config
  deriving DecidableEq, Repr

def Preset.builtin : List Preset :=
  [{ name := "32-entry 4-word direct-mapped", config := {} },
   { name := "16-entry 4-word 2-way set associative", config := { lineBits := 4, wayBits := 1 } },
   { name := "8-entry 4-word 4-way set associative", config := { lineBits := 3, wayBits := 2 } },
   { name := "32-way 4-word fully associative", config := { lineBits := 0, wayBits := 5 } }]

end SetAssoc
