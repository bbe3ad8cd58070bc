import SetAssoc.Config.Basic
/-!
# Address decomposition

From the top, a 32-bit address holds the tag, the line index, the block index and the two bits of
the byte offset. `Layout` knows the width of the two indices; the tag takes what remains.
-/

namespace SetAssoc

def lowBits (width : Nat) : Nat := (1 <<< width) - 1

structure Location where
  tag : Nat
  line : Nat
  block : Nat
  deriving DecidableEq, Repr

structure Layout where
  blockBits : Nat
  lineBits : Nat
  deriving DecidableEq, Repr

namespace Layout

def lineShift (layout : Layout) : Nat := byteOffsetBits + layout.blockBits

def tagShift (layout : Layout) : Nat := layout.lineShift + layout.lineBits

def blockMask (layout : Layout) : Nat := lowBits layout.blockBits <<< byteOffsetBits

def lineMask (layout : Layout) : Nat := lowBits layout.lineBits <<< layout.lineShift

def tagMask (layout : Layout) : Nat := lowBits (addressBits - layout.tagShift) <<< layout.tagShift

def tagBits (layout : Layout) : Nat :=
  (List.range addressBits).countP fun bit => layout.tagMask.testBit bit

def blockIndex (layout : Layout) (address : UInt32) : Nat :=
  (address.toNat &&& layout.blockMask) >>> byteOffsetBits

def lineIndex (layout : Layout) (address : UInt32) : Nat :=
  (address.toNat &&& layout.lineMask) >>> layout.lineShift

def tag (layout : Layout) (address : UInt32) : Nat :=
  (address.toNat &&& layout.tagMask) >>> layout.tagShift

def split (layout : Layout) (address : UInt32) : Location where
  tag := layout.tag address
  line := layout.lineIndex address
  block := layout.blockIndex address

/-- The word address with the given fields; a field wider than its mask loses its high bits. -/
def join (layout : Layout) (location : Location) : UInt32 :=
  (((location.tag <<< layout.tagShift) &&& layout.tagMask) |||
    ((location.line <<< layout.lineShift) &&& layout.lineMask) |||
    ((location.block <<< byteOffsetBits) &&& layout.blockMask)).toUInt32

end Layout

def Config.layout (config : Config) : Layout where
  blockBits := config.blockBits.toNat
  lineBits := config.lineBits.toNat

end SetAssoc
