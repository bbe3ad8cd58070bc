/-!
# Memory accesses

Addresses are 32-bit byte addresses and words are four bytes wide. The cache works on whole words,
so the two low bits of an address, its byte offset, select nothing.
-/

namespace SetAssoc

def addressBits : Nat := 32

def byteOffsetBits : Nat := 2

def wordBits : Nat := 32

/-- What an access does at its address; instruction fetches count as reads. -/
inductive AccessKind where
  | read
  | write
  deriving DecidableEq, Repr

namespace AccessKind

def isWrite : AccessKind → Bool
  | read => false
  | write => true

def all : List AccessKind := [read, write]

def name : AccessKind → String
  | read => "Read"
  | write => "Write"

end AccessKind

def wordAddress (address : UInt32) : UInt32 :=
  address &&& 0xFFFFFFFC

structure Request where
  kind : AccessKind
  address : UInt32
  deriving DecidableEq, Repr

end SetAssoc
