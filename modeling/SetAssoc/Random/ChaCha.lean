/-!
# The ChaCha keystream with twelve rounds

A block is computed from a key of eight words and a 64-bit block counter; its sixteen words, in
order, are the next words of the keystream. The stream number is zero.
-/

namespace SetAssoc.ChaCha

abbrev Key := Vector UInt32 8

abbrev Block := Vector UInt32 16

def quarterRound (s : Block) (a b c d : Fin 16) : Block :=
  let rotateLeft (x : UInt32) (n : UInt32) : UInt32 := (x <<< n) ||| (x >>> (32 - n))
  let s := s.set a (s[a] + s[b])
  let s := s.set d (rotateLeft (s[d] ^^^ s[a]) 16)
  let s := s.set c (s[c] + s[d])
  let s := s.set b (rotateLeft (s[b] ^^^ s[c]) 12)
  let s := s.set a (s[a] + s[b])
  let s := s.set d (rotateLeft (s[d] ^^^ s[a]) 8)
  let s := s.set c (s[c] + s[d])
  s.set b (rotateLeft (s[b] ^^^ s[c]) 7)

def doubleRound (s : Block) : Block :=
  let s := quarterRound s 0 4 8 12
  let s := quarterRound s 1 5 9 13
  let s := quarterRound s 2 6 10 14
  let s := quarterRound s 3 7 11 15
  let s := quarterRound s 0 5 10 15
  let s := quarterRound s 1 6 11 12
  let s := quarterRound s 2 7 8 13
  quarterRound s 3 4 9 14

def initialState (key : Key) (counter : UInt64) : Block :=
  (#v[0x61707865, 0x3320646e, 0x79622d32, 0x6b206574] : Vector UInt32 4) ++ key ++
    (#v[counter.toUInt32, (counter >>> 32).toUInt32, 0, 0] : Vector UInt32 4)

/-- Block `counter` of the keystream: six double rounds, added to the state that they started from.
-/
def block (key : Key) (counter : UInt64) : Block :=
  let start := initialState key counter
  let mixed := Nat.repeat doubleRound 6 start
  mixed.zipWith (· + ·) start

def keystreamLength : Nat := 16 <<< 64

def keystreamWord (key : Key) (position : Nat) : UInt32 :=
  (block key (position / 16).toUInt64).get (Fin.ofNat 16 position)

/-! ## Keys from seeds -/

def Key.nextState (state : UInt64) : UInt64 :=
  state * 6364136223846793005 + 11634580027462260723

def Key.output (state : UInt64) : UInt32 :=
  let word := (((state >>> 18) ^^^ state) >>> 27).toUInt32
  let turn := (state >>> 59).toUInt32
  (word >>> turn) ||| (word <<< (32 - turn))

def Key.ofSeed (seed : UInt64) : Key :=
  Vector.ofFn fun i => Key.output (Nat.repeat Key.nextState (i + 1) seed)

end SetAssoc.ChaCha
