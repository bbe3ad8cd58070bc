import SetAssoc.Random.ChaCha
/-!
# Random ways

To pick one of `ways` ways a source takes words until one is accepted and scales that word down. A
word is accepted if the low half of its product with `ways` lies in a zone whose size is a multiple
of `ways`, so that every way is picked by equally many words.
-/

namespace SetAssoc

def wordCount : Nat := 4294967296

def leadingZeros (word : Nat) : Nat := 31 - word.log2

def acceptedZone (ways : Nat) : Nat := (ways <<< leadingZeros ways) - 1

def accepts (ways : Nat) (word : UInt32) : Bool :=
  word.toNat * ways % wordCount ≤ acceptedZone ways

def scale (ways : Nat) (word : UInt32) : Nat := word.toNat * ways / wordCount

theorem accepts_zero (ways : Nat) : accepts ways 0 = true := by
  simp [accepts]

theorem scale_lt {ways : Nat} (h : 0 < ways) (word : UInt32) : scale ways word < ways :=
  Nat.div_lt_of_lt_mul (Nat.mul_lt_mul_of_pos_right word.toNat_lt h)

/-! ## Search in a stream -/

structure SearchPosition (p : Nat → Bool) where
  index : Nat

namespace SearchPosition

/-- A search moves from a position at which `p` fails to the next one, while `p` holds somewhere
ahead. -/
def Follows {p : Nat → Bool} (next position : SearchPosition p) : Prop :=
  next.index = position.index + 1 ∧ p position.index = false ∧ ∃ m, next.index ≤ m ∧ p m = true

theorem acc_follows {p : Nat → Bool} {m : Nat} (found : p m = true) (distance start : Nat)
    (h : start + distance = m) : Acc (Follows (p := p)) ⟨start⟩ := by
  induction distance generalizing start with
  | zero =>
      subst h
      exact ⟨_, fun _ step => absurd found (by simpa using step.2.1)⟩
  | succ distance ih =>
      refine ⟨_, fun ⟨next⟩ step => ?_⟩
      obtain rfl : next = start + 1 := step.1
      exact ih (start + 1) (by omega)

instance (p : Nat → Bool) : WellFoundedRelation (SearchPosition p) where
  rel := Follows
  wf := ⟨fun ⟨_⟩ => ⟨_, fun ⟨next⟩ ⟨_, _, m, hm, found⟩ =>
    acc_follows found (m - next) next (Nat.add_sub_of_le hm)⟩⟩

end SearchPosition

def firstFrom (p : Nat → Bool) (start : Nat) (ahead : ∃ m, start ≤ m ∧ p m = true) : Nat :=
  match h : p start with
  | true => start
  | false =>
      have ahead' : ∃ m, start + 1 ≤ m ∧ p m = true := by
        obtain ⟨m, hm, found⟩ := ahead
        refine ⟨m, ?_, found⟩
        rcases Nat.eq_or_lt_of_le hm with rfl | hlt
        · simp [h] at found
        · exact hlt
      firstFrom p (start + 1) ahead'
  termination_by (⟨start⟩ : SearchPosition p)
  decreasing_by exact ⟨rfl, h, ahead'⟩

/-- Picks one of `ways` ways from a stream: skips the words that are not accepted and scales the
first that is. Also gives the position after that word. -/
def pickFrom (word : Nat → UInt32) (start ways : Nat)
    (ahead : ∃ m, start ≤ m ∧ accepts ways (word m) = true) : Nat × Nat :=
  let found := firstFrom (fun n => accepts ways (word n)) start ahead
  (scale ways (word found), found + 1)

/-! ## Sources -/

/-- A stream of words in which an acceptable word always lies ahead, and the position of the next
word. -/
structure RandomSource where
  word : Nat → UInt32
  fair : ∀ ways start, ∃ m, start ≤ m ∧ accepts ways (word m) = true
  position : Nat := 0

namespace RandomSource

def ofWords (length : Nat) (word : Nat → UInt32) : RandomSource where
  word position := if position < length then word position else 0
  fair ways start :=
    ⟨max start length, Nat.le_max_left _ _, by
      simp [Nat.not_lt.mpr (Nat.le_max_right start length), accepts_zero]⟩

def ofList (words : List UInt32) : RandomSource :=
  ofWords words.length fun position => words[position]?.getD 0

def ofSeed (seed : UInt64) : RandomSource :=
  ofWords ChaCha.keystreamLength (ChaCha.keystreamWord (ChaCha.Key.ofSeed seed))

def defaultSeed : UInt64 := 0x5EEDCAC4E

instance : Inhabited RandomSource := ⟨ofSeed defaultSeed⟩

def pick (source : RandomSource) (ways : Nat) : Nat × RandomSource :=
  let (way, position) :=
    pickFrom source.word source.position ways (source.fair ways source.position)
  (way, { source with position })

theorem pick_lt (source : RandomSource) {ways : Nat} (h : 0 < ways) : (source.pick ways).1 < ways :=
  scale_lt h _

def describe (_ : RandomSource) : String := "RandomSource \x7b .. \x7d"

end RandomSource

end SetAssoc
