import Mathlib.Algebra.BigOperators.Group.Finset.Basic
import Mathlib.Algebra.Order.Floor.Div
import Mathlib.Data.Set.Card
import Mathlib.Order.Interval.Finset.Nat
import SetAssoc.Proofs.Random.Sampling

/-!
# Every way is picked by equally many words

A word picks a way if its product with the number of ways lies in a zone above the multiple of
`wordCount` that belongs to the way. All zones are equally wide, and their width is a multiple of
the number of ways, so each contains the products of equally many words.
-/

namespace SetAssoc

def Picks (ways way : Nat) (word : UInt32) : Prop :=
  accepts ways word = true ∧ scale ways word = way

instance (ways way : Nat) (word : UInt32) : Decidable (Picks ways way word) :=
  inferInstanceAs (Decidable (_ ∧ _))

/-- The numbers whose products with `ways` lie in the zone of a way. They are consecutive. -/
def pickers (ways way : Nat) : Finset Nat :=
  Finset.Ico (way * wordCount ⌈/⌉ ways) (way * wordCount ⌈/⌉ ways + share ways)

variable {ways way : Nat} {word : UInt32}

theorem ceilDiv_add_le_iff (positive : 0 < ways) {start size n : Nat} :
    start ⌈/⌉ ways + size ≤ n ↔ start + ways * size ≤ ways * n := by
  rcases Nat.lt_or_ge n size with short | long
  · have := Nat.mul_lt_mul_of_pos_left short positive
    omega
  · obtain ⟨rest, rfl⟩ := Nat.exists_eq_add_of_le' long
    rw [Nat.add_le_add_iff_right, ceilDiv_le_iff_le_mul positive, Nat.mul_add,
      Nat.add_le_add_iff_right]

theorem mem_pickers (positive : 0 < ways) {n : Nat} : n ∈ pickers ways way ↔
    way * wordCount ≤ ways * n ∧ ways * n < way * wordCount + ways * share ways := by
  rw [pickers, Finset.mem_Ico, ceilDiv_le_iff_le_mul positive]
  apply and_congr_right'
  rw [← Nat.not_le, ceilDiv_add_le_iff positive, Nat.not_le]

theorem card_pickers : (pickers ways way).card = share ways := by
  rw [pickers, Nat.card_Ico, Nat.add_sub_cancel_left]

theorem accepts_iff (positive : 0 < ways) :
    accepts ways word = true ↔ word.toNat * ways % wordCount < ways * share ways := by
  have zone_pos : 0 < ways * share ways := Nat.mul_pos positive (Nat.two_pow_pos _)
  rw [accepts, decide_eq_true_iff, acceptedZone_eq]
  exact Nat.le_sub_one_iff_lt zone_pos

theorem picks_iff (positive : 0 < ways) (bound : ways < wordCount) :
    Picks ways way word ↔ word.toNat ∈ pickers ways way := by
  have zone_lt := mul_share_lt bound
  rw [Picks, accepts_iff positive, scale, Nat.mul_comm word.toNat, mem_pickers positive]
  -- a zone is narrower than `wordCount`, so no product lies in the zones of two ways
  unfold wordCount at *
  omega

section

variable (inside : way < ways) (bound : ways < wordCount)

include inside bound

theorem lt_of_mem_pickers {n : Nat} (mem : n ∈ pickers ways way) : n < wordCount := by
  have below := ((mem_pickers (Nat.zero_lt_of_lt inside)).1 mem).2
  have zone_lt := mul_share_lt bound
  apply Nat.lt_of_mul_lt_mul_left (a := ways)
  calc ways * n
    _ < way * wordCount + ways * share ways := below
    _ ≤ way * wordCount + wordCount := Nat.add_le_add_left (Nat.le_of_lt zone_lt) _
    _ = (way + 1) * wordCount := (Nat.succ_mul ..).symm
    _ ≤ ways * wordCount := Nat.mul_le_mul_right _ inside

theorem toNat_ofNat_of_mem {n : Nat} (mem : n ∈ pickers ways way) : (UInt32.ofNat n).toNat = n :=
  UInt32.toNat_ofNat_of_lt' (lt_of_mem_pickers inside bound mem)

theorem mem_image_pickers : word ∈ (pickers ways way).image UInt32.ofNat ↔ Picks ways way word := by
  rw [picks_iff (Nat.zero_lt_of_lt inside) bound, Finset.mem_image]
  constructor
  · rintro ⟨n, mem, rfl⟩
    rwa [toNat_ofNat_of_mem inside bound mem]
  · intro mem
    exact ⟨word.toNat, mem, UInt32.ofNat_toNat⟩

theorem card_image_pickers : ((pickers ways way).image UInt32.ofNat).card = share ways := by
  rw [Finset.card_image_of_injOn, card_pickers]
  intro first memFirst second memSecond same
  rw [← toNat_ofNat_of_mem inside bound memFirst, same, toNat_ofNat_of_mem inside bound memSecond]

theorem ncard_picks : {word | Picks ways way word}.ncard = share ways := by
  rw [← card_image_pickers inside bound, ← Set.ncard_coe_finset]
  congr 1
  ext word
  exact (mem_image_pickers inside bound).symm

end

theorem countP_eq_sum_count {α : Type} [DecidableEq α] {p : α → Prop} [DecidablePred p]
    {s : Finset α} (members : ∀ a, a ∈ s ↔ p a) (l : List α) :
    l.countP p = ∑ a ∈ s, l.count a := by
  have within : ∀ a ∈ (l.filter p : Multiset α), a ∈ s := by
    intro a mem
    rw [members]
    simpa using (List.mem_filter.1 (Multiset.mem_coe.1 mem)).2
  rw [List.countP_eq_length_filter, ← Multiset.coe_card, ← Multiset.sum_count_eq_card within]
  apply Finset.sum_congr rfl
  intro a mem
  rw [Multiset.coe_count, List.count_filter]
  simpa using (members a).1 mem

theorem countP_picks (inside : way < ways) (bound : ways < wordCount) {words : List UInt32}
    {frequency : Nat} (even : ∀ word, words.count word = frequency) :
    words.countP (Picks ways way) = frequency * share ways := by
  calc words.countP (Picks ways way)
    _ = ∑ word ∈ (pickers ways way).image UInt32.ofNat, words.count word :=
        countP_eq_sum_count (fun _ => mem_image_pickers inside bound) words
    _ = ∑ _ ∈ (pickers ways way).image UInt32.ofNat, frequency :=
        Finset.sum_congr rfl fun word _ => even word
    _ = share ways * frequency := by
        rw [Finset.sum_const, card_image_pickers inside bound, smul_eq_mul]
    _ = frequency * share ways := Nat.mul_comm ..

theorem RandomSource.pick_uniform {ways : UInt32} (positive : 0 < ways) :
    let zeros := ways.toBitVec.clz.toNat
    let accepted (word : Nat → UInt32) (n : Nat) := accepts ways.toNat (word n)
    (∀ word : UInt32,
      (accepts ways.toNat word = true ↔
        word.toNat * ways.toNat % 2 ^ 32 ≤ ways.toNat * 2 ^ zeros - 1) ∧
      scale ways.toNat word = word.toNat * ways.toNat / 2 ^ 32 ∧
      scale ways.toNat word < ways.toNat) ∧
    (∀ way < ways.toNat, {word | Picks ways.toNat way word}.ncard = 2 ^ zeros ∧
      ∀ (words : List UInt32) (frequency : Nat), (∀ word, words.count word = frequency) →
        words.countP (Picks ways.toNat way) = frequency * 2 ^ zeros) ∧
    (∀ word start way next, Sampled word ways start way next ↔
      ∃ ahead, pickFrom word start ways.toNat ahead = (way.toNat, next)) ∧
    (∀ word start ahead, ∃ n, IsFirst (accepted word) start n ∧
      pickFrom word start ways.toNat ahead = (scale ways.toNat (word n), n + 1)) ∧
    (∀ source : RandomSource, ∃ n, IsFirst (accepted source.word) source.position n ∧
      source.pick ways.toNat =
        (scale ways.toNat (source.word n), { source with position := n + 1 })) ∧
    accepts ways.toNat 0 = true ∧
    ∀ word start n, start ≤ n → word n = 0 →
      ∃ way next, Sampled word ways start way next ∧ next ≤ n + 1 := by
  intro zeros accepted
  have positive : 0 < ways.toNat := UInt32.lt_iff_toNat_lt.1 positive
  have bound : ways.toNat < wordCount := ways.toNat_lt
  have share_eq : share ways.toNat = 2 ^ zeros := by
    rw [share, leadingZeros, ← Word.toNat_leadingZeros positive]
    rfl
  refine ⟨fun word => ⟨?_, rfl, scale_lt positive word⟩, ?_,
    fun word start way next => sampled_iff positive, ?_, ?_, accepts_zero _, ?_⟩
  · rw [accepts, decide_eq_true_iff, acceptedZone_eq, share_eq]
    rfl
  · intro way inside
    rw [← share_eq]
    exact ⟨ncard_picks inside bound, fun words frequency even => countP_picks inside bound even⟩
  · intro word start ahead
    exact ⟨_, isFirst_firstFrom ahead, rfl⟩
  · intro source
    exact ⟨_, isFirst_firstFrom (source.fair ways.toNat source.position), rfl⟩
  · intro word start n le zero
    exact sampled_of_zero positive le zero

/-- Each of three ways is picked by `2 ^ 30` words. A third of the largest word is none of them. -/
theorem RandomSource.pick_uniform_three :
    let source := RandomSource.ofList [0x55555555, 0x80000000]
    0 < (3 : UInt32) ∧ {word | Picks 3 2 word}.ncard = 2 ^ 30 ∧
      source.pick 3 = (1, { source with position := 2 }) := by
  intro source
  obtain ⟨-, counts, -, -, picks, -⟩ := @pick_uniform 3 (by decide)
  refine ⟨by decide, (counts 2 (by decide)).1, ?_⟩
  obtain ⟨n, first, picked⟩ := picks source
  have skipped : n ≠ 0 := by
    rintro rfl
    exact absurd first.found (by decide)
  have below : n < 2 := by
    by_contra later
    exact absurd (first.skipped 1 (by decide) (by omega)) (by decide)
  obtain rfl : n = 1 := by omega
  have way : scale (UInt32.toNat 3) (source.word 1) = 1 := by decide
  rw [way] at picked
  exact picked

end SetAssoc
