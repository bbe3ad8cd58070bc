import SetAssoc.Proofs.Cache.History
import SetAssoc.Proofs.Cache.LogContents

/-!
# Written words and writebacks

Under write-back a written word goes past the cache, stays in it or leaves it with a writeback, and
no access writes back without such a cause.
-/

namespace SetAssoc

theorem Transaction.exists_first_fill {line way : Nat} {transactions : List Transaction}
    (filled : ∃ t ∈ transactions, t.Fills line way) :
    ∃ before fill after, transactions = before ++ fill :: after ∧ fill.Fills line way ∧
      ∀ t ∈ before, ¬ t.Fills line way := by
  induction transactions with
  | nil => simp at filled
  | cons first rest ih =>
      by_cases fills : first.Fills line way
      · exact ⟨[], first, rest, rfl, fills, by simp⟩
      · have later : ∃ t ∈ rest, t.Fills line way := by simpa [fills] using filled
        obtain ⟨before, fill, after, rfl, fillsLater, unfilled⟩ := ih later
        exact ⟨first :: before, fill, after, rfl, fillsLater,
          List.forall_mem_cons.2 ⟨fills, unfilled⟩⟩

def Way.HoldsWritten (held : Way) (write : Transaction) : Prop :=
  held.valid = true ∧ held.dirty = true ∧ held.tag = write.location.tag ∧
    write.location.block ∈ held.dirtyBlocks

/-! ## Between two fills -/

section

variable {config : Config} {transaction write : Transaction} {line way : Nat}
  {newer older : List Transaction}

theorem Contents.ofLog_unfilled (config : Config) (older : List Transaction)
    (unfilled : ∀ t ∈ newer, ¬ t.Fills line way) :
    let before := ofLog config older line way
    let held := ofLog config (newer ++ older) line way
    held.valid = before.valid ∧ held.tag = before.tag ∧ (before.dirty = true → held.dirty = true) ∧
      ∀ block ∈ before.dirtyBlocks, block ∈ held.dirtyBlocks := by
  induction newer with
  | nil => exact ⟨rfl, rfl, id, fun _ => id⟩
  | cons transaction newer ih =>
      obtain ⟨unfilledHere, unfilled⟩ := List.forall_mem_cons.1 unfilled
      obtain ⟨valid, tag, dirty, blocks⟩ := ih unfilled
      simp only [List.cons_append, ofLog]
      by_cases uses : transaction.Uses line way
      · have kept : transaction.tagChanged = false :=
          Bool.eq_false_of_not_eq_true fun loaded => unfilledHere ⟨uses, loaded⟩
        rw [record_of_uses uses]
        simp only [Transaction.valid_stored, Transaction.tag_stored, Transaction.dirty_stored,
          Transaction.mem_dirtyBlocks_stored, kept, Bool.false_or, Bool.not_false, Bool.true_and,
          Bool.false_eq_true, if_false, true_and, Bool.or_eq_true]
        exact ⟨valid, tag, fun before => Or.inr (dirty before),
          fun block mem => Or.inr (blocks block mem)⟩
      · rw [record_of_not_uses uses]
        exact ⟨valid, tag, dirty, blocks⟩

namespace Transaction.Follows

variable {contents : Contents}

theorem isHit_of_kept (follows : transaction.Follows config contents) (uses : transaction.Uses line way)
    (kept : transaction.tagChanged = false) :
    (contents line way).holds transaction.location.tag = true := by
  have hit : transaction.isHit = true := by
    simpa [uses.2, kept] using follows.tagChanged_eq
  exact follows.holds_of_hit uses hit

theorem isWriteback_of_fills (follows : transaction.Follows config contents)
    (fills : transaction.Fills line way) (valid : (contents line way).valid = true)
    (dirty : (contents line way).dirty = true) : transaction.isWriteback = true := by
  rw [follows.isWriteback_eq way fills.1.2, fills.1.1, fills.2, valid, dirty]
  simp

theorem holdsWritten (follows : write.Follows config contents)
    (writeBack : config.writePolicy = .writeBack) (isWrite : write.kind = .write)
    (uses : write.Uses line way) : (contents.record config write line way).HoldsWritten write := by
  rw [Contents.record_of_uses uses]
  unfold Way.HoldsWritten
  dsimp only
  rw [valid_stored, tag_stored, dirty_stored, mem_dirtyBlocks_stored]
  cases loaded : write.tagChanged with
  | true => simp [isWrite, writeBack, AccessKind.isWrite]
  | false =>
      obtain ⟨valid, tag⟩ := Way.holds_iff.1 (follows.isHit_of_kept uses loaded)
      simp [isWrite, writeBack, AccessKind.isWrite, valid, tag]

end Transaction.Follows

theorem Logged.holdsWritten (logged : Logged config (newer ++ write :: older))
    (writeBack : config.writePolicy = .writeBack) (isWrite : write.kind = .write)
    (uses : write.Uses line way) (unfilled : ∀ t ∈ newer, ¬ t.Fills line way) :
    (Contents.ofLog config (newer ++ write :: older) line way).HoldsWritten write := by
  obtain ⟨valid, dirty, tag, block⟩ := logged.follows.holdsWritten writeBack isWrite uses
  obtain ⟨valid', tag', dirty', blocks'⟩ :=
    Contents.ofLog_unfilled config (write :: older) unfilled
  exact ⟨valid'.trans valid, dirty' dirty, tag'.trans tag, blocks' _ block⟩

end

/-! ## What becomes of a written word -/

def Transaction.Bypasses (write : Transaction) : Prop :=
  write.way = none ∧ write.isWriteback = true

/-- Of the later accesses, the first that filled the way of the write again wrote its block back. -/
def Transaction.IsWrittenBack (write : Transaction) (later : List Transaction) : Prop :=
  ∃ way between eviction rest, write.way = some way ∧ later = between ++ eviction :: rest ∧
    (∀ t ∈ between, ¬ t.Fills write.location.line way) ∧
    eviction.Fills write.location.line way ∧ eviction.isWriteback = true

def Cache.Retains (cache : Cache) (write : Transaction) (later : List Transaction) : Prop :=
  ∃ way, (∀ t ∈ later, ¬ t.Fills write.location.line way) ∧
    (cache.way write.location.line way).HoldsWritten write

def Transaction.Evicts (transaction : Transaction) (before : List Transaction) : Prop :=
  let line := transaction.location.line
  ∃ way earlier fill since, transaction.Fills line way ∧ transaction.becameValid = false ∧
    before = earlier ++ fill :: since ∧ fill.Fills line way ∧ (∀ t ∈ since, ¬ t.Fills line way) ∧
    ∃ write ∈ fill :: since, write.kind = .write ∧ write.Uses line way

namespace Cache.Told

variable {cache : Cache} {transaction write : Transaction} {before after older : List Transaction}

theorem exists_fate (told : cache.Told (after.reverse ++ write :: older))
    (writeBack : cache.config.writePolicy = .writeBack) (isWrite : write.kind = .write) :
    write.Bypasses ∨ cache.Retains write after ∨ write.IsWrittenBack after := by
  cases resolved : write.way with
  | none => exact Or.inl ⟨resolved, (told.logged.follows.bypass resolved).2⟩
  | some way =>
      right
      have uses : write.Uses write.location.line way := ⟨rfl, resolved⟩
      by_cases filled : ∃ t ∈ after, t.Fills write.location.line way
      · right
        obtain ⟨between, eviction, rest, rfl, fills, unfilled⟩ := Transaction.exists_first_fill filled
        have logged : Logged cache.config
            (rest.reverse ++ eviction :: (between.reverse ++ write :: older)) := by
          simpa using told.logged
        -- the way still holds the word when the eviction comes
        obtain ⟨valid, dirty, -⟩ :=
          logged.earlier.holdsWritten writeBack isWrite uses (by simpa using unfilled)
        exact ⟨way, between, eviction, rest, resolved, rfl, unfilled, fills,
          logged.follows.isWriteback_of_fills fills valid dirty⟩
      · left
        have unfilled : ∀ t ∈ after, ¬ t.Fills write.location.line way := by simpa using filled
        refine ⟨way, unfilled, ?_⟩
        rw [told.way_eq]
        exact told.logged.holdsWritten writeBack isWrite uses (by simpa using unfilled)

theorem way_of_holdsWritten (told : cache.Told (after.reverse ++ write :: older)) {way : Nat}
    (unfilled : ∀ t ∈ after, ¬ t.Fills write.location.line way)
    (held : (cache.way write.location.line way).HoldsWritten write) : write.way = some way := by
  by_contra other
  obtain ⟨valid, -, tag, -⟩ := held
  have unused : ∀ t ∈ after.reverse ++ [write], ¬ t.Fills write.location.line way := by
    rintro t mem fills
    rcases List.mem_append.1 mem with mem | mem
    · exact unfilled t (List.mem_reverse.1 mem) fills
    · rw [List.mem_singleton.1 mem] at fills
      exact other fills.1.2
  have follows := told.logged.follows
  obtain ⟨validBefore, tagBefore, -⟩ :=
    Contents.ofLog_unfilled cache.config older unused
  rw [List.append_assoc, List.singleton_append, ← told.way_eq] at validBefore tagBefore
  have holds : (Contents.ofLog cache.config older write.location.line way).holds write.location.tag =
      true := Way.holds_iff.2 ⟨validBefore.symm.trans valid, tagBefore.symm.trans tag⟩
  -- so the write hit, and tags are unique
  cases hit : write.isHit with
  | false => exact Bool.false_ne_true ((follows.miss hit way).symm.trans holds)
  | true =>
      obtain ⟨used, resolved, holdsUsed⟩ := follows.hit hit
      have same := (told.logged.sound write.location.line).eq_of_holds holdsUsed holds
      exact other (same ▸ resolved)

theorem fate_of_write (told : cache.Told (after.reverse ++ write :: older))
    (writeBack : cache.config.writePolicy = .writeBack) (isWrite : write.kind = .write) :
    (write.Bypasses ∧ ¬ cache.Retains write after ∧ ¬ write.IsWrittenBack after) ∨
      (cache.Retains write after ∧ ¬ write.Bypasses ∧ ¬ write.IsWrittenBack after) ∨
      (write.IsWrittenBack after ∧ ¬ write.Bypasses ∧ ¬ cache.Retains write after) := by
  have retained_apart : cache.Retains write after → ¬ write.Bypasses ∧ ¬ write.IsWrittenBack after := by
    rintro ⟨way, unfilled, held⟩
    have resolved := told.way_of_holdsWritten unfilled held
    refine ⟨fun bypass => ?_, ?_⟩
    · rw [bypass.1] at resolved
      cases resolved
    · rintro ⟨used, between, eviction, rest, resolved', rfl, -, fills, -⟩
      rw [resolved, Option.some.injEq] at resolved'
      rw [← resolved'] at fills
      exact unfilled eviction (by simp) fills
  have bypass_apart : write.Bypasses → ¬ write.IsWrittenBack after := by
    rintro ⟨bypass, -⟩ ⟨way, _, _, _, resolved, -⟩
    rw [bypass] at resolved
    cases resolved
  have := told.exists_fate writeBack isWrite
  tauto

theorem cause_of_writeback (told : cache.Told (after.reverse ++ transaction :: before.reverse))
    (writeBack : cache.config.writePolicy = .writeBack)
    (writeback : transaction.isWriteback = true) :
    (transaction.kind = .write ∧ transaction.isHit = false ∧ transaction.way = none) ∨
      transaction.Evicts before := by
  have follows := told.logged.follows
  cases resolved : transaction.way with
  | none =>
      left
      refine ⟨(follows.bypass resolved).1, Bool.eq_false_of_not_eq_true fun hit => ?_, rfl⟩
      obtain ⟨way, used, -⟩ := follows.hit hit
      rw [resolved] at used
      cases used
  | some way =>
      right
      let held := Contents.ofLog cache.config before.reverse transaction.location.line way
      obtain ⟨loaded, valid, dirty⟩ :
          transaction.tagChanged = true ∧ held.valid = true ∧ held.dirty = true := by
        have evicts := (follows.isWriteback_eq way resolved).symm.trans writeback
        simpa [writeBack, and_assoc] using evicts
      have fills : transaction.Fills transaction.location.line way := ⟨⟨rfl, resolved⟩, loaded⟩
      have became : transaction.becameValid = false := by
        rw [follows.becameValid_eq, resolved, Option.all_some, show Way.valid _ = true from valid]
        simp
      obtain ⟨newer, fill, older, split, fillsBefore, unfilled⟩ :=
        Transaction.exists_first_fill (Contents.valid_ofLog.1 valid)
      -- a dirty way has a dirty block, which some write since the fill left
      obtain ⟨block, mem⟩ : ∃ block, block ∈ held.dirtyBlocks := by
        by_contra! clean
        exact Contents.dirty_ofLog.1 dirty (Std.ExtTreeSet.eq_empty_iff_forall_not_mem.2 clean)
      have written := Contents.ofLog_since_fill cache.config older fillsBefore unfilled
      rw [← split] at written
      obtain ⟨-, write, memWrite, uses, isWrite, -⟩ := (written.2 block).1 mem
      refine ⟨way, older.reverse, fill, newer.reverse, fills, became, ?_, fillsBefore,
        by simpa using unfilled, write, by simpa [or_comm] using memWrite, isWrite, uses⟩
      rw [← List.reverse_reverse before, split]
      simp

end Cache.Told

/-! ## Counting dirty ways -/

/-- The access is a write that marks a way which was not dirty just before: one that it loaded, or
one that held its block clean. -/
def Transaction.marksClean (transaction : Transaction) (contents : Contents) : Bool :=
  transaction.kind.isWrite && transaction.way.any fun way =>
    transaction.tagChanged || !(contents transaction.location.line way).dirty

theorem Transaction.Follows.dirty_stored_add {config : Config} {contents : Contents}
    {transaction : Transaction} (follows : transaction.Follows config contents)
    (writeBack : config.writePolicy = .writeBack) {line way : Nat} (uses : transaction.Uses line way)
    (valid_of_dirty : (contents line way).dirty = true → (contents line way).valid = true) :
    (transaction.tagChanged && transaction.isWriteback).toNat +
        (transaction.stored config (contents line way)).dirty.toNat =
      (contents line way).dirty.toNat + (transaction.marksClean contents).toNat := by
  obtain ⟨rfl, resolved⟩ := uses
  rw [follows.isWriteback_eq way resolved, dirty_stored, marksClean, resolved, writeBack,
    Option.any_some]
  cases dirty : (contents transaction.location.line way).dirty with
  | false => cases transaction.tagChanged <;> cases transaction.kind.isWrite <;> simp
  | true =>
      rw [valid_of_dirty dirty]
      cases transaction.tagChanged <;> cases transaction.kind.isWrite <;> simp

namespace Cache

def cleanMarks (cache : Cache) : List Request → Nat
  | [] => 0
  | request :: rest =>
      let (transaction, after) := cache.access request.address request.kind
      (transaction.marksClean cache.way).toNat + after.cleanMarks rest

theorem cleanMarks_cons (cache : Cache) (request : Request) (rest : List Request) :
    cache.cleanMarks (request :: rest) =
      ((cache.access request.address request.kind).1.marksClean cache.way).toNat +
        (cache.access request.address request.kind).2.cleanMarks rest := rfl

def dirtyWays (cache : Cache) : List (Nat × Nat) := cache.waysWhere (·.dirty)

variable {cache : Cache}

theorem Sound.length_dirty_access (sound : cache.Sound)
    (writeBack : cache.config.writePolicy = .writeBack) (address : UInt32) (kind : AccessKind) :
    let transaction := (cache.access address kind).1
    (transaction.tagChanged && transaction.isWriteback).toNat +
        (cache.access address kind).2.dirtyWays.length =
      cache.dirtyWays.length + (transaction.marksClean cache.way).toNat := by
  intro transaction
  have follows : transaction.Follows cache.config cache.way := sound.follows_access address kind
  have contents : (cache.access address kind).2.way =
      Contents.record cache.config cache.way transaction :=
    sound.way_access address kind
  have others {line way : Nat} (unused : ¬ transaction.Uses line way) :
      ((cache.access address kind).2.way line way).dirty = (cache.way line way).dirty := by
    rw [contents, Contents.record_of_not_uses unused]
  cases resolved : transaction.way with
  | none =>
      have unused (line way : Nat) : ¬ transaction.Uses line way := fun uses => by
        cases resolved.symm.trans uses.2
      have length := length_waysWhere_add (·.dirty) rfl 0 0
        fun line way _ => others (unused line way)
      rw [others (unused 0 0)] at length
      rw [Transaction.marksClean, follows.tagChanged_eq, resolved]
      simp only [dirtyWays, Option.isSome_none, Option.any_none, Bool.and_false, Bool.false_and,
        Bool.toNat_false]
      omega
  | some way =>
      have uses : transaction.Uses transaction.location.line way := ⟨rfl, resolved⟩
      have length := length_waysWhere_add (·.dirty) rfl transaction.location.line way
        fun line other distinct => others fun uses =>
          distinct ⟨uses.1.symm, Option.some.inj (uses.2.symm.trans resolved)⟩
      have here := follows.dirty_stored_add writeBack uses sound.valid_of_dirty
      rw [contents, Contents.record_of_uses uses, ← contents] at length
      dsimp only at length
      rw [dirtyWays, dirtyWays]
      omega

theorem Sound.length_dirty_accessAll (sound : cache.Sound)
    (writeBack : cache.config.writePolicy = .writeBack) (requests : List Request) :
    (cache.accessAll requests).1.countP (fun t => t.tagChanged && t.isWriteback) +
        (cache.accessAll requests).2.dirtyWays.length =
      cache.dirtyWays.length + cache.cleanMarks requests := by
  induction requests generalizing cache with
  | nil => exact Nat.zero_add _
  | cons request rest ih =>
      have first := sound.length_dirty_access writeBack request.address request.kind
      have later := ih (sound.access request.address request.kind) writeBack
      rw [accessAll_cons, countP_cons_toNat, cleanMarks_cons]
      dsimp only at first ⊢
      omega

end Cache

/-! ## The account of a run -/

theorem Transaction.Follows.isWriteback_eq_isWrite {config : Config} {contents : Contents}
    {transaction : Transaction} (follows : transaction.Follows config contents)
    (writeThrough : config.writePolicy = .writeThrough)
    (clean : ∀ line way, (contents line way).dirty = false) :
    transaction.isWriteback = transaction.kind.isWrite := by
  cases resolved : transaction.way with
  | none =>
      obtain ⟨isWrite, writeback⟩ := follows.bypass resolved
      rw [isWrite, writeback]
      rfl
  | some way =>
      rw [follows.isWriteback_eq way resolved, writeThrough, clean]
      simp

namespace Cache

structure AccountsForWrites (cache : Cache) (requests : List Request) : Prop where
  fate : cache.config.writePolicy = .writeBack → ∀ before write after,
    (cache.accessAll requests).1 = before ++ write :: after → write.kind = .write →
    let final := (cache.accessAll requests).2
    (write.Bypasses ∧ ¬ final.Retains write after ∧ ¬ write.IsWrittenBack after) ∨
      (final.Retains write after ∧ ¬ write.Bypasses ∧ ¬ write.IsWrittenBack after) ∨
      (write.IsWrittenBack after ∧ ¬ write.Bypasses ∧ ¬ final.Retains write after)
  cause : cache.config.writePolicy = .writeBack → ∀ before transaction after,
    (cache.accessAll requests).1 = before ++ transaction :: after → transaction.isWriteback = true →
    (transaction.kind = .write ∧ transaction.isHit = false ∧ transaction.way = none) ∨
      transaction.Evicts before
  balance : cache.config.writePolicy = .writeBack →
    (cache.accessAll requests).1.countP (fun t => t.tagChanged && t.isWriteback) +
        (cache.accessAll requests).2.dirtyWays.length =
      cache.cleanMarks requests
  forwarded : cache.config.writePolicy = .writeThrough →
    (∀ t ∈ (cache.accessAll requests).1, t.isWriteback = t.kind.isWrite) ∧
      ∀ line way, ((cache.accessAll requests).2.way line way).dirty = false ∧
        ((cache.accessAll requests).2.way line way).dirtyBlocks = ∅

theorem Told.accountsForWrites {cache : Cache} (told : cache.Told []) (empty : cache.lines = ∅)
    (requests : List Request) : cache.AccountsForWrites requests := by
  have final := told.accessAll requests
  rw [List.append_nil] at final
  have same : (cache.accessAll requests).2.config = cache.config := config_accessAll _ requests
  -- a position in the run is a position in the log, which starts with the newest transaction
  have reversed {before after : List Transaction} {t : Transaction}
      (split : (cache.accessAll requests).1 = before ++ t :: after) :
      (cache.accessAll requests).2.Told (after.reverse ++ t :: before.reverse) := by
    rw [split] at final
    simpa using final
  refine ⟨?_, ?_, ?_, ?_⟩
  · intro writeBack before write after split isWrite
    exact (reversed split).fate_of_write (same ▸ writeBack) isWrite
  · intro writeBack before t after split writeback
    exact (reversed split).cause_of_writeback (same ▸ writeBack) writeback
  · intro writeBack
    have none : cache.dirtyWays = [] := by
      rw [dirtyWays, waysWhere, empty]
      rfl
    rw [told.sound.length_dirty_accessAll writeBack, none, List.length_nil, Nat.zero_add]
  · intro writeThrough
    refine ⟨fun t mem => ?_, fun line way => ?_⟩
    · obtain ⟨before, after, split⟩ := List.append_of_mem mem
      have follows := (reversed split).logged.follows
      rw [same] at follows
      exact follows.isWriteback_eq_isWrite writeThrough (Contents.clean_ofLog writeThrough _)
    · have clean : ((cache.accessAll requests).2.way line way).dirty = false := by
        rw [final.way_eq, same]
        exact Contents.clean_ofLog writeThrough _ line way
      refine ⟨clean, ?_⟩
      by_contra dirty
      have := Contents.dirty_ofLog.2 (final.way_eq ▸ dirty)
      rw [← final.way_eq, clean] at this
      cases this

/-- No written word is lost and no writeback is invented, whatever the geometry, the policies and
the random source of a cache are. -/
theorem accounts_for_writes {config : Config} (geometry : config.Valid) (source : RandomSource) :
    ∃ fresh, Cache.new config source = .ok fresh ∧
      ∀ requests : List Request, fresh.AccountsForWrites requests := by
  have built : Cache.new config source = .ok { config, source } := new_eq_ok_iff.2 ⟨geometry, rfl⟩
  exact ⟨_, built, (told_new built).accountsForWrites rfl⟩

/-- Two lines of two ways with random replacement, which write back and load on reads only. -/
theorem accounts_for_writes_two_ways :
    let config : Config :=
      { blockBits := 1, lineBits := 1, wayBits := 1,
        writeAllocation := .noWriteAllocate, replacement := .random }
    config.Valid ∧ ∃ fresh, Cache.new config = .ok fresh ∧
      ∀ requests : List Request, fresh.AccountsForWrites requests :=
  ⟨by decide, accounts_for_writes (by decide) default⟩

end Cache

end SetAssoc
