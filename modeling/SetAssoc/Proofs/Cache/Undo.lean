import SetAssoc.Proofs.Cache.Reachable

/-!
# Undo is an exact inverse

After `n` accesses and `m` undos a cache is as it was after the first `n - m` accesses, as long as
`m` is at most the undo depth.
-/

namespace SetAssoc

theorem take_append_take {α : Type} (newer older : List α) (depth : Nat) :
    (newer ++ older.take depth).take depth = (newer ++ older).take depth := by
  rw [List.take_append, List.take_take, List.take_append]
  exact congrArg (_ ++ List.take · _) (Nat.min_eq_left (Nat.sub_le _ _))

namespace Cache

def accessAll (cache : Cache) : List Request → List Transaction × Cache
  | [] => ([], cache)
  | request :: rest =>
      let (transaction, cache) := cache.access request.address request.kind
      let (transactions, cache) := cache.accessAll rest
      (transaction :: transactions, cache)

def undoMany (cache : Cache) : Nat → List (Option Transaction) × Cache
  | 0 => ([], cache)
  | count + 1 =>
      let (transaction, cache) := cache.undo
      let (transactions, cache) := cache.undoMany count
      (transaction :: transactions, cache)

/-- Two caches that differ at most in their random sources, their observers, the records of accesses
that can be undone, and in which lines and ways were created. -/
structure Agrees (cache other : Cache) : Prop where
  config_eq : cache.config = other.config
  layout_eq : cache.layout = other.layout
  undoDepth_eq : cache.undoDepth = other.undoDepth
  counters_eq : cache.counters = other.counters
  way_eq : ∀ line way, cache.way line way = other.way line way

def undoRecords (cache : Cache) : List Request → List UndoRecord
  | [] => []
  | request :: rest =>
      (cache.access request.address request.kind).2.undoRecords rest ++
        [cache.undoRecord request.address request.kind]

variable (cache : Cache) (request : Request) (requests : List Request)

theorem accessAll_cons : cache.accessAll (request :: requests) =
    ((cache.access request.address request.kind).1 ::
        ((cache.access request.address request.kind).2.accessAll requests).1,
      ((cache.access request.address request.kind).2.accessAll requests).2) := rfl

theorem accessAll_append (before after : List Request) : cache.accessAll (before ++ after) =
    ((cache.accessAll before).1 ++ ((cache.accessAll before).2.accessAll after).1,
      ((cache.accessAll before).2.accessAll after).2) := by
  induction before generalizing cache with
  | nil => rfl
  | cons request rest ih => rw [List.cons_append, accessAll_cons, ih, accessAll_cons, List.cons_append]

theorem length_undoRecords : (cache.undoRecords requests).length = requests.length := by
  induction requests generalizing cache with
  | nil => rfl
  | cons request rest ih =>
      rw [undoRecords, List.length_append, ih, List.length_singleton, List.length_cons]

theorem length_accessAll : (cache.accessAll requests).1.length = requests.length := by
  induction requests generalizing cache with
  | nil => rfl
  | cons request rest ih => rw [accessAll_cons, List.length_cons, ih, List.length_cons]

theorem accessAll_last {count : Nat} (bound : count ≤ requests.length) :
    let middle := (cache.accessAll (requests.take (requests.length - count))).2
    let last := requests.drop (requests.length - count)
    last.length = count ∧ (cache.accessAll requests).2 = (middle.accessAll last).2 ∧
      (cache.accessAll requests).1.reverse.take count = (middle.accessAll last).1.reverse := by
  intro middle last
  have length : last.length = count := by
    rw [List.length_drop]
    omega
  have run : cache.accessAll requests =
      ((cache.accessAll (requests.take (requests.length - count))).1 ++ (middle.accessAll last).1,
        (middle.accessAll last).2) := by
    rw [← accessAll_append, List.take_append_drop]
  refine ⟨length, by rw [run], ?_⟩
  rw [run, List.reverse_append]
  exact List.take_left' (by rw [List.length_reverse, length_accessAll, length])

theorem transaction_undoRecords :
    (cache.undoRecords requests).map (·.transaction) = (cache.accessAll requests).1.reverse := by
  induction requests generalizing cache with
  | nil => rfl
  | cons request rest ih => rw [undoRecords, List.map_append, ih, accessAll_cons, List.reverse_cons]; rfl

theorem config_accessAll : (cache.accessAll requests).2.config = cache.config := by
  induction requests generalizing cache with
  | nil => rfl
  | cons request rest ih => exact ih _

theorem layout_accessAll : (cache.accessAll requests).2.layout = cache.layout := by
  induction requests generalizing cache with
  | nil => rfl
  | cons request rest ih => exact ih _

theorem undoDepth_accessAll : (cache.accessAll requests).2.undoDepth = cache.undoDepth := by
  induction requests generalizing cache with
  | nil => rfl
  | cons request rest ih => exact ih _

theorem counters_accessAll :
    (cache.accessAll requests).2.counters.newestFirst.drop requests.length =
      cache.counters.newestFirst := by
  induction requests generalizing cache with
  | nil => rfl
  | cons request rest ih =>
      rw [accessAll_cons, List.length_cons, ← List.drop_drop, ih]
      rfl

variable {cache : Cache}

theorem Sound.accessAll (sound : cache.Sound) (requests : List Request) :
    (cache.accessAll requests).2.Sound := by
  induction requests generalizing cache with
  | nil => exact sound
  | cons request rest ih => exact ih (sound.access request.address request.kind)

theorem Sound.undoStack_accessAll (sound : cache.Sound) (requests : List Request) :
    (cache.accessAll requests).2.undoStack =
      (cache.undoRecords requests ++ cache.undoStack).take cache.undoDepth := by
  induction requests generalizing cache with
  | nil => exact (List.take_of_length_le sound.undo_le).symm
  | cons request rest ih =>
      rw [accessAll_cons, ih (sound.access request.address request.kind), sound.undoStack_access,
        undoRecords, List.append_assoc, List.singleton_append]
      exact take_append_take _ _ _

theorem Sound.rewind_accessAll (sound : cache.Sound) (requests : List Request) :
    (cache.undoRecords requests).foldl (Contents.rewind cache.config)
      (cache.accessAll requests).2.way = cache.way := by
  induction requests generalizing cache with
  | nil => rfl
  | cons request rest ih =>
      rw [accessAll_cons, undoRecords, List.foldl_append,
        ← config_access cache request.address request.kind, ih (sound.access request.address request.kind)]
      exact sound.rewind_access request.address request.kind

/-! ## Undoing several accesses -/

theorem undoMany_succ (cache : Cache) (count : Nat) : cache.undoMany (count + 1) =
    (cache.undo.1 :: (cache.undo.2.undoMany count).1, (cache.undo.2.undoMany count).2) := rfl

structure Undone (cache : Cache) (count : Nat) (result : List (Option Transaction) × Cache) :
    Prop where
  transactions_eq : result.1 = (cache.undoStack.take count).map fun record => some record.transaction
  config_eq : result.2.config = cache.config
  layout_eq : result.2.layout = cache.layout
  undoDepth_eq : result.2.undoDepth = cache.undoDepth
  undoStack_eq : result.2.undoStack = cache.undoStack.drop count
  counters_eq : result.2.counters.newestFirst = cache.counters.newestFirst.drop count
  way_eq : result.2.way =
    (cache.undoStack.take count).foldl (Contents.rewind cache.config) cache.way

theorem Sound.undoMany (sound : cache.Sound) {count : Nat} (bound : count ≤ cache.undoStack.length) :
    cache.Undone count (cache.undoMany count) := by
  induction count generalizing cache with
  | zero => exact ⟨rfl, rfl, rfl, rfl, rfl, rfl, rfl⟩
  | succ count ih =>
      cases stack : cache.undoStack with
      | nil => simp [stack] at bound
      | cons record rest =>
          have popped : cache.undo.2.undoStack = rest := by rw [undoStack_undo, stack]; rfl
          have undone := ih sound.undo (by rw [popped]; simpa [stack] using bound)
          rw [undoMany_succ]
          refine ⟨?_, ?_, ?_, ?_, ?_, ?_, ?_⟩
          · rw [undone.transactions_eq, popped, undo_fst_of_cons stack, stack]
            rfl
          · exact undone.config_eq.trans config_undo
          · exact undone.layout_eq.trans layout_undo
          · exact undone.undoDepth_eq.trans undoDepth_undo
          · rw [undone.undoStack_eq, popped, stack]
            rfl
          · rw [undone.counters_eq, counters_undo_of_cons stack, CounterLog.pop, List.drop_tail]
          · rw [undone.way_eq, popped, config_undo, sound.way_undo stack, stack]
            rfl

theorem Sound.undoMany_accessAll (sound : cache.Sound) (requests : List Request)
    (bound : requests.length ≤ cache.undoDepth) :
    let performed := cache.accessAll requests
    let undone := performed.2.undoMany requests.length
    undone.2.Agrees cache ∧ undone.1 = performed.1.reverse.map some ∧
      undone.2.undoStack = performed.2.undoStack.drop requests.length := by
  intro performed undone
  have stack : performed.2.undoStack.take requests.length = cache.undoRecords requests := by
    rw [sound.undoStack_accessAll, List.take_take, Nat.min_eq_left bound]
    exact List.take_left' (cache.length_undoRecords requests)
  have enough : requests.length ≤ performed.2.undoStack.length := by
    rw [sound.undoStack_accessAll, List.length_take, List.length_append, length_undoRecords]
    omega
  have result := (sound.accessAll requests).undoMany enough
  refine ⟨⟨?_, ?_, ?_, ?_, ?_⟩, ?_, result.undoStack_eq⟩
  · exact result.config_eq.trans (cache.config_accessAll requests)
  · exact result.layout_eq.trans (cache.layout_accessAll requests)
  · exact result.undoDepth_eq.trans (cache.undoDepth_accessAll requests)
  · exact congrArg CounterLog.mk (result.counters_eq.trans (cache.counters_accessAll requests))
  · intro line way
    rw [result.way_eq, stack, config_accessAll, sound.rewind_accessAll]
  · rw [result.transactions_eq, stack, ← transaction_undoRecords, List.map_map]
    rfl

/-! ## Exactness -/

/-- After some accesses and at most as many undos, a cache is as after the accesses that were not
undone, and the undos return the transactions of the others, the newest first. -/
theorem Reachable.agrees_undoMany (reachable : cache.Reachable) (requests : List Request)
    (count : Nat) (bound : count ≤ min requests.length cache.undoDepth) :
    let performed := cache.accessAll requests
    let undone := performed.2.undoMany count
    undone.2.Agrees (cache.accessAll (requests.take (requests.length - count))).2 ∧
      undone.1 = (performed.1.reverse.take count).map some ∧
      undone.2.undoAvailable =
        min cache.undoDepth (cache.undoAvailable + requests.length) - count := by
  intro performed undone
  have enough : count ≤ requests.length := by omega
  obtain ⟨length, final, newest⟩ := cache.accessAll_last requests enough
  have sound := reachable.sound
  let before := requests.take (requests.length - count)
  obtain ⟨agrees, transactions, stack⟩ := (sound.accessAll before).undoMany_accessAll
    (requests.drop (requests.length - count)) (by
      rw [undoDepth_accessAll, length]
      omega)
  rw [length, ← final] at agrees transactions stack
  rw [← newest] at transactions
  refine ⟨agrees, transactions, ?_⟩
  rw [undoAvailable, stack, List.length_drop, sound.undoStack_accessAll, List.length_take,
    List.length_append, length_undoRecords, undoAvailable, Nat.add_comm]

/-- A line of two ways is filled, its older way is evicted, and the last two accesses are undone. -/
theorem agrees_undoMany_two_ways :
    let cache : Cache := { config := { blockBits := 0, lineBits := 0, wayBits := 1 } }
    let requests : List Request := [⟨.read, 0⟩, ⟨.write, 4⟩, ⟨.read, 8⟩]
    (cache.Reachable ∧ 2 ≤ min requests.length cache.undoDepth) ∧
      let performed := cache.accessAll requests
      let undone := performed.2.undoMany 2
      undone.2.Agrees (cache.accessAll (requests.take (requests.length - 2))).2 ∧
        undone.1 = (performed.1.reverse.take 2).map some ∧
        undone.2.undoAvailable =
          min cache.undoDepth (cache.undoAvailable + requests.length) - 2 :=
  have reachable := Reachable.new
    (show Cache.new { blockBits := 0, lineBits := 0, wayBits := 1 } = .ok _ from rfl)
  ⟨⟨reachable, by decide⟩, reachable.agrees_undoMany _ 2 (by decide)⟩

end Cache

end SetAssoc
