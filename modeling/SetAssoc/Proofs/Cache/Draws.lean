import SetAssoc.Proofs.Cache.Equivalence

/-!
# What consumes the random stream

Only an access that misses, allocates and runs under random replacement picks a way, and it fills
the way that it picks. Undoing or discarding such an access does not give the random words back.
-/

namespace SetAssoc

def RandomSource.pickAll (source : RandomSource) : List Nat → List Nat × RandomSource
  | [] => ([], source)
  | ways :: rest =>
      let (way, source) := source.pick ways
      let (others, source) := source.pickAll rest
      (way :: others, source)

namespace Cache

def Draws (cache : Cache) (request : Request) : Prop :=
  cache.contains request.address = false ∧
    (request.kind = .read ∨ cache.config.writeAllocation = .writeAllocate) ∧
    cache.config.replacement = .random

instance (cache : Cache) (request : Request) : Decidable (cache.Draws request) :=
  inferInstanceAs (Decidable (_ ∧ _))

structure Fills (cache : Cache) (request : Request) (way : Nat) : Prop where
  way_eq : (cache.access request.address request.kind).1.way = some way
  loaded : (cache.access request.address request.kind).1.tagChanged = true
  holds : ((cache.access request.address request.kind).2.way
    (cache.location request.address).line way).holds (cache.location request.address).tag = true

def drawing? (cache : Cache) : Operation → Option (Cache × Request)
  | .access address kind =>
      if cache.Draws { kind, address } then some (cache, { kind, address }) else none
  | _ => none

/-- The accesses of a run that draw, each with the cache before it. -/
def drawing (cache : Cache) : List Operation → List (Cache × Request)
  | [] => []
  | operation :: rest =>
      (cache.drawing? operation).toList ++ (cache.perform operation).2.drawing rest

/-! ## One access -/

theorem find?_eq_none_of_draws {cache : Cache} {request : Request} (draws : cache.Draws request) :
    (cache.line (cache.location request.address).line).find?
      (cache.location request.address).tag = none :=
  Option.not_isSome_iff_eq_none.1 (Bool.not_eq_true _ ▸ draws.1)

def picked (cache : Cache) (request : Request) (way : Nat) : Placement where
  way
  line := (cache.line (cache.location request.address).line).insert way
    (.loaded (cache.location request.address).tag)
  previous := cache.way (cache.location request.address).line way
  isHit := false

theorem place_of_draws {cache : Cache} {request : Request} (draws : cache.Draws request) :
    cache.config.place cache.source (cache.line (cache.location request.address).line)
        (cache.location request.address).tag (request.kind.allocates cache.config.writeAllocation) =
      (some (cache.picked request (cache.source.pick cache.config.ways).1),
        (cache.source.pick cache.config.ways).2) := by
  have miss := find?_eq_none_of_draws draws
  obtain ⟨-, allocates, random⟩ := draws
  simp only [Config.place, miss, allocates_iff.2 allocates, Config.chooseWay, Config.chooseWay?, random]
  rfl

theorem source_access_of_draws {cache : Cache} {request : Request} (draws : cache.Draws request) :
    (cache.access request.address request.kind).2.source = (cache.source.pick cache.config.ways).2 := by
  rw [source_access, place_of_draws draws]

theorem source_access_of_not_draws {cache : Cache} {request : Request} (idle : ¬cache.Draws request) :
    (cache.access request.address request.kind).2.source = cache.source := by
  cases replacement : cache.config.replacement with
  | lru => exact source_access_of_lru replacement _ _
  | random =>
      rw [source_access, Config.place]
      cases found : (cache.line (cache.location request.address).line).find?
          (cache.location request.address).tag with
      | some way => rfl
      | none =>
          have bypass : request.kind.allocates cache.config.writeAllocation = false := by
            by_contra allocates
            apply idle
            refine ⟨?_, allocates_iff.1 (Bool.eq_true_of_not_eq_false allocates), replacement⟩
            rw [contains, ← location, found]
            rfl
          simp [bypass]

theorem Sound.fills_of_draws {cache : Cache} (sound : cache.Sound) {request : Request}
    (draws : cache.Draws request) :
    cache.Fills request (cache.source.pick cache.config.ways).1 := by
  have placed : cache.placement? request.address request.kind =
      some (cache.picked request (cache.source.pick cache.config.ways).1) := by
    rw [placement?, place_of_draws draws]
  constructor
  · rw [way_access_fst, placed]
    rfl
  · rw [transaction_access, placed]
    rfl
  · have stored := (sound.suits placed).holds_stored request.kind (cache.location request.address).block
    rw [sound.way_access_of_some placed, Function.update_self, picked, Ways.store_self]
    exact stored

/-! ## Runs -/

theorem source_perform (cache : Cache) (operation : Operation) :
    (cache.perform operation).2.source =
      ((cache.drawing? operation).elim cache.source fun _ =>
        (cache.source.pick cache.config.ways).2) := by
  cases operation with
  | access address kind =>
      by_cases draws : cache.Draws { kind, address }
      · have source := source_access_of_draws draws
        rw [drawing?, if_pos draws]
        exact source
      · have source := source_access_of_not_draws draws
        rw [drawing?, if_neg draws]
        exact source
  | undo => exact (congrArg (·.2.source) cache.perform_undo).trans source_undo
  | setUndoDepth depth => rfl
  | reset => rfl
  | set setting =>
      obtain ⟨-, performed⟩ | ⟨-, error, performed⟩ := cache.perform_set_cases setting
      · rw [performed]
        rfl
      · rw [performed]
        rfl
  | subscribe observer => rfl

theorem drawing?_eq_some {cache : Cache} {operation : Operation} {draw : Cache × Request}
    (drawn : cache.drawing? operation = some draw) : draw.1 = cache ∧ cache.Draws draw.2 := by
  cases operation with
  | access address kind =>
      simp only [drawing?, Option.ite_none_right_eq_some, Option.some.injEq] at drawn
      obtain ⟨draws, rfl⟩ := drawn
      exact ⟨rfl, draws⟩
  | _ => cases drawn

theorem Sound.fills_run {cache : Cache} (sound : cache.Sound) (operations : List Operation) :
    let picked := cache.source.pickAll ((cache.drawing operations).map (·.1.config.ways))
    List.Forall₂ (fun draw way => draw.1.Fills draw.2 way) (cache.drawing operations) picked.1 ∧
      (cache.run operations).2.1.source = picked.2 := by
  induction operations generalizing cache with
  | nil => exact ⟨.nil, rfl⟩
  | cons operation rest ih =>
      have later := ih (sound.perform operation)
      have source := cache.source_perform operation
      cases drawn : cache.drawing? operation with
      | none =>
          rw [drawn, Option.elim_none] at source
          rw [source] at later
          simpa only [drawing, drawn, Option.toList_none, List.nil_append, run_cons] using later
      | some draw =>
          obtain ⟨rfl, draws⟩ := drawing?_eq_some drawn
          rw [drawn, Option.elim_some] at source
          rw [source] at later
          simp only [drawing, drawn, Option.toList_some, List.singleton_append]
          exact ⟨.cons (sound.fills_of_draws draws) later.1, later.2⟩

theorem draws_in_order {config : Config} {source : RandomSource} {cache : Cache}
    (built : Cache.new config source = .ok cache) (operations : List Operation) :
    let drawing := cache.drawing operations
    let picked := source.pickAll (drawing.map (·.1.config.ways))
    List.Forall₂ (fun draw way => draw.1.Fills draw.2 way) drawing picked.1 ∧
      (cache.run operations).2.1.source = picked.2 := by
  obtain ⟨-, rfl⟩ := new_eq_ok_iff.1 built
  exact (sound_new built).fills_run operations

/-- The first access is undone and the second one discarded, and those after the third one bypass
the cache or run under another replacement. -/
theorem draws_in_order_undone :
    let config : Config := { blockBits := 0, lineBits := 0, wayBits := 1, replacement := .random }
    let source : RandomSource := .ofList [2147483648, 7]
    let cache : Cache := { config, source }
    let operations : List Operation :=
      [.access 0 .read, .undo, .set (.wayBits 0), .access 4 .write, .reset, .access 4 .read,
        .set (.writeAllocation .noWriteAllocate), .access 4 .write, .set (.replacement .lru),
        .access 4 .read]
    let drawing := cache.drawing operations
    let picked := source.pickAll (drawing.map (·.1.config.ways))
    Cache.new config source = .ok cache ∧ drawing.map (·.1.config.ways) = [2, 1, 1] ∧
      List.Forall₂ (fun draw way => draw.1.Fills draw.2 way) drawing picked.1 ∧
      (cache.run operations).2.1.source = picked.2 := by
  intro config source cache operations drawing picked
  have built : Cache.new config source = .ok cache := rfl
  exact ⟨built, by decide, draws_in_order built operations⟩

end Cache

end SetAssoc
