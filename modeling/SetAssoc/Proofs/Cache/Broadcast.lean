import SetAssoc.Proofs.Cache.Reachable

/-!
# What observers hear

The operations on a cache alone determine one sequence of events. Every observer hears all of it
from its subscription on, in step with the others, and no observer changes what the cache does.
-/

namespace SetAssoc

def Operation.subscriber? : Operation → Option Observer
  | subscribe observer => some observer
  | _ => none

def Event.rate? : Event → Option Float
  | hitRate rate => some rate
  | _ => none

def lastRate (events : List Event) : Option Float := (events.filterMap Event.rate?).getLast?

def heardBy (number : Nat) (notices : List Notice) : List Event :=
  (notices.filter (·.recorder = number)).map (·.event)

/-- What an observer records of an event, given the number of events before its subscription and
before the event. -/
def hearFrom (event : Event × Nat) (subscription : Observer × Nat) : Option Notice :=
  if subscription.2 ≤ event.2 then subscription.1.hear event.1 else none

def unobserved (operations : List Operation) : List Operation :=
  operations.filter (·.subscriber?.isNone)

def unobservedReplies (operations : List Operation) (replies : List Reply) : List Reply :=
  ((operations.zip replies).filter (·.1.subscriber?.isNone)).map (·.2)

/-- What is recorded if each event goes to all observers that have subscribed, before the next one.
-/
def broadcast (events : List (Event × Nat)) (subscriptions : List (Observer × Nat)) : List Notice :=
  events.flatMap fun event => subscriptions.filterMap (hearFrom event)

namespace Cache

def emitted (cache : Cache) : List Operation → List Event
  | [] => []
  | operation :: rest => cache.emits operation ++ (cache.perform operation).2.emitted rest

/-- The observers that subscribe during a run, each with the number of events before its
subscription, the first of which is `position`. -/
def subscriptions (cache : Cache) (position : Nat) : List Operation → List (Observer × Nat)
  | [] => []
  | operation :: rest =>
      (operation.subscriber?.map (·, position)).toList ++
        (cache.perform operation).2.subscriptions (position + (cache.emits operation).length) rest

def muted (cache : Cache) : Cache := { cache with observers := [] }

/-! ## One operation -/

theorem observers_perform (cache : Cache) (operation : Operation) :
    (cache.perform operation).2.observers = cache.observers ++ operation.subscriber?.toList := by
  cases operation with
  | access address kind => exact (List.append_nil _).symm
  | undo =>
      rw [perform_undo]
      exact observers_undo.trans (List.append_nil _).symm
  | setUndoDepth depth => exact (List.append_nil _).symm
  | reset => exact (List.append_nil _).symm
  | set setting =>
      apply Eq.trans _ (List.append_nil _).symm
      obtain ⟨-, performed⟩ | ⟨-, error, performed⟩ := cache.perform_set_cases setting
      · rw [performed]
        rfl
      · rw [performed]
  | subscribe observer => rfl

theorem emits_of_subscriber {cache : Cache} {operation : Operation} {observer : Observer}
    (subscribes : operation.subscriber? = some observer) : cache.emits operation = [] := by
  cases operation with
  | subscribe observer => rfl
  | _ => cases subscribes

theorem undo_muted (cache : Cache) : cache.muted.undo = (cache.undo.1, cache.undo.2.muted) := by
  cases stack : cache.undoStack with
  | nil =>
      have same : cache.muted.undoStack = [] := stack
      rw [undo_of_nil stack, undo_of_nil same]
  | cons record rest =>
      have same : cache.muted.undoStack = record :: rest := stack
      rw [undo, undo, same, stack]
      rfl

theorem set_muted (cache : Cache) (setting : Setting) :
    cache.muted.set setting = (cache.set setting).map muted := by
  simp only [set, muted]
  cases setting.isPolicy <;> cases (cache.config.change setting).validate <;> rfl

theorem perform_muted (cache : Cache) {operation : Operation}
    (silent : operation.subscriber? = none) :
    cache.muted.perform operation =
      ((cache.perform operation).1, (cache.perform operation).2.muted) := by
  cases operation with
  | access address kind => rfl
  | undo => simp only [perform_undo, undo_muted]
  | setUndoDepth depth => rfl
  | reset => rfl
  | set setting =>
      simp only [perform_set, set_muted]
      cases cache.set setting <;> rfl
  | subscribe observer => cases silent

/-! ## Runs -/

theorem le_of_mem_subscriptions (cache : Cache) (position : Nat) (operations : List Operation) :
    ∀ subscription ∈ cache.subscriptions position operations, position ≤ subscription.2 := by
  induction operations generalizing cache position with
  | nil => exact fun _ mem => nomatch mem
  | cons operation rest ih =>
      intro subscription mem
      rcases List.mem_append.1 mem with here | later
      · obtain ⟨observer, -, rfl⟩ := by simpa using here
        exact Nat.le_refl _
      · exact Nat.le_of_add_right_le (ih _ _ subscription later)

theorem broadcast_deliver {early late : List (Observer × Nat)} (events : List Event) (position : Nat)
    (started : ∀ subscription ∈ early, subscription.2 ≤ position)
    (starting : ∀ subscription ∈ late, position + events.length ≤ subscription.2) :
    broadcast (events.zipIdx position) (early ++ late) = deliver (early.map Prod.fst) events := by
  induction events generalizing position with
  | nil => rfl
  | cons event rest ih =>
      simp only [List.length_cons] at starting
      have hear : early.filterMap (hearFrom (event, position)) =
          (early.map Prod.fst).filterMap (·.hear event) := by
        rw [List.filterMap_map]
        apply List.filterMap_congr
        intro subscription mem
        simp [hearFrom, started subscription mem]
      have miss : late.filterMap (hearFrom (event, position)) = [] := by
        apply List.filterMap_eq_nil_iff.2
        intro subscription mem
        have := starting subscription mem
        exact if_neg (by omega)
      have further := ih (position + 1)
        (fun subscription mem => Nat.le_succ_of_le (started subscription mem))
        (fun subscription mem => by have := starting subscription mem; omega)
      rw [List.zipIdx_cons, broadcast, List.flatMap_cons, List.filterMap_append, hear, miss,
        List.append_nil, deliver, List.flatMap_cons]
      exact congrArg _ further

theorem notices_run {cache : Cache} (early : List (Observer × Nat))
    (observers : early.map Prod.fst = cache.observers) (position : Nat)
    (started : ∀ subscription ∈ early, subscription.2 ≤ position) (operations : List Operation) :
    (cache.run operations).2.2 =
      broadcast ((cache.emitted operations).zipIdx position)
        (early ++ cache.subscriptions position operations) := by
  -- `early` are the observers of the cache, which has told `position` events before the run
  induction operations generalizing cache early position with
  | nil => rfl
  | cons operation rest ih =>
      rw [run_cons, notices_step, emitted, List.zipIdx_append, broadcast, List.flatMap_append,
        subscriptions]
      cases subscribes : operation.subscriber? with
      | none =>
          have same : early.map Prod.fst = (cache.perform operation).2.observers := by
            rw [observers_perform, subscribes, observers, Option.toList_none, List.append_nil]
          have here := broadcast_deliver (cache.emits operation) position started
            (le_of_mem_subscriptions (cache.perform operation).2 _ rest)
          have later := ih early same (position + (cache.emits operation).length)
            fun subscription mem => Nat.le_add_right_of_le (started subscription mem)
          rw [later, ← observers]
          exact congrArg (· ++ _) here.symm
      | some observer =>
          have more : (early ++ [(observer, position)]).map Prod.fst =
              (cache.perform operation).2.observers := by
            rw [observers_perform, subscribes, List.map_append, observers]
            rfl
          have later := ih _ more position (by
            intro subscription mem
            rcases List.mem_append.1 mem with mem | mem
            · exact started subscription mem
            · rw [List.mem_singleton.1 mem])
          rw [later, emits_of_subscriber subscribes, List.append_assoc]
          rfl

theorem run_muted (cache : Cache) (operations : List Operation) :
    cache.muted.run (unobserved operations) =
        (unobservedReplies operations (cache.run operations).1, (cache.run operations).2.1.muted, []) ∧
      cache.muted.emitted (unobserved operations) = cache.emitted operations := by
  induction operations generalizing cache with
  | nil => exact ⟨rfl, rfl⟩
  | cons operation rest ih =>
      obtain ⟨run, emitted⟩ := ih (cache.perform operation).2
      cases subscribes : operation.subscriber? with
      | none =>
          have silent := perform_muted cache subscribes
          have emits : cache.muted.emits operation = cache.emits operation := by
            rw [Cache.emits, Cache.emits, silent]
            rfl
          have notices : (cache.muted.step operation).notices = [] := by
            rw [notices_step]
            simp [deliver, muted]
          have kept : unobserved (operation :: rest) = operation :: unobserved rest := by
            simp [unobserved, subscribes]
          rw [kept, run_cons, silent, run, notices, Cache.emitted, silent, emitted, emits, run_cons]
          simp [unobservedReplies, subscribes, Cache.emitted]
      | some observer =>
          have same : cache.muted = (cache.perform operation).2.muted := by
            cases operation with
            | subscribe observer => rfl
            | _ => cases subscribes
          have dropped : unobserved (operation :: rest) = unobserved rest := by
            simp [unobserved, subscribes]
          rw [dropped, same, run, emitted, run_cons]
          simp [unobservedReplies, subscribes, Cache.emitted, emits_of_subscriber subscribes]

/-! ## One recorder -/

theorem emitted_append (cache : Cache) (before after : List Operation) :
    cache.emitted (before ++ after) =
      cache.emitted before ++ (cache.run before).2.1.emitted after := by
  induction before generalizing cache with
  | nil => rfl
  | cons operation rest ih =>
      rw [List.cons_append, emitted, ih, emitted, List.append_assoc]
      rfl

theorem heardBy_append (number : Nat) (notices further : List Notice) :
    heardBy number (notices ++ further) = heardBy number notices ++ heardBy number further := by
  simp [heardBy]

theorem heardBy_deliver (number : Nat) (observers : List Observer) (events : List Event) :
    heardBy number (deliver observers events) =
      events.flatMap (List.replicate (observers.count (.recorder number))) := by
  have one : ∀ event, heardBy number (observers.filterMap (·.hear event)) =
      List.replicate (observers.count (.recorder number)) event := by
    intro event
    induction observers with
    | nil => rfl
    | cons observer rest ih =>
        cases observer with
        | silent => simpa [Observer.hear, List.count_cons] using ih
        | recorder other =>
            by_cases same : other = number
            · simpa [Observer.hear, List.count_cons, same, heardBy, List.replicate_succ] using ih
            · simpa [Observer.hear, List.count_cons, same, heardBy] using ih
  induction events with
  | nil => rfl
  | cons event rest ih =>
      rw [deliver, List.flatMap_cons, heardBy_append, one, List.flatMap_cons]
      exact congrArg _ ih

theorem heardBy_run {cache : Cache} {number : Nat} {operations : List Operation}
    (unsubscribed : .subscribe (.recorder number) ∉ operations) :
    heardBy number (cache.run operations).2.2 =
      (cache.emitted operations).flatMap
        (List.replicate (cache.observers.count (.recorder number))) := by
  induction operations generalizing cache with
  | nil => rfl
  | cons operation rest ih =>
      simp only [List.mem_cons, not_or] at unsubscribed
      have same : (cache.perform operation).2.observers.count (.recorder number) =
          cache.observers.count (.recorder number) := by
        rw [observers_perform, List.count_append, Nat.add_eq_left]
        cases operation with
        | subscribe observer =>
            apply List.count_eq_zero.2
            simpa [Operation.subscriber?] using unsubscribed.1
        | _ => rfl
      rw [run_cons, heardBy_append, notices_step, heardBy_deliver, ih unsubscribed.2, same, emitted,
        List.flatMap_append]

theorem observers_run (cache : Cache) (operations : List Operation) :
    (cache.run operations).2.1.observers =
      cache.observers ++ operations.filterMap Operation.subscriber? := by
  induction operations generalizing cache with
  | nil => exact (List.append_nil _).symm
  | cons operation rest ih =>
      rw [run_cons, ih, observers_perform, List.append_assoc, List.filterMap_cons]
      cases operation.subscriber? <;> rfl

theorem not_mem_observers {number : Nat} {operations : List Operation}
    (unsubscribed : .subscribe (.recorder number) ∉ operations) :
    .recorder number ∉ operations.filterMap Operation.subscriber? := by
  intro mem
  obtain ⟨operation, mem, subscribes⟩ := List.mem_filterMap.1 mem
  cases operation with
  | subscribe observer =>
      cases subscribes
      exact unsubscribed mem
  | _ => cases subscribes

theorem heardBy_subscriber {cache : Cache} (quiet : cache.observers = []) {number : Nat}
    {before after : List Operation} (first : .subscribe (.recorder number) ∉ before)
    (once : .subscribe (.recorder number) ∉ after) :
    heardBy number (cache.run (before ++ .subscribe (.recorder number) :: after)).2.2 =
      ((cache.run before).2.1.subscribe (.recorder number)).emitted after := by
  let state := (cache.run before).2.1.subscribe (.recorder number)
  have unheard : (cache.run before).2.1.observers.count (.recorder number) = 0 := by
    rw [observers_run, quiet, List.nil_append]
    exact List.count_eq_zero.2 (not_mem_observers first)
  have heard : state.observers.count (.recorder number) = 1 := by
    simp [state, Cache.subscribe, unheard]
  have start : heardBy number (cache.run before).2.2 = [] := by
    rw [heardBy_run first, quiet]
    simp
  have rest : heardBy number (state.run after).2.2 = state.emitted after := by
    rw [heardBy_run once, heard]
    exact List.flatMap_singleton' _
  rw [run_append, heardBy_append, start, run_cons, heardBy_append, notices_step]
  exact rest

/-! ## The last hit rate -/

theorem lastRate_append (events later : List Event) :
    lastRate (events ++ later) = (lastRate later).or (lastRate events) := by
  rw [lastRate, List.filterMap_append, List.getLast?_append]
  rfl

theorem lastRate_emits (cache : Cache) (operation : Operation) :
    (cache.emits operation = [] ∧ (cache.perform operation).2.hitRate = cache.hitRate) ∨
      lastRate (cache.emits operation) = some (cache.perform operation).2.hitRate := by
  cases operation with
  | access address kind => exact .inr rfl
  | undo =>
      rw [emits, perform_undo]
      cases stack : cache.undoStack with
      | nil => simp [undo_of_nil stack, Reply.events]
      | cons record rest =>
          rw [undo_fst_of_cons stack]
          exact .inr (lastRate_append _ [.hitRate _])
  | setUndoDepth depth => exact .inl ⟨rfl, rfl⟩
  | reset => exact .inr rfl
  | set setting =>
      rw [emits]
      obtain ⟨-, performed⟩ | ⟨-, error, performed⟩ := cache.perform_set_cases setting
      · rw [performed]
        exact .inr rfl
      · rw [performed]
        exact .inl ⟨rfl, rfl⟩
  | subscribe observer => exact .inl ⟨rfl, rfl⟩

theorem lastRate_emitted (cache : Cache) (operations : List Operation) :
    (cache.emitted operations = [] ∧ (cache.run operations).2.1.hitRate = cache.hitRate) ∨
      lastRate (cache.emitted operations) = some (cache.run operations).2.1.hitRate := by
  induction operations generalizing cache with
  | nil => exact .inl ⟨rfl, rfl⟩
  | cons operation rest ih =>
      rw [emitted, run_cons, lastRate_append]
      rcases ih (cache.perform operation).2 with ⟨none, same⟩ | told
      · rw [none, same, List.append_nil]
        exact lastRate_emits cache operation
      · exact .inr (by rw [told, Option.some_or])

/-! ## Runs of a new cache -/

/-- The broadcast of a run that starts without observers. A query is a function of the cache, so
that it tells nothing to anyone. -/
structure Broadcasts (cache : Cache) (operations : List Operation) : Prop where
  determined : cache.emitted (unobserved operations) = cache.emitted operations
  unobserved : cache.run (unobserved operations) =
    (unobservedReplies operations (cache.run operations).1, (cache.run operations).2.1.muted, [])
  delivered : (cache.run operations).2.2 =
    broadcast (cache.emitted operations).zipIdx (cache.subscriptions 0 operations)
  heard : ∀ number before after, operations = before ++ .subscribe (.recorder number) :: after →
    .subscribe (.recorder number) ∉ before → .subscribe (.recorder number) ∉ after →
    let log := heardBy number (cache.run operations).2.2
    log = (cache.emitted operations).drop (cache.emitted before).length ∧
      (log ≠ [] → lastRate log = some (cache.run operations).2.1.counters.latest.hitRate)
  nested : ∀ number other, operations.count (.subscribe (.recorder number)) = 1 →
    operations.count (.subscribe (.recorder other)) = 1 →
    let log := heardBy number (cache.run operations).2.2
    let logOther := heardBy other (cache.run operations).2.2
    log <:+ logOther ∨ logOther <:+ log

theorem exists_split_of_count {operations : List Operation} {operation : Operation}
    (once : operations.count operation = 1) :
    ∃ before after, operations = before ++ operation :: after ∧ operation ∉ before ∧
      operation ∉ after := by
  have mem : operation ∈ operations := List.count_pos_iff.1 (by omega)
  obtain ⟨before, after, rfl, first⟩ := List.eq_append_cons_of_mem mem
  refine ⟨before, after, rfl, first, ?_⟩
  rw [List.count_append, List.count_cons_self, List.count_eq_zero.2 first] at once
  exact List.count_eq_zero.1 (by omega)

theorem heardBy_eq_drop {cache : Cache} (quiet : cache.observers = []) {number : Nat}
    {before after : List Operation} (first : .subscribe (.recorder number) ∉ before)
    (once : .subscribe (.recorder number) ∉ after) :
    let operations := before ++ .subscribe (.recorder number) :: after
    let log := heardBy number (cache.run operations).2.2
    log = (cache.emitted operations).drop (cache.emitted before).length ∧
      (log ≠ [] → lastRate log = some (cache.run operations).2.1.hitRate) := by
  intro operations log
  let state := (cache.run before).2.1.subscribe (.recorder number)
  have suffix : log = state.emitted after := heardBy_subscriber quiet first once
  have final : (cache.run operations).2.1 = (state.run after).2.1 := by
    rw [run_append, run_cons]
    rfl
  constructor
  · rw [suffix, emitted_append, List.drop_left]
    rfl
  · intro told
    rw [suffix] at told ⊢
    rw [final]
    rcases lastRate_emitted state after with ⟨none, -⟩ | last
    · exact absurd none told
    · exact last

theorem broadcasts {config : Config} {source : RandomSource} {cache : Cache}
    (built : Cache.new config source = .ok cache) (operations : List Operation) :
    cache.Broadcasts operations := by
  have quiet : cache.observers = [] := by
    obtain ⟨-, rfl⟩ := new_eq_ok_iff.1 built
    rfl
  have muted : cache.muted = cache := by
    rw [Cache.muted, ← quiet]
  obtain ⟨run, emitted⟩ := cache.run_muted operations
  rw [muted] at run emitted
  have heard {number : Nat} (once : operations.count (.subscribe (.recorder number)) = 1) :
      ∃ start, heardBy number (cache.run operations).2.2 = (cache.emitted operations).drop start := by
    obtain ⟨before, after, rfl, first, once⟩ := exists_split_of_count once
    exact ⟨_, (heardBy_eq_drop quiet first once).1⟩
  refine ⟨emitted, run, ?_, ?_, ?_⟩
  · exact notices_run [] quiet.symm 0 (fun _ mem => nomatch mem) operations
  · rintro number before after rfl first once
    exact heardBy_eq_drop quiet first once
  · intro number other once onceOther log logOther
    obtain ⟨start, suffix⟩ := heard once
    obtain ⟨startOther, suffixOther⟩ := heard onceOther
    rw [show log = _ from suffix, show logOther = _ from suffixOther]
    rcases Nat.le_total start startOther with le | le
    · exact .inr (List.drop_suffix_drop_left _ le)
    · exact .inl (List.drop_suffix_drop_left _ le)

/-- Two recorders and a silent observer, around an access that is undone and a setting that is
refused. -/
theorem broadcasts_two_recorders :
    let cache : Cache := { config := { blockBits := 0, lineBits := 0, wayBits := 1 } }
    let operations : List Operation :=
      [.subscribe (.recorder 0), .access 8 .write, .subscribe .silent, .set (.wayBits 6),
        .subscribe (.recorder 1), .undo, .access 4 .read, .reset]
    Cache.new cache.config cache.source = .ok cache ∧ cache.Broadcasts operations ∧
      (heardBy 0 (cache.run operations).2.2).length = 8 ∧
      (heardBy 1 (cache.run operations).2.2).length = 6 :=
  have built : Cache.new { blockBits := 0, lineBits := 0, wayBits := 1 } = .ok _ := rfl
  ⟨built, broadcasts built _, rfl, rfl⟩

end Cache

end SetAssoc
