import SetAssoc.Proofs.Address
import SetAssoc.Proofs.Cache.Undo

/-!
# Lines are independent

Under least recently used replacement an access reads and writes the line of its address and no
other part of the lines. So what becomes of a line is decided by the accesses to it, in their order.
-/

namespace SetAssoc

theorem Config.place_of_lru {config : Config} (lru : config.replacement = .lru)
    (source other : RandomSource) (line : Line) (tag : Nat) (allocates : Bool) :
    (config.place source line tag allocates).1 = (config.place other line tag allocates).1 := by
  unfold place chooseWay chooseWay?
  rw [lru]
  cases line.find? tag with
  | some way => rfl
  | none => cases allocates <;> by_cases single : config.ways = 1 <;> simp [single]

def Request.line (request : Request) (layout : Layout) : Nat := layout.lineIndex request.address

theorem Counters.record_comm (counters : Counters) (t u : Transaction) :
    (counters.record t).record u = (counters.record u).record t := by
  simp only [record, Nat.add_right_comm]

namespace Cache

structure AgreesAt (index : Nat) (cache other : Cache) : Prop where
  config_eq : cache.config = other.config
  layout_eq : cache.layout = other.layout
  line_eq : cache.lines[index]? = other.lines[index]?

variable {index : Nat} {cache other third : Cache}

theorem location_line (cache : Cache) (request : Request) :
    (cache.location request.address).line = request.line cache.layout :=
  cache.layout.lineIndex_wordAddress request.address

namespace AgreesAt

theorem refl (index : Nat) (cache : Cache) : AgreesAt index cache cache := ⟨rfl, rfl, rfl⟩

theorem symm (agrees : AgreesAt index cache other) : AgreesAt index other cache :=
  ⟨agrees.config_eq.symm, agrees.layout_eq.symm, agrees.line_eq.symm⟩

theorem trans (agrees : AgreesAt index cache other) (further : AgreesAt index other third) :
    AgreesAt index cache third :=
  ⟨agrees.config_eq.trans further.config_eq, agrees.layout_eq.trans further.layout_eq,
    agrees.line_eq.trans further.line_eq⟩

end AgreesAt

theorem agreesAt_access (cache : Cache) {request : Request}
    (elsewhere : request.line cache.layout ≠ index) :
    AgreesAt index (cache.access request.address request.kind).2 cache := by
  refine ⟨rfl, rfl, getElem?_lines_access _ _ _ ?_⟩
  rw [location_line]
  exact elsewhere.symm

theorem AgreesAt.access (agrees : AgreesAt index cache other) (lru : cache.config.replacement = .lru)
    {request : Request} (here : request.line cache.layout = index) :
    (cache.access request.address request.kind).1 = (other.access request.address request.kind).1 ∧
      AgreesAt index (cache.access request.address request.kind).2
        (other.access request.address request.kind).2 := by
  have location : other.location request.address = cache.location request.address := by
    rw [Cache.location, Cache.location, agrees.layout_eq]
  have own : (cache.location request.address).line = index := (cache.location_line request).trans here
  have line : other.line index = cache.line index := by
    rw [Cache.line, Cache.line, agrees.line_eq]
  have placed : other.placement? request.address request.kind =
      cache.placement? request.address request.kind := by
    rw [placement?, placement?, location, own, line, ← agrees.config_eq]
    exact Config.place_of_lru lru _ _ _ _ _
  have transaction : (cache.access request.address request.kind).1 =
      (other.access request.address request.kind).1 := by
    rw [transaction_access, transaction_access, placed, agrees.config_eq, agrees.layout_eq]
  refine ⟨transaction, agrees.config_eq, agrees.layout_eq, ?_⟩
  rw [lines_access, lines_access, placed, location, own, agrees.config_eq]
  cases cache.placement? request.address request.kind with
  | none => exact agrees.line_eq
  | some placement => simp only [Std.ExtTreeMap.getElem?_insert_self]

/-! ## The accesses to one line -/

theorem AgreesAt.accessAll_filter (agrees : AgreesAt index cache other)
    (lru : cache.config.replacement = .lru) (requests : List Request) :
    let own := requests.filter fun request => request.line cache.layout = index
    ((requests.zip (cache.accessAll requests).1).filter fun entry =>
        entry.1.line cache.layout = index) = own.zip (other.accessAll own).1 ∧
      AgreesAt index (cache.accessAll requests).2 (other.accessAll own).2 := by
  induction requests generalizing cache other with
  | nil => exact ⟨rfl, agrees⟩
  | cons request rest ih =>
      by_cases here : request.line cache.layout = index
      · obtain ⟨transaction, after⟩ := agrees.access lru here
        obtain ⟨transactions, final⟩ := ih after lru
        simp only [List.filter_cons, here, decide_true, if_true, accessAll_cons, List.zip_cons_cons,
          transaction]
        exact ⟨congrArg _ transactions, final⟩
      · obtain ⟨transactions, final⟩ := ih ((cache.agreesAt_access here).trans agrees) lru
        simp only [List.filter_cons, here, decide_false, Bool.false_eq_true, if_false, accessAll_cons,
          List.zip_cons_cons]
        exact ⟨transactions, final⟩

theorem agreesAt_accessAll (lru : cache.config.replacement = .lru) {requests others : List Request}
    (same : (requests.filter fun request => request.line cache.layout = index) =
      others.filter fun request => request.line cache.layout = index) :
    AgreesAt index (cache.accessAll requests).2 (cache.accessAll others).2 := by
  have own := ((AgreesAt.refl index cache).accessAll_filter lru requests).2
  have ownOther := ((AgreesAt.refl index cache).accessAll_filter lru others).2
  rw [← same] at ownOther
  exact own.trans ownOther.symm

/-! ## Exchanging accesses -/

theorem filter_exchange {layout : Layout} {first second : Request}
    (distinct : first.line layout ≠ second.line layout) (index : Nat) (before after : List Request) :
    ((before ++ first :: second :: after).filter fun request => request.line layout = index) =
      (before ++ second :: first :: after).filter fun request => request.line layout = index := by
  rw [List.filter_append, List.filter_append]
  by_cases here : first.line layout = index
  · have elsewhere : second.line layout ≠ index := fun same => distinct (here.trans same.symm)
    simp [here, elsewhere]
  · by_cases hereSecond : second.line layout = index <;> simp [here, hereSecond]

theorem accessAll_congr (lru : cache.config.replacement = .lru)
    (agrees : ∀ index, AgreesAt index cache other) (requests : List Request) :
    (cache.accessAll requests).1 = (other.accessAll requests).1 ∧
      ∀ index, AgreesAt index (cache.accessAll requests).2 (other.accessAll requests).2 := by
  induction requests generalizing cache other with
  | nil => exact ⟨rfl, agrees⟩
  | cons request rest ih =>
      obtain ⟨transaction, here⟩ := (agrees (request.line cache.layout)).access lru rfl
      have layout := (agrees 0).layout_eq
      have after (index : Nat) : AgreesAt index (cache.access request.address request.kind).2
          (other.access request.address request.kind).2 := by
        by_cases same : request.line cache.layout = index
        · exact same ▸ here
        · have elsewhere : request.line other.layout ≠ index := layout ▸ same
          exact (cache.agreesAt_access same).trans
              ((agrees index).trans (other.agreesAt_access elsewhere).symm)
      have same : (cache.access request.address request.kind).2.config.replacement = .lru := lru
      obtain ⟨transactions, final⟩ := ih same after
      rw [accessAll_cons, accessAll_cons, transaction, transactions]
      exact ⟨rfl, final⟩

theorem access_comm (lru : cache.config.replacement = .lru) {first second : Request}
    (distinct : first.line cache.layout ≠ second.line cache.layout) :
    let one := cache.accessAll [first, second]
    let other := cache.accessAll [second, first]
    other.1 = one.1.reverse ∧ ∀ index, AgreesAt index one.2 other.2 := by
  obtain ⟨firstSame, -⟩ := (cache.agreesAt_access distinct.symm).access lru rfl
  obtain ⟨secondSame, -⟩ := (cache.agreesAt_access distinct).access lru rfl
  refine ⟨?_, fun index => agreesAt_accessAll lru (filter_exchange distinct index [] [])⟩
  simp only [accessAll, List.reverse_cons, List.reverse_nil, List.nil_append, List.singleton_append]
  rw [firstSame, secondSame]

theorem transactions_exchange (lru : cache.config.replacement = .lru) {first second : Request}
    (distinct : first.line cache.layout ≠ second.line cache.layout) (after : List Request) :
    ∃ t u later, (cache.accessAll (first :: second :: after)).1 = t :: u :: later ∧
      (cache.accessAll (second :: first :: after)).1 = u :: t :: later := by
  obtain ⟨reversed, agrees⟩ := access_comm lru distinct
  have lruAfter : (cache.accessAll [first, second]).2.config.replacement = .lru := lru
  have later := (accessAll_congr lruAfter agrees after).1
  have split (a b : Request) : (cache.accessAll (a :: b :: after)).1 =
      (cache.accessAll [a, b]).1 ++ ((cache.accessAll [a, b]).2.accessAll after).1 :=
    congrArg Prod.fst (accessAll_append cache [a, b] after)
  refine ⟨_, _, _, split first second, ?_⟩
  rw [split second first, reversed, ← later]
  rfl

theorem latest_accessAll (cache : Cache) (requests : List Request) :
    (cache.accessAll requests).2.counters.latest =
      (cache.accessAll requests).1.foldl Counters.record cache.counters.latest := by
  induction requests generalizing cache with
  | nil => rfl
  | cons request rest ih => exact ih _

structure Exchanged (before : List Request) (one other : List Transaction × Cache) : Prop where
  transactions : ∃ earlier t u later, earlier.length = before.length ∧
    one.1 = earlier ++ t :: u :: later ∧ other.1 = earlier ++ u :: t :: later
  lines_eq : one.2.lines = other.2.lines
  latest_eq : one.2.counters.latest = other.2.counters.latest

theorem exchanged_accessAll (lru : cache.config.replacement = .lru) {first second : Request}
    (distinct : first.line cache.layout ≠ second.line cache.layout) (before after : List Request) :
    Exchanged before (cache.accessAll (before ++ first :: second :: after))
      (cache.accessAll (before ++ second :: first :: after)) := by
  have transactions : ∃ earlier t u later, earlier.length = before.length ∧
      (cache.accessAll (before ++ first :: second :: after)).1 = earlier ++ t :: u :: later ∧
      (cache.accessAll (before ++ second :: first :: after)).1 = earlier ++ u :: t :: later := by
    have lruAfter : (cache.accessAll before).2.config.replacement = .lru := by rwa [config_accessAll]
    have distinctAfter := distinct
    rw [← layout_accessAll cache before] at distinctAfter
    obtain ⟨t, u, later, one, other⟩ := transactions_exchange lruAfter distinctAfter after
    refine ⟨(cache.accessAll before).1, t, u, later, length_accessAll cache before, ?_, ?_⟩
    · rw [accessAll_append, one]
    · rw [accessAll_append, other]
  refine ⟨transactions, ?_, ?_⟩
  · apply Std.ExtTreeMap.ext_getElem?
    intro index
    exact (agreesAt_accessAll lru (filter_exchange distinct index before after)).line_eq
  · obtain ⟨earlier, t, u, later, -, one, other⟩ := transactions
    rw [latest_accessAll, latest_accessAll, one, other]
    simp only [List.foldl_append, List.foldl_cons]
    rw [Counters.record_comm]

/-- Each line follows from the accesses to it alone, and neighbouring accesses to different lines
can be exchanged. -/
structure LinesIndependent (cache : Cache) : Prop where
  line_eq : ∀ (requests : List Request) (index : Nat),
    let own := requests.filter fun request => request.line cache.layout = index
    (cache.accessAll requests).2.lines[index]? = (cache.accessAll own).2.lines[index]?
  transactions_eq : ∀ (requests : List Request) (index : Nat),
    let own := requests.filter fun request => request.line cache.layout = index
    ((requests.zip (cache.accessAll requests).1).filter fun entry =>
      entry.1.line cache.layout = index) = own.zip (cache.accessAll own).1
  exchanged : ∀ before (first second : Request) after,
    first.line cache.layout ≠ second.line cache.layout →
    Exchanged before (cache.accessAll (before ++ first :: second :: after))
      (cache.accessAll (before ++ second :: first :: after))

theorem independent_lines {config : Config} (geometry : config.Valid) (lru : config.replacement = .lru)
    (source : RandomSource) : ∃ fresh, Cache.new config source = .ok fresh ∧ fresh.LinesIndependent := by
  have built : Cache.new config source = .ok { config, source } := new_eq_ok_iff.2 ⟨geometry, rfl⟩
  refine ⟨_, built, ?_, ?_, ?_⟩
  · intro requests index
    exact ((AgreesAt.refl index _).accessAll_filter lru requests).2.line_eq
  · intro requests index
    exact ((AgreesAt.refl index _).accessAll_filter lru requests).1
  · intro before first second after distinct
    exact exchanged_accessAll lru distinct before after

theorem independent_lines_two_ways :
    let config : Config :=
      { blockBits := 1, lineBits := 2, wayBits := 1, writeAllocation := .noWriteAllocate }
    (config.Valid ∧ config.replacement = .lru) ∧
      ∃ fresh, Cache.new config = .ok fresh ∧ fresh.LinesIndependent :=
  ⟨⟨by decide, rfl⟩, independent_lines (by decide) rfl default⟩

end Cache

end SetAssoc
