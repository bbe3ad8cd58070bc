import Std.Data.ExtTreeMap
import Std.Data.ExtTreeSet
import SetAssoc.Address
/-!
# Lines and ways

A line maps way indices to way metadata; no data is stored. Lines and ways are created when they are
first needed, and one that was never created reads as the empty way: this is what `Line.way` says.
-/

namespace SetAssoc

open Std (ExtTreeMap ExtTreeSet)

structure Way where
  tag : Nat
  valid : Bool
  dirty : Bool
  dirtyBlocks : ExtTreeSet Nat
  /-- Recency rank; 0 is the most recently used way of its line. -/
  rank : Nat
  deriving DecidableEq, Repr

namespace Way

/-- The rank of a way without a place in the recency order: above every rank that has one, so that
such a way is the oldest. -/
def unranked : Nat := 4294967295

def empty : Way where
  tag := 0
  valid := false
  dirty := false
  dirtyBlocks := ∅
  rank := unranked

instance : Inhabited Way := ⟨empty⟩

def loaded (tag : Nat) : Way := { empty with tag, valid := true }

def holds (way : Way) (tag : Nat) : Bool := way.valid && way.tag == tag

theorem holds_iff {w : Way} {tag : Nat} :
    w.holds tag = true ↔ w.valid = true ∧ w.tag = tag := by
  rw [holds, Bool.and_eq_true, beq_iff_eq]

def markDirty (way : Way) (block : Nat) : Way :=
  { way with dirty := true, dirtyBlocks := way.dirtyBlocks.insert block }

end Way

/-- The ways of one line that have been created. -/
abbrev Line := ExtTreeMap Nat Way

namespace Line

def way (l : Line) (index : Nat) : Way := l[index]?.getD Way.empty

def find? (line : Line) (tag : Nat) : Option Nat :=
  (line.toList.find? fun (_, way) => way.holds tag).map Prod.fst

def update (line : Line) (index : Nat) (change : Way → Way) : Line :=
  line.alter index (Option.map change)

def materialize (line : Line) (ways : Nat) : Line :=
  (List.range ways).foldl (fun line index => line.insertIfNew index Way.empty) line

/-! ## What the operations do to each way -/

variable (l : Line)

@[simp]
theorem way_empty (index : Nat) : way ∅ index = Way.empty := by
  simp [way]

@[simp]
theorem way_insert (index other : Nat) (w : Way) :
    way (l.insert index w) other = if index = other then w else l.way other := by
  by_cases h : index = other <;> simp [way, ExtTreeMap.getElem?_insert, h]

theorem getElem?_update (index other : Nat) (change : Way → Way) :
    (l.update index change)[other]? = if index = other then l[other]?.map change else l[other]? := by
  rw [update, ExtTreeMap.getElem?_alter]
  by_cases h : index = other <;> simp [h]

@[simp]
theorem mem_update (index other : Nat) (change : Way → Way) :
    other ∈ l.update index change ↔ other ∈ l := by
  simp only [ExtTreeMap.mem_iff_isSome_getElem?, getElem?_update]
  split <;> simp

@[simp]
theorem way_insertIfNew (index other : Nat) :
    way (l.insertIfNew index Way.empty) other = l.way other := by
  simp only [way, ExtTreeMap.getElem?_insertIfNew]
  split
  · rename_i h
    simp only [Std.LawfulEqCmp.compare_eq_iff_eq] at h
    obtain ⟨rfl, h⟩ := h
    simp [h]
  · rfl

@[simp]
theorem way_materialize (ways index : Nat) : (l.materialize ways).way index = l.way index := by
  have fold : ∀ (indices : List Nat) (l : Line),
      way (indices.foldl (fun line i => line.insertIfNew i Way.empty) l) index = l.way index := by
    intro indices
    induction indices with
    | nil => intro l; rfl
    | cons i rest ih => intro l; rw [List.foldl_cons, ih, way_insertIfNew]
  exact fold _ l

@[simp]
theorem mem_materialize (ways index : Nat) :
    index ∈ l.materialize ways ↔ index < ways ∨ index ∈ l := by
  have fold : ∀ (indices : List Nat) (l : Line),
      index ∈ indices.foldl (fun line i => line.insertIfNew i Way.empty) l ↔
        index ∈ indices ∨ index ∈ l := by
    intro indices
    induction indices with
    | nil => intro l; simp
    | cons i rest ih =>
        intro l
        rw [List.foldl_cons, ih, ExtTreeMap.mem_insertIfNew, Std.LawfulEqCmp.compare_eq_iff_eq,
          List.mem_cons]
        grind
  rw [materialize, fold, List.mem_range]

variable {l}

theorem way_of_not_mem {index : Nat} (h : index ∉ l) : l.way index = Way.empty := by
  rw [way, ExtTreeMap.getElem?_eq_none h, Option.getD_none]

theorem mem_of_valid {index : Nat} (h : (l.way index).valid = true) : index ∈ l := by
  by_cases mem : index ∈ l
  · exact mem
  · rw [way_of_not_mem mem] at h
    cases h

theorem way_update {index : Nat} (h : index ∈ l) (other : Nat) (change : Way → Way) :
    (l.update index change).way other = if index = other then change (l.way other) else l.way other := by
  rw [way, getElem?_update]
  split
  · rename_i e
    subst e
    simp [way, ExtTreeMap.getElem?_eq_some_getElem h]
  · rfl

theorem le_of_find?_toList {p : Nat × Way → Bool} {found : Nat × Way} (h : l.toList.find? p = some found)
    {index : Nat} {w : Way} (mem : l[index]? = some w) (satisfied : p (index, w) = true) :
    found.1 ≤ index := by
  obtain ⟨-, before, after, split, failed⟩ := List.find?_eq_some_iff_append.1 h
  have ordered := ExtTreeMap.ordered_keys_toList (t := l)
  rw [← ExtTreeMap.mem_toList_iff_getElem?_eq_some, split] at mem
  rw [split, List.pairwise_append, List.pairwise_cons] at ordered
  rcases List.mem_append.1 mem with mem | mem
  · have := failed _ mem
    simp [satisfied] at this
  · rcases List.mem_cons.1 mem with rfl | mem
    · exact Nat.le_refl _
    · exact Nat.le_of_lt (Nat.compare_eq_lt.1 (ordered.2.1.1 _ mem))

theorem holds_of_find?_eq_some {tag index : Nat} (h : l.find? tag = some index) :
    (l.way index).holds tag = true := by
  simp only [find?, Option.map_eq_some_iff] at h
  obtain ⟨⟨i, w⟩, found, rfl⟩ := h
  have mem := List.mem_of_find?_eq_some found
  have holds := List.find?_some found
  rw [ExtTreeMap.mem_toList_iff_getElem?_eq_some] at mem
  simpa [way, mem] using holds

theorem find?_eq_none_iff {tag : Nat} :
    l.find? tag = none ↔ ∀ index, (l.way index).holds tag = false := by
  simp only [find?, Option.map_eq_none_iff, List.find?_eq_none]
  constructor
  · intro h index
    cases e : l[index]? with
    | none => simp [way, e, Way.empty, Way.holds]
    | some w =>
        have := h (index, w) (ExtTreeMap.mem_toList_iff_getElem?_eq_some.2 e)
        simpa [way, e] using this
  · rintro h ⟨i, w⟩ mem
    rw [ExtTreeMap.mem_toList_iff_getElem?_eq_some] at mem
    simpa [way, mem] using h i

end Line

end SetAssoc
