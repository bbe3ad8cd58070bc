import SetAssoc.Proofs.Line.Placement

/-!
# The contents of a cache

A cache is read as a function of line and way index (`Contents`). An undo record keeps the old
contents of one way, and the ranks of all other ways of its line have to be worked out from the rank
in it: `Contents.rewind` says how.
-/

namespace SetAssoc

open Function (update update_self update_of_ne)

abbrev Contents := Nat → Ways

namespace Contents

def rewind (config : Config) (contents : Contents) (record : UndoRecord) : Contents :=
  match record.transaction.way with
  | some way =>
      update contents record.transaction.location.line
        (Ways.withdraw config (contents record.transaction.location.line) way record.previous)
  | none => contents

def Sound (config : Config) (contents : Contents) : Prop :=
  ∀ index, Ways.Sound config (contents index)

/-- The lines are sound, also after any number of records was rewound. -/
def Rewindable (config : Config) : Contents → List UndoRecord → Prop
  | contents, [] => Sound config contents
  | contents, record :: rest =>
      Sound config contents ∧ Rewindable config (contents.rewind config record) rest

variable {config : Config} {contents : Contents} {records : List UndoRecord}

theorem Rewindable.sound (rewindable : contents.Rewindable config records) :
    contents.Sound config := by
  cases records with
  | nil => exact rewindable
  | cons record rest => exact rewindable.1

theorem Rewindable.take (rewindable : contents.Rewindable config records) (depth : Nat) :
    contents.Rewindable config (records.take depth) := by
  induction depth generalizing contents records with
  | zero => exact rewindable.sound
  | succ depth ih =>
      cases records with
      | nil => exact rewindable
      | cons record rest => exact ⟨rewindable.1, ih rewindable.2⟩

theorem sound_update (sound : contents.Sound config) {index : Nat} {ways : Ways}
    (replaced : Ways.Sound config ways) : Sound config (update contents index ways) := by
  intro other
  by_cases same : other = index
  · rw [same, update_self]
    exact replaced
  · rw [update_of_ne same]
    exact sound other

end Contents

namespace Cache

attribute [ext] Cache

/-! ## Lines and ways of changed caches -/

theorem line_insert (cache : Cache) (index : Nat) (l : Line) :
    Cache.line { cache with lines := cache.lines.insert index l } = update cache.line index l := by
  funext other
  by_cases same : other = index
  · rw [same, update_self, line, Std.ExtTreeMap.getElem?_insert_self, Option.getD_some]
  · rw [update_of_ne same, line, Std.ExtTreeMap.getElem?_insert, if_neg]
    · rfl
    · rw [Std.LawfulEqCmp.compare_eq_iff_eq]
      exact Ne.symm same

theorem line_alter {cache : Cache} {index : Nat} (created : index ∈ cache.lines) (change : Line → Line) :
    Cache.line { cache with lines := cache.lines.alter index (Option.map change) } =
      update cache.line index (change (cache.line index)) := by
  funext other
  rw [line, Std.ExtTreeMap.getElem?_alter]
  by_cases same : other = index
  · rw [same, update_self, if_pos (by simp), line, Std.ExtTreeMap.getElem?_eq_some_getElem created]
    rfl
  · rw [update_of_ne same, if_neg]
    · rfl
    · rw [Std.LawfulEqCmp.compare_eq_iff_eq]
      exact Ne.symm same

theorem way_eq (cache : Cache) (index : Nat) : cache.way index = (cache.line index).way := rfl

theorem mem_lines_of_mem_line {cache : Cache} {index i : Nat} (created : i ∈ cache.line index) :
    index ∈ cache.lines := by
  by_cases mem : index ∈ cache.lines
  · exact mem
  · rw [line, Std.ExtTreeMap.getElem?_eq_none mem] at created
    exact absurd created Std.ExtTreeMap.not_mem_empty

/-! ## What an access does to the contents -/

def location (cache : Cache) (address : UInt32) : Location :=
  cache.layout.split (wordAddress address)

theorem contains_iff (cache : Cache) (address : UInt32) : cache.contains address = true ↔
    ∃ i, (cache.way (cache.location address).line i).holds (cache.location address).tag = true := by
  rw [contains, ← location, Option.isSome_iff_ne_none, ne_eq, Line.find?_eq_none_iff, not_forall]
  simp only [Bool.not_eq_false]
  rfl

theorem allocates_iff {kind : AccessKind} {policy : WriteAllocation} :
    kind.allocates policy = true ↔ kind = .read ∨ policy = .writeAllocate := by
  cases kind <;> cases policy <;> decide

def placement? (cache : Cache) (address : UInt32) (kind : AccessKind) : Option Placement :=
  (cache.config.place cache.source (cache.line (cache.location address).line)
    (cache.location address).tag (kind.allocates cache.config.writeAllocation)).1

def undoRecord (cache : Cache) (address : UInt32) (kind : AccessKind) : UndoRecord where
  transaction := (cache.access address kind).1
  previous :=
    match (cache.access address kind).1.way with
    | some way => cache.way (cache.location address).line way
    | none => .empty

variable (cache : Cache) (address : UInt32) (kind : AccessKind)

theorem transaction_access : (cache.access address kind).1 =
    .ofPlacement cache.config cache.layout (wordAddress address) kind (cache.placement? address kind) :=
  rfl

theorem config_access : (cache.access address kind).2.config = cache.config := rfl

theorem way_access_fst : (cache.access address kind).1.way =
    (cache.placement? address kind).map (·.way) := rfl

theorem lines_access : (cache.access address kind).2.lines =
    match cache.placement? address kind with
    | some placement =>
        cache.lines.insert (cache.location address).line
          (placement.settle cache.config kind (cache.location address).block)
    | none => cache.lines := rfl

theorem source_access : (cache.access address kind).2.source =
    (cache.config.place cache.source (cache.line (cache.location address).line)
      (cache.location address).tag (kind.allocates cache.config.writeAllocation)).2 := rfl

theorem counters_access : (cache.access address kind).2.counters =
    cache.counters.push (cache.access address kind).1 := rfl

theorem undoStack_access : (cache.access address kind).2.undoStack =
    ({ transaction := (cache.access address kind).1
       previous := ((cache.placement? address kind).map (·.previous)).getD .empty } ::
      cache.undoStack).take cache.undoDepth := rfl

theorem getElem?_lines_access {index : Nat} (distinct : index ≠ (cache.location address).line) :
    (cache.access address kind).2.lines[index]? = cache.lines[index]? := by
  rw [lines_access]
  cases cache.placement? address kind with
  | none => rfl
  | some placement =>
      rw [Std.ExtTreeMap.getElem?_insert, if_neg]
      rw [Std.LawfulEqCmp.compare_eq_iff_eq]
      exact Ne.symm distinct

theorem line_access_of_some {cache : Cache} {address : UInt32} {kind : AccessKind}
    {placement : Placement} (placed : cache.placement? address kind = some placement) :
    (cache.access address kind).2.line =
      update cache.line (cache.location address).line
        (placement.settle cache.config kind (cache.location address).block) := by
  have lines := cache.lines_access address kind
  rw [placed] at lines
  rw [← line_insert]
  unfold line
  rw [lines]

theorem line_access_of_none {cache : Cache} {address : UInt32} {kind : AccessKind}
    (bypass : cache.placement? address kind = none) :
    (cache.access address kind).2.line = cache.line := by
  have lines := cache.lines_access address kind
  rw [bypass] at lines
  unfold line
  rw [lines]

end Cache

end SetAssoc
