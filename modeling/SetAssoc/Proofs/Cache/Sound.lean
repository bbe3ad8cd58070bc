import SetAssoc.Proofs.Cache.Contents

/-!
# Sound caches

`Cache.Sound` is what holds of a cache between operations. It speaks about the lines and about the
pending undo records alike: the lines are sound, and would be after any number of records was
rewound.
-/

namespace SetAssoc

open Function (update update_self update_of_ne)

namespace Cache

structure Sound (cache : Cache) : Prop where
  geometry : cache.config.Valid
  layout_eq : cache.layout = cache.config.layout
  bounded : ∀ index, (cache.line index).Bounded cache.config
  rewindable : Contents.Rewindable cache.config cache.way cache.undoStack
  created : ∀ record ∈ cache.undoStack, ∀ way, record.transaction.way = some way →
    way ∈ cache.line record.transaction.location.line
  undo_le : cache.undoStack.length ≤ cache.undoDepth

namespace Sound

variable {cache : Cache} {address : UInt32} {kind : AccessKind} {placement : Placement}

theorem location_eq (sound : cache.Sound) (address : UInt32) :
    cache.location address = cache.config.layout.split (wordAddress address) := by
  rw [location, sound.layout_eq]

theorem line (sound : cache.Sound) (index : Nat) :
    Ways.Sound cache.config (cache.line index).way := sound.rewindable.sound index

theorem valid_of_dirty (sound : cache.Sound) {line way : Nat}
    (dirty : (cache.way line way).dirty = true) : (cache.way line way).valid = true := by
  by_contra invalid
  have empty : cache.way line way = Way.empty :=
    (sound.line line).eq_empty (Bool.eq_false_of_not_eq_true invalid)
  rw [empty] at dirty
  cases dirty

theorem suits (sound : cache.Sound) (placed : cache.placement? address kind = some placement) :
    placement.Suits cache.config (cache.line (cache.location address).line)
      (cache.location address).tag :=
  Config.suits_of_place (sound.line _) (sound.bounded _) placed

theorem way_settle (sound : cache.Sound) (placed : cache.placement? address kind = some placement) :
    (placement.settle cache.config kind (cache.location address).block).way =
      Ways.store cache.config (cache.way (cache.location address).line) placement.way
        (placement.stored cache.config kind (cache.location address).block) :=
  (sound.suits placed).way_settle sound.geometry (sound.line _) kind _

theorem way_access_of_some (sound : cache.Sound)
    (placed : cache.placement? address kind = some placement) :
    (cache.access address kind).2.way =
      update cache.way (cache.location address).line
        (Ways.store cache.config (cache.way (cache.location address).line) placement.way
          (placement.stored cache.config kind (cache.location address).block)) := by
  rw [← sound.way_settle placed]
  funext index
  rw [way_eq, line_access_of_some placed]
  by_cases same : index = (cache.location address).line
  · rw [same, update_self, update_self]
  · rw [update_of_ne same, update_of_ne same]
    rfl

end Sound

theorem way_access_of_none {cache : Cache} {address : UInt32} {kind : AccessKind}
    (bypass : cache.placement? address kind = none) :
    (cache.access address kind).2.way = cache.way := by
  funext index
  rw [way_eq, line_access_of_none bypass]
  rfl

namespace Sound

variable {cache : Cache} {address : UInt32} {kind : AccessKind}

theorem previous_undoRecord (sound : cache.Sound) (address : UInt32) (kind : AccessKind) :
    (cache.undoRecord address kind).previous =
      ((cache.placement? address kind).map (·.previous)).getD .empty := by
  cases placed : cache.placement? address kind with
  | none =>
      rw [undoRecord, way_access_fst, placed]
      rfl
  | some placement =>
      rw [undoRecord, way_access_fst, placed]
      exact (sound.suits placed).previous_eq.symm

theorem rewind_access (sound : cache.Sound) (address : UInt32) (kind : AccessKind) :
    Contents.rewind cache.config (cache.access address kind).2.way (cache.undoRecord address kind) =
      cache.way := by
  have way : (cache.undoRecord address kind).transaction.way =
      (cache.placement? address kind).map (·.way) := rfl
  have location : (cache.undoRecord address kind).transaction.location = cache.location address := rfl
  cases placed : cache.placement? address kind with
  | none =>
      rw [Contents.rewind, way, placed, way_access_of_none placed]
      rfl
  | some placement =>
      have previous := sound.previous_undoRecord address kind
      rw [placed, Option.map_some, Option.getD_some, (sound.suits placed).previous_eq] at previous
      rw [Contents.rewind, way, placed, sound.way_access_of_some placed, location]
      simp only [Option.map_some, update_self, Function.update_idem, previous]
      have restored := (sound.line (cache.location address).line).withdraw_store sound.geometry
        placement.way (placement.stored cache.config kind (cache.location address).block)
      exact (congrArg (update cache.way (cache.location address).line) restored).trans
        (Function.update_eq_self _ _)

theorem undoStack_access (sound : cache.Sound) (address : UInt32) (kind : AccessKind) :
    (cache.access address kind).2.undoStack =
      (cache.undoRecord address kind :: cache.undoStack).take cache.undoDepth := by
  rw [Cache.undoStack_access, ← sound.previous_undoRecord]
  rfl

theorem mem_line_access (sound : cache.Sound) (address : UInt32) (kind : AccessKind)
    {index i : Nat} (created : i ∈ cache.line index) :
    i ∈ (cache.access address kind).2.line index := by
  cases placed : cache.placement? address kind with
  | none => rwa [line_access_of_none placed]
  | some placement =>
      rw [line_access_of_some placed]
      by_cases same : index = (cache.location address).line
      · subst same
        rw [update_self, Placement.mem_settle]
        exact (sound.suits placed).keeps i created
      · rwa [update_of_ne same]

theorem contents_access (sound : cache.Sound) (address : UInt32) (kind : AccessKind) :
    Contents.Sound cache.config (cache.access address kind).2.way := by
  cases placed : cache.placement? address kind with
  | none =>
      rw [way_access_of_none placed]
      exact sound.rewindable.sound
  | some placement =>
      rw [sound.way_access_of_some placed]
      apply Contents.sound_update sound.rewindable.sound
      rw [← sound.way_settle placed]
      exact (sound.suits placed).sound_settle sound.geometry (sound.line _) kind _

theorem bounded_access (sound : cache.Sound) (address : UInt32) (kind : AccessKind) (index : Nat) :
    ((cache.access address kind).2.line index).Bounded cache.config := by
  cases placed : cache.placement? address kind with
  | none =>
      rw [line_access_of_none placed]
      exact sound.bounded index
  | some placement =>
      rw [line_access_of_some placed]
      by_cases same : index = (cache.location address).line
      · intro i mem
        rw [same, update_self, Placement.mem_settle] at mem
        exact (sound.suits placed).bounded i mem
      · rw [update_of_ne same]
        exact sound.bounded index

theorem mem_line_of_resolved (sound : cache.Sound) {way : Nat}
    (resolved : (cache.access address kind).1.way = some way) :
    way ∈ (cache.access address kind).2.line (cache.location address).line := by
  rw [way_access_fst] at resolved
  cases placed : cache.placement? address kind with
  | none =>
      rw [placed] at resolved
      cases resolved
  | some placement =>
      rw [placed, Option.map_some, Option.some.injEq] at resolved
      subst resolved
      rw [line_access_of_some placed, update_self, Placement.mem_settle]
      exact (sound.suits placed).created

theorem access (sound : cache.Sound) (address : UInt32) (kind : AccessKind) :
    (cache.access address kind).2.Sound := by
  refine ⟨sound.geometry, sound.layout_eq, sound.bounded_access address kind, ?_, ?_, ?_⟩
  · rw [sound.undoStack_access]
    apply Contents.Rewindable.take
    refine ⟨sound.contents_access address kind, ?_⟩
    rw [config_access, sound.rewind_access]
    exact sound.rewindable
  · intro record mem way resolved
    rw [sound.undoStack_access] at mem
    rcases List.mem_cons.1 (List.mem_of_mem_take mem) with rfl | mem
    · exact sound.mem_line_of_resolved resolved
    · exact sound.mem_line_access address kind (sound.created record mem way resolved)
  · rw [sound.undoStack_access, List.length_take]
    exact Nat.min_le_left _ _

end Sound

/-! ## Undoing -/

variable {cache : Cache} {record : UndoRecord} {records : List UndoRecord}

theorem undo_of_nil (stack : cache.undoStack = []) : cache.undo = (none, cache) := by
  rw [undo, stack]

theorem undo_fst_of_cons (stack : cache.undoStack = record :: records) :
    cache.undo.1 = some record.transaction := by
  rw [undo, stack]

theorem config_undo : cache.undo.2.config = cache.config := by
  rw [undo]
  cases cache.undoStack <;> rfl

theorem layout_undo : cache.undo.2.layout = cache.layout := by
  rw [undo]
  cases cache.undoStack <;> rfl

theorem undoDepth_undo : cache.undo.2.undoDepth = cache.undoDepth := by
  rw [undo]
  cases cache.undoStack <;> rfl

theorem source_undo : cache.undo.2.source = cache.source := by
  rw [undo]
  cases cache.undoStack <;> rfl

theorem observers_undo : cache.undo.2.observers = cache.observers := by
  rw [undo]
  cases cache.undoStack <;> rfl

theorem undoStack_undo : cache.undo.2.undoStack = cache.undoStack.tail := by
  rw [undo]
  cases stack : cache.undoStack with
  | nil => exact stack
  | cons record rest => rfl

theorem counters_undo_of_cons (stack : cache.undoStack = record :: records) :
    cache.undo.2.counters = cache.counters.pop.2 := by
  rw [undo, stack]

theorem line_undo (stack : cache.undoStack = record :: records)
    (created : ∀ way, record.transaction.way = some way →
      way ∈ cache.line record.transaction.location.line) :
    cache.undo.2.line =
      match record.transaction.way with
      | some way =>
          update cache.line record.transaction.location.line
            (cache.config.restore (cache.line record.transaction.location.line) way record.previous)
      | none => cache.line := by
  cases resolved : record.transaction.way with
  | none =>
      rw [undo, stack]
      simp only [resolved]
      rfl
  | some way =>
      rw [undo, stack]
      simp only [resolved]
      exact line_alter (mem_lines_of_mem_line (created way resolved)) _

namespace Sound

theorem way_undo (sound : cache.Sound) (stack : cache.undoStack = record :: records) :
    cache.undo.2.way = Contents.rewind cache.config cache.way record := by
  have created := sound.created record (by rw [stack]; exact List.mem_cons_self)
  have lines := line_undo stack created
  funext index
  rw [way_eq, lines, Contents.rewind]
  cases resolved : record.transaction.way with
  | none => rfl
  | some way =>
      by_cases same : index = record.transaction.location.line
      · rw [same]
        simp only [update_self]
        exact Config.way_restore (created way resolved) record.previous
      · simp only [update_of_ne same]
        rfl

theorem mem_line_undo (sound : cache.Sound) (index i : Nat) :
    i ∈ cache.undo.2.line index ↔ i ∈ cache.line index := by
  cases stack : cache.undoStack with
  | nil => rw [undo_of_nil stack]
  | cons record rest =>
      rw [line_undo stack (sound.created record (by rw [stack]; exact List.mem_cons_self))]
      cases record.transaction.way with
      | none => rfl
      | some way =>
          by_cases same : index = record.transaction.location.line
          · subst same
            simp only [update_self]
            exact Config.mem_restore
          · simp only [update_of_ne same]

theorem undo (sound : cache.Sound) : cache.undo.2.Sound := by
  refine ⟨?_, ?_, ?_, ?_, ?_, ?_⟩
  · rw [config_undo]
    exact sound.geometry
  · rw [layout_undo, config_undo]
    exact sound.layout_eq
  · intro index i mem
    rw [config_undo]
    exact sound.bounded index i ((sound.mem_line_undo index i).1 mem)
  · cases stack : cache.undoStack with
    | nil =>
        rw [undo_of_nil stack]
        exact sound.rewindable
    | cons record rest =>
        have rewindable := sound.rewindable
        rw [stack] at rewindable
        rw [config_undo, undoStack_undo, sound.way_undo stack, stack]
        exact rewindable.2
  · intro record mem way resolved
    rw [undoStack_undo] at mem
    exact (sound.mem_line_undo _ _).2 (sound.created record (List.mem_of_mem_tail mem) way resolved)
  · rw [undoStack_undo, undoDepth_undo, List.length_tail]
    exact Nat.le_trans (Nat.sub_le _ _) sound.undo_le

theorem setUndoDepth (sound : cache.Sound) (depth : Nat) : (cache.setUndoDepth depth).Sound where
  geometry := sound.geometry
  layout_eq := sound.layout_eq
  bounded := sound.bounded
  rewindable := sound.rewindable.take depth
  created record mem := sound.created record (List.mem_of_mem_take mem)
  undo_le := by
    rw [Cache.setUndoDepth, List.length_take]
    exact Nat.min_le_left _ _

theorem subscribe (sound : cache.Sound) (observer : Observer) : (cache.subscribe observer).Sound :=
  ⟨sound.geometry, sound.layout_eq, sound.bounded, sound.rewindable, sound.created, sound.undo_le⟩

end Sound

theorem line_of_empty (lines : cache.lines = ∅) (index : Nat) : cache.line index = ∅ := by
  rw [Cache.line, lines, Std.ExtTreeMap.getElem?_empty]
  rfl

theorem way_of_empty (lines : cache.lines = ∅) (index : Nat) :
    cache.way index = fun _ => Way.empty := by
  funext i
  rw [way_eq, line_of_empty lines, Line.way_empty]

theorem sound_of_empty (geometry : cache.config.Valid) (layout : cache.layout = cache.config.layout)
    (lines : cache.lines = ∅) (stack : cache.undoStack = []) : cache.Sound := by
  refine ⟨geometry, layout, ?_, ?_, ?_, ?_⟩
  · intro index i mem
    rw [line_of_empty lines] at mem
    exact absurd mem Std.ExtTreeMap.not_mem_empty
  · rw [stack]
    intro index
    rw [way_of_empty lines]
    exact Ways.sound_empty
  · intro record mem
    rw [stack] at mem
    cases mem
  · rw [stack]
    exact Nat.zero_le _

theorem Sound.reset (sound : cache.Sound) : cache.reset.Sound :=
  sound_of_empty sound.geometry sound.layout_eq rfl rfl

theorem new_eq_ok_iff {config : Config} {source : RandomSource} :
    Cache.new config source = .ok cache ↔ config.Valid ∧ { config, source } = cache := by
  rw [← Config.validate_eq_ok_iff, Cache.new]
  cases config.validate <;> simp [Except.map]

theorem sound_new {config : Config} {source : RandomSource}
    (built : Cache.new config source = .ok cache) : cache.Sound := by
  obtain ⟨geometry, rfl⟩ := new_eq_ok_iff.1 built
  exact sound_of_empty geometry rfl rfl rfl

end Cache

end SetAssoc
