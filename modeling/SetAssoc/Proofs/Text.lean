import Mathlib.Data.List.Basic
import SetAssoc.Text

/-!
# Lines and fields

How the lines of a text and the fields of a line follow from those of its parts.
-/

namespace SetAssoc.Text

/-! ## Lines -/

@[simp]
theorem splitLines_cons_feed (text : List Char) : splitLines ('\n' :: text) = [] :: splitLines text := by
  simp [splitLines]

theorem splitLines_cons {c : Char} {text line : List Char} {lines : List (List Char)} (other : c ≠ '\n')
    (split : splitLines text = line :: lines) : splitLines (c :: text) = (c :: line) :: lines := by
  unfold splitLines at split ⊢
  simp [other, split]

theorem exists_splitLines_eq (text : List Char) : ∃ line lines, splitLines text = line :: lines := by
  induction text with
  | nil => exact ⟨[], [], rfl⟩
  | cons c rest ih =>
      by_cases feed : c = '\n'
      · exact ⟨[], splitLines rest, by rw [feed, splitLines_cons_feed]⟩
      · obtain ⟨line, lines, split⟩ := ih
        exact ⟨c :: line, lines, splitLines_cons feed split⟩

theorem splitLines_append (above below : List Char) :
    splitLines (above ++ '\n' :: below) = splitLines above ++ splitLines below := by
  induction above with
  | nil => simp [splitLines]
  | cons c rest ih =>
      by_cases feed : c = '\n'
      · simp [feed, ih]
      · obtain ⟨line, lines, split⟩ := exists_splitLines_eq rest
        rw [List.cons_append, splitLines_cons feed split]
        apply splitLines_cons feed
        rw [ih, split]
        rfl

theorem splitLines_of_not_mem {line : List Char} (single : '\n' ∉ line) : splitLines line = [line] := by
  induction line with
  | nil => rfl
  | cons c rest ih =>
      simp only [List.mem_cons, not_or] at single
      exact splitLines_cons (Ne.symm single.1) (ih single.2)

theorem length_splitLines (text : List Char) : (splitLines text).length = text.count '\n' + 1 := by
  induction text with
  | nil => rfl
  | cons c rest ih =>
      by_cases feed : c = '\n'
      · simp [feed, ih]
      · obtain ⟨line, lines, split⟩ := exists_splitLines_eq rest
        simpa [splitLines_cons feed split, List.count_cons, feed, split] using ih

def OpensLine (before : List Char) : Prop := before = [] ∨ ∃ above, before = above ++ ['\n']

def ClosesLine (after : List Char) : Prop := after = [] ∨ ∃ below, after = '\n' :: below

theorem splitLines_of_opens {before : List Char} (opens : OpensLine before) (after : List Char) :
    splitLines (before ++ after) = (splitLines before).dropLast ++ splitLines after := by
  rcases opens with rfl | ⟨above, rfl⟩
  · rfl
  · have dropped : (splitLines (above ++ ['\n'])).dropLast = splitLines above := by
      rw [splitLines_append]
      exact List.dropLast_concat
    rw [dropped, List.append_assoc, List.singleton_append, splitLines_append]

theorem splitLines_around {before line after : List Char} (opens : OpensLine before)
    (closes : ClosesLine after) (single : '\n' ∉ line) :
    splitLines (before ++ line ++ after) =
      (splitLines before).dropLast ++ line :: (splitLines after).tail := by
  have below : splitLines (line ++ after) = line :: (splitLines after).tail := by
    rcases closes with rfl | ⟨below, rfl⟩
    · rw [List.append_nil, splitLines_of_not_mem single]
      rfl
    · rw [splitLines_append, splitLines_of_not_mem single]
      simp
  rw [List.append_assoc, splitLines_of_opens opens, below]

theorem length_dropLast_splitLines (before : List Char) :
    (splitLines before).dropLast.length = before.count '\n' := by
  rw [List.length_dropLast, length_splitLines, Nat.add_sub_cancel]

theorem lines_induction {motive : List Char → Prop} (last : ∀ line, '\n' ∉ line → motive line)
    (feed : ∀ line below, '\n' ∉ line → motive below → motive (line ++ '\n' :: below))
    (text : List Char) : motive text := by
  -- on the number of line feeds: the text below the first one has one less
  induction count : text.count '\n' generalizing text with
  | zero => exact last text (List.count_eq_zero.1 count)
  | succ count ih =>
      have mem : '\n' ∈ text := List.count_pos_iff.1 (by omega)
      obtain ⟨line, below, rfl, single⟩ := List.eq_append_cons_of_mem mem
      apply feed line below single
      apply ih
      simpa [List.count_eq_zero.2 single] using count

/-! ## Fields -/

theorem fields_append_left {blanks : List Char} (blank : ∀ c ∈ blanks, isBlank c = true)
    (line : List Char) : fields (blanks ++ line) = fields line := by
  induction blanks with
  | nil => rfl
  | cons c rest ih =>
      simp only [List.mem_cons, forall_eq_or_imp] at blank
      simpa [fields, fieldsAfter, blank.1] using ih blank.2

theorem fieldsAfter_append_right {blanks : List Char} (blank : ∀ c ∈ blanks, isBlank c = true)
    (current line : List Char) : fieldsAfter current (line ++ blanks) = fieldsAfter current line := by
  induction line generalizing current with
  | nil =>
      cases blanks with
      | nil => rfl
      | cons c rest =>
          simp only [List.mem_cons, forall_eq_or_imp] at blank
          have none : fieldsAfter [] rest = [] := by
            simpa [fields, fieldsAfter] using fields_append_left blank.2 []
          cases current <;> simp [fieldsAfter, blank.1, none]
  | cons c rest ih =>
      rw [List.cons_append, fieldsAfter, fieldsAfter, ih, ih]

theorem fields_pad {lead trail : List Char} (leadBlank : ∀ c ∈ lead, isBlank c = true)
    (trailBlank : ∀ c ∈ trail, isBlank c = true) (line : List Char) :
    fields (lead ++ line ++ trail) = fields line := by
  rw [fields, fieldsAfter_append_right trailBlank]
  exact fields_append_left leadBlank line

/-- The maximal runs of characters of a line that are not blank, in order. -/
inductive Runs : List Char → List (List Char) → Prop
  | none {blanks : List Char} (blank : ∀ c ∈ blanks, isBlank c = true) : Runs blanks []
  | run {lead run rest : List Char} {runs : List (List Char)} (leading : ∀ c ∈ lead, isBlank c = true)
      (nonempty : run ≠ []) (solid : ∀ c ∈ run, isBlank c = false)
      (maximal : ∀ c ∈ rest.head?, isBlank c = true) (later : Runs rest runs) :
      Runs (lead ++ run ++ rest) (run :: runs)

theorem fieldsAfter_run {run rest : List Char} (solid : ∀ c ∈ run, isBlank c = false)
    (maximal : ∀ c ∈ rest.head?, isBlank c = true) (current : List Char)
    (nonempty : current.reverse ++ run ≠ []) :
    fieldsAfter current (run ++ rest) = (current.reverse ++ run) :: fields rest := by
  induction run generalizing current with
  | nil =>
      have begun : current.isEmpty = false := by simpa using nonempty
      cases rest with
      | nil => simp [fieldsAfter, fields, begun]
      | cons c rest => simp [fieldsAfter, fields, begun, maximal c rfl]
  | cons c run ih =>
      obtain ⟨solidHere, solid⟩ := List.forall_mem_cons.1 solid
      rw [List.cons_append, fieldsAfter, if_neg (by simp [solidHere]), ih solid (c :: current) (by simp)]
      simp

theorem Runs.fields_eq {line : List Char} {runs : List (List Char)} (cut : Runs line runs) :
    fields line = runs := by
  induction cut with
  | @none blanks blank => simpa [fields, fieldsAfter] using fields_append_left blank []
  | run leading nonempty solid maximal later ih =>
      rw [List.append_assoc, fields_append_left leading, fields, fieldsAfter_run solid maximal [] nonempty,
        ih]
      rfl

theorem Runs.cons_blank {c : Char} {line : List Char} {runs : List (List Char)}
    (blank : isBlank c = true) (cut : Runs line runs) : Runs (c :: line) runs := by
  cases cut with
  | none blanks => exact .none (List.forall_mem_cons.2 ⟨blank, blanks⟩)
  | run leading nonempty solid maximal later =>
      exact .run (List.forall_mem_cons.2 ⟨blank, leading⟩) nonempty solid maximal later

theorem Runs.blank {line : List Char} (cut : Runs line []) : ∀ c ∈ line, isBlank c = true := by
  cases cut with
  | none blank => exact blank

theorem Runs.start {run rest : List Char} {runs : List (List Char)} (nonempty : run ≠ [])
    (solid : ∀ c ∈ run, isBlank c = false) (maximal : ∀ c ∈ rest.head?, isBlank c = true)
    (later : Runs rest runs) : Runs (run ++ rest) (run :: runs) :=
  @Runs.run [] run rest runs (by simp) nonempty solid maximal later

theorem exists_runs (line : List Char) : ∃ runs, Runs line runs := by
  induction line with
  | nil => exact ⟨[], .none (by simp)⟩
  | cons c line ih =>
      obtain ⟨runs, cut⟩ := ih
      cases blank : isBlank c with
      | true => exact ⟨runs, cut.cons_blank blank⟩
      | false =>
          have solidHere : ∀ d ∈ [c], isBlank d = false := List.forall_mem_singleton.2 blank
          cases cut with
          | none blanks =>
              have maximal : ∀ d ∈ line.head?, isBlank d = true := fun d first =>
                blanks d (List.mem_of_mem_head? first)
              exact ⟨[[c]], .start (by simp) solidHere maximal (.none blanks)⟩
          | @run lead run rest runs leading nonempty solid maximal later =>
              cases lead with
              | nil =>
                  -- the character belongs to the run that starts after it
                  exact ⟨(c :: run) :: runs,
                    .start (by simp) (List.forall_mem_cons.2 ⟨blank, solid⟩) maximal later⟩
              | cons d lead =>
                  have maximalHere : ∀ e ∈ (d :: lead ++ run ++ rest).head?, isBlank e = true := by
                    simpa using (List.forall_mem_cons.1 leading).1
                  exact ⟨[c] :: run :: runs, .start (by simp) solidHere maximalHere
                    (.run leading nonempty solid maximal later)⟩

theorem fields_eq_iff {line : List Char} {runs : List (List Char)} :
    fields line = runs ↔ Runs line runs := by
  constructor
  · rintro rfl
    obtain ⟨runs, cut⟩ := exists_runs line
    rwa [cut.fields_eq]
  · exact Runs.fields_eq

end SetAssoc.Text
