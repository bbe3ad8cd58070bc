import Mathlib.Data.List.TakeWhile
import SetAssoc.Proofs.Text
import SetAssoc.Trace

/-!
# Traces are read line by line

A line is read on its own, and its number counts all lines above it. So the reading of two texts,
one below the other, follows from the readings of both.
-/

namespace SetAssoc.Trace

open Text (splitLines isBlank OpensLine ClosesLine)

/-! ## One line -/

theorem body_append_comment (line comment : List Char) : body (line ++ '#' :: comment) = body line := by
  induction line with
  | nil => rfl
  | cons c rest ih =>
      simp only [body, List.cons_append, List.takeWhile_cons] at ih ⊢
      rw [ih]

theorem ofLine_comment (line comment : List Char) : ofLine (line ++ '#' :: comment) = ofLine line := by
  rw [ofLine, body_append_comment]
  rfl

theorem body_of_not_mem {content : List Char} (plain : '#' ∉ content) : body content = content := by
  apply List.takeWhile_eq_self_iff.2
  intro c mem
  simpa using ne_of_mem_of_not_mem mem plain

theorem not_mem_of_blank {blanks : List Char} (blank : ∀ c ∈ blanks, isBlank c = true) :
    '#' ∉ blanks := by
  intro mem
  exact absurd (blank '#' mem) (by decide)

def EndsContent (rest : List Char) : Prop := rest = [] ∨ ∃ comment, rest = '#' :: comment

theorem ofLine_content {content rest : List Char} (plain : '#' ∉ content) (ends : EndsContent rest) :
    ofLine (content ++ rest) = ofFields (Text.fields content) := by
  rcases ends with rfl | ⟨comment, rfl⟩
  · rw [List.append_nil, ofLine, body_of_not_mem plain]
  · rw [ofLine_comment, ofLine, body_of_not_mem plain]

theorem ofLine_pad {lead content trail rest : List Char} (leadBlank : ∀ c ∈ lead, isBlank c = true)
    (trailBlank : ∀ c ∈ trail, isBlank c = true) (plain : '#' ∉ content) (ends : EndsContent rest) :
    ofLine (lead ++ content ++ trail ++ rest) = ofLine (content ++ rest) := by
  have padded : '#' ∉ lead ++ content ++ trail := by
    simp [plain, not_mem_of_blank leadBlank, not_mem_of_blank trailBlank]
  rw [ofLine_content padded ends, ofLine_content plain ends, Text.fields_pad leadBlank trailBlank]

theorem ofLine_blank {blanks rest : List Char} (blank : ∀ c ∈ blanks, isBlank c = true)
    (ends : EndsContent rest) : ofLine (blanks ++ rest) = .ok none := by
  have fields : Text.fields blanks = [] := by
    have padded := Text.fields_append_left blank []
    rwa [List.append_nil] at padded
  rw [ofLine_content (not_mem_of_blank blank) ends, fields]
  rfl

theorem ofLine_append_return (line : List Char) : ofLine (line ++ ['\r']) = ofLine line := by
  -- the carriage return is a part of the comment or a blank after the content
  by_cases commented : '#' ∈ line
  · obtain ⟨content, comment, rfl, -⟩ := List.eq_append_cons_of_mem commented
    rw [List.append_assoc, List.cons_append, ofLine_comment, ofLine_comment]
  · have padded : ofLine ([] ++ line ++ ['\r'] ++ []) = ofLine (line ++ []) :=
      ofLine_pad (by simp) (List.forall_mem_singleton.2 rfl) commented (.inl rfl)
    simpa using padded

/-! ## Lines -/

theorem ofLines_cons_of_error {line : List Char} {fault : Fault} (read : ofLine line = .error fault)
    (number : Nat) (rest : List (List Char)) :
    ofLines number (line :: rest) = .error (.malformed number fault) := by
  simp only [ofLines, List.zipIdx_cons, List.mapM_cons, read]
  rfl

theorem ofLines_cons_of_ok {line : List Char} {request : Option Request}
    (read : ofLine line = .ok request) (number : Nat) (rest : List (List Char)) :
    ofLines number (line :: rest) = (ofLines (number + 1) rest).map (request.toList ++ ·) := by
  simp only [ofLines, List.zipIdx_cons, List.mapM_cons, read]
  cases (rest.zipIdx (number + 1)).mapM fun entry =>
      (ofLine entry.1).mapError (Error.malformed entry.2) with
  | error error => rfl
  | ok requests => cases request <;> rfl

theorem ofLine_dropReturn (line : List Char) : ofLine (Text.dropReturn line) = ofLine line := by
  unfold Text.dropReturn
  split
  · rename_i returned
    obtain ⟨content, rfl⟩ := List.getLast?_eq_some_iff.1 returned
    rw [List.dropLast_concat, ofLine_append_return]
  · rfl

theorem ofLines_dropEnds (number : Nat) (parts : List (List Char)) :
    ofLines number (Text.dropEnds parts) = ofLines number parts := by
  induction parts using Text.dropEnds.induct generalizing number with
  | case1 => rfl
  | case2 last empty =>
      rw [Text.dropEnds, if_pos empty, List.isEmpty_iff.1 empty]
      rfl
  | case3 last nonempty => rw [Text.dropEnds, if_neg nonempty]
  | case4 line rest more ih =>
      rw [Text.dropEnds.eq_3 _ _ more]
      cases read : ofLine line with
      | error fault =>
          rw [ofLines_cons_of_error read, ofLines_cons_of_error ((ofLine_dropReturn line).trans read)]
      | ok request =>
          rw [ofLines_cons_of_ok read, ofLines_cons_of_ok ((ofLine_dropReturn line).trans read), ih]

theorem ofText_eq_ofLines (text : String) : ofText text = ofLines 1 (splitLines text.toList) :=
  ofLines_dropEnds 1 _

theorem ofLines_append_of_error {above : List (List Char)} {error : Error} {number : Nat}
    (failed : ofLines number above = .error error) (below : List (List Char)) :
    ofLines number (above ++ below) = .error error := by
  induction above generalizing number error with
  | nil => cases failed
  | cons line rest ih =>
      cases read : ofLine line with
      | error fault =>
          rw [ofLines_cons_of_error read] at failed
          rw [List.cons_append, ofLines_cons_of_error read, failed]
      | ok request =>
          rw [ofLines_cons_of_ok read] at failed
          rw [List.cons_append, ofLines_cons_of_ok read]
          cases later : ofLines (number + 1) rest with
          | error error =>
              rw [later] at failed
              rw [ih later]
              exact failed
          | ok requests => simp [later, Except.map] at failed

theorem ofLines_append_of_ok {above : List (List Char)} {requests : List Request} {number : Nat}
    (done : ofLines number above = .ok requests) (below : List (List Char)) :
    ofLines number (above ++ below) = (ofLines (number + above.length) below).map (requests ++ ·) := by
  induction above generalizing number requests with
  | nil =>
      cases done
      rw [List.nil_append, List.length_nil, Nat.add_zero]
      cases ofLines number below <;> rfl
  | cons line rest ih =>
      cases read : ofLine line with
      | error fault => simp [ofLines_cons_of_error read] at done
      | ok request =>
          rw [ofLines_cons_of_ok read] at done
          rw [List.cons_append, ofLines_cons_of_ok read, List.length_cons, Nat.add_comm rest.length,
            ← Nat.add_assoc]
          cases later : ofLines (number + 1) rest with
          | error error => simp [later, Except.map] at done
          | ok more =>
              simp only [later, Except.map, Except.ok.injEq] at done
              subst done
              rw [ih later]
              cases ofLines (number + 1 + rest.length) below <;> simp [Except.map]

theorem ofLines_congr {lines others : List (List Char)} (same : lines.map ofLine = others.map ofLine)
    (number : Nat) : ofLines number lines = ofLines number others := by
  induction lines generalizing number others with
  | nil =>
      obtain rfl := List.map_eq_nil_iff.1 same.symm
      rfl
  | cons line rest ih =>
      cases others with
      | nil => cases same
      | cons other others =>
          simp only [List.map_cons, List.cons.injEq] at same
          cases read : ofLine line with
          | error fault =>
              rw [ofLines_cons_of_error read, ofLines_cons_of_error (same.1.symm.trans read)]
          | ok request =>
              rw [ofLines_cons_of_ok read, ofLines_cons_of_ok (same.1.symm.trans read), ih same.2]

theorem exists_malformed {number : Nat} {lines : List (List Char)} {error : Error}
    (failed : ofLines number lines = .error error) :
    ∃ line fault, error = .malformed line fault ∧ number ≤ line ∧ line < number + lines.length := by
  induction lines generalizing number error with
  | nil => cases failed
  | cons line rest ih =>
      cases read : ofLine line with
      | error fault =>
          rw [ofLines_cons_of_error read] at failed
          cases failed
          exact ⟨number, fault, rfl, by simp⟩
      | ok request =>
          rw [ofLines_cons_of_ok read] at failed
          cases later : ofLines (number + 1) rest with
          | ok requests => simp [later, Except.map] at failed
          | error error =>
              simp only [later, Except.map, Except.error.injEq] at failed
              subst failed
              obtain ⟨line, fault, rfl, bounds⟩ := ih later
              refine ⟨line, fault, rfl, ?_⟩
              simp only [List.length_cons]
              omega

def Error.moveDown (above count : Nat) : Error → Error
  | malformed line fault => malformed (if line ≤ above then line else line + count) fault
  | unreadable fault => unreadable fault

theorem ofLines_add {above number : Nat} (below : above < number) (count : Nat)
    (lines : List (List Char)) :
    ofLines (number + count) lines = (ofLines number lines).mapError (.moveDown above count) := by
  induction lines generalizing number with
  | nil => rfl
  | cons line rest ih =>
      cases read : ofLine line with
      | error fault =>
          rw [ofLines_cons_of_error read, ofLines_cons_of_error read]
          simp [Except.mapError, Error.moveDown, Nat.not_le_of_lt below]
      | ok request =>
          rw [ofLines_cons_of_ok read, ofLines_cons_of_ok read, Nat.add_right_comm,
            ih (Nat.lt_succ_of_lt below)]
          cases ofLines (number + 1) rest <;> rfl

theorem ofLines_insert {line : List Char} (skipped : ofLine line = .ok none) (number : Nat)
    (above below : List (List Char)) :
    ofLines (number + 1) (above ++ line :: below) =
      (ofLines (number + 1) (above ++ below)).mapError (.moveDown (number + above.length) 1) := by
  induction above generalizing number with
  | nil =>
      rw [List.nil_append, ofLines_cons_of_ok skipped, ofLines_add (Nat.lt_succ_self number),
        List.nil_append]
      cases ofLines (number + 1) below <;> rfl
  | cons first rest ih =>
      rw [List.cons_append, List.cons_append, List.length_cons]
      cases read : ofLine first with
      | error fault =>
          rw [ofLines_cons_of_error read, ofLines_cons_of_error read]
          simp [Except.mapError, Error.moveDown]
      | ok request =>
          rw [ofLines_cons_of_ok read, ofLines_cons_of_ok read, ih, Nat.add_comm rest.length,
            ← Nat.add_assoc]
          cases ofLines (number + 1 + 1) (rest ++ below) <;> rfl

/-! ## Texts -/

def lineFeeds (text : String) : Nat := text.toList.count '\n'

def withReturn (c : Char) : List Char := if c = '\n' then ['\r', '\n'] else [c]

def withReturns (text : String) : String := .ofList (text.toList.flatMap withReturn)

def Padding (blanks : String) : Prop := ∀ c ∈ blanks.toList, isBlank c = true ∧ c ≠ '\n'

instance (blanks : String) : Decidable (Padding blanks) :=
  List.decidableBAll (fun c => isBlank c = true ∧ c ≠ '\n') blanks.toList

structure IsLine (before line after : String) : Prop where
  opens : OpensLine before.toList
  closes : ClosesLine after.toList
  single : '\n' ∉ line.toList

/-- Two texts whose lines differ in nothing that counts. -/
inductive Relaid : String → String → Prop
  | returns (text : String) : Relaid text (withReturns text)
  | finalFeed (text : String) : Relaid text (text ++ "\n")
  | comment {before line after comment : String} (isLine : IsLine before line after)
      (single : '\n' ∉ comment.toList) :
      Relaid (before ++ line ++ after) (before ++ (line ++ "#" ++ comment) ++ after)
  | pad {before lead content trail rest after : String} (isLine : IsLine before (content ++ rest) after)
      (plain : '#' ∉ content.toList) (ends : EndsContent rest.toList) (leading : Padding lead)
      (trailing : Padding trail) :
      Relaid (before ++ (content ++ rest) ++ after)
        (before ++ (lead ++ content ++ trail ++ rest) ++ after)

inductive Spaced : Nat → String → String → Prop
  | between {before blanks rest after : String} (opens : OpensLine before.toList)
      (blank : Padding blanks) (ends : EndsContent rest.toList) (single : '\n' ∉ rest.toList) :
      Spaced (lineFeeds before) (before ++ after) (before ++ (blanks ++ rest ++ "\n") ++ after)
  | last {text blanks rest : String} (blank : Padding blanks) (ends : EndsContent rest.toList)
      (single : '\n' ∉ rest.toList) :
      Spaced (lineFeeds text + 1) text (text ++ "\n" ++ (blanks ++ rest))

theorem flatMap_withReturn {line : List Char} (single : '\n' ∉ line) :
    line.flatMap withReturn = line := by
  induction line with
  | nil => rfl
  | cons c rest ih =>
      simp only [List.mem_cons, not_or] at single
      simp [withReturn, Ne.symm single.1, ih single.2]

theorem map_ofLine_returns (text : List Char) :
    (splitLines (text.flatMap withReturn)).map ofLine = (splitLines text).map ofLine := by
  induction text using Text.lines_induction with
  | last line single => rw [flatMap_withReturn single]
  | feed line below single ih =>
      have returned : (line ++ '\n' :: below).flatMap withReturn =
          line ++ ['\r'] ++ '\n' :: below.flatMap withReturn := by
        simp [flatMap_withReturn single, withReturn]
      have singleReturned : '\n' ∉ line ++ ['\r'] := by simp [single]
      rw [returned, Text.splitLines_append, Text.splitLines_append, List.map_append, List.map_append, ih,
        Text.splitLines_of_not_mem single, Text.splitLines_of_not_mem singleReturned, List.map_singleton,
        List.map_singleton, ofLine_append_return]

theorem splitLines_stacked (above below : String) :
    splitLines (above ++ "\n" ++ below).toList = splitLines above.toList ++ splitLines below.toList := by
  rw [← Text.splitLines_append]
  simp

theorem ofText_stacked_of_error {above : String} {error : Error} (failed : ofText above = .error error)
    (below : String) : ofText (above ++ "\n" ++ below) = .error error := by
  rw [ofText_eq_ofLines] at failed ⊢
  rw [splitLines_stacked]
  exact ofLines_append_of_error failed _

theorem ofText_stacked_of_ok {above : String} {requests : List Request}
    (done : ofText above = .ok requests) (below : String) :
    ofText (above ++ "\n" ++ below) =
      ((ofText below).mapError (.moveDown 0 (lineFeeds above + 1))).map (requests ++ ·) := by
  rw [ofText_eq_ofLines] at done
  rw [ofText_eq_ofLines, ofText_eq_ofLines, splitLines_stacked, ofLines_append_of_ok done,
    Text.length_splitLines, ofLines_add Nat.one_pos]
  rfl

theorem ofText_finalFeed (text : String) : ofText (text ++ "\n") = ofText text := by
  have stacked : text ++ "\n" = text ++ "\n" ++ "" := by simp
  cases read : ofText text with
  | error error => rw [stacked, ofText_stacked_of_error read]
  | ok requests =>
      have empty : ofText "" = .ok [] := rfl
      rw [stacked, ofText_stacked_of_ok read, empty]
      simp [Except.mapError, Except.map]

theorem ofText_line_congr {before line other after : String} (isLine : IsLine before line after)
    (single : '\n' ∉ other.toList) (same : ofLine other.toList = ofLine line.toList) :
    ofText (before ++ other ++ after) = ofText (before ++ line ++ after) := by
  rw [ofText_eq_ofLines, ofText_eq_ofLines]
  apply ofLines_congr
  simp only [String.toList_append]
  rw [Text.splitLines_around isLine.opens isLine.closes single,
    Text.splitLines_around isLine.opens isLine.closes isLine.single]
  simp [same]

theorem Relaid.ofText_eq {text other : String} (relaid : Relaid text other) :
    ofText other = ofText text := by
  cases relaid with
  | returns text =>
      rw [ofText_eq_ofLines, ofText_eq_ofLines]
      apply ofLines_congr
      rw [withReturns, String.toList_ofList, map_ofLine_returns]
  | finalFeed text => exact ofText_finalFeed text
  | @comment before line after comment isLine single =>
      apply ofText_line_congr isLine
      · simp [isLine.single, single]
      · simpa using ofLine_comment line.toList comment.toList
  | @pad before lead content trail rest after isLine plain ends leading trailing =>
      have single := isLine.single
      apply ofText_line_congr isLine
      · simp only [String.toList_append, List.mem_append, not_or] at single ⊢
        exact ⟨⟨⟨fun mem => (leading _ mem).2 rfl, single.1⟩,
          fun mem => (trailing _ mem).2 rfl⟩, single.2⟩
      · simp only [String.toList_append]
        exact ofLine_pad (fun c mem => (leading c mem).1) (fun c mem => (trailing c mem).1) plain ends

theorem splitLines_skipped {blanks rest : String} (blank : Padding blanks)
    (single : '\n' ∉ rest.toList) :
    splitLines (blanks ++ rest).toList = [blanks.toList ++ rest.toList] := by
  rw [String.toList_append]
  apply Text.splitLines_of_not_mem
  simp only [List.mem_append, not_or]
  exact ⟨fun mem => (blank _ mem).2 rfl, single⟩

theorem Spaced.ofText_eq {above : Nat} {text other : String} (spaced : Spaced above text other) :
    ofText other = (ofText text).mapError (.moveDown above 1) := by
  cases spaced with
  | @between before blanks rest after opens blank ends single =>
      have skipped := ofLine_blank (fun c mem => (blank c mem).1) ends
      have line := splitLines_skipped blank single
      have here : splitLines (before ++ (blanks ++ rest ++ "\n") ++ after).toList =
          (splitLines before.toList).dropLast ++
            (blanks.toList ++ rest.toList) :: splitLines after.toList := by
        have parts : before ++ (blanks ++ rest ++ "\n") ++ after =
            before ++ (blanks ++ rest ++ "\n" ++ after) := String.append_assoc ..
        rw [parts, String.toList_append, Text.splitLines_of_opens opens, splitLines_stacked, line]
        rfl
      have there : splitLines (before ++ after).toList =
          (splitLines before.toList).dropLast ++ splitLines after.toList := by
        rw [String.toList_append, Text.splitLines_of_opens opens]
      rw [ofText_eq_ofLines, ofText_eq_ofLines, here, there, ofLines_insert skipped,
        Text.length_dropLast_splitLines, Nat.zero_add]
      rfl
  | @last text blanks rest blank ends single =>
      have skipped := ofLine_blank (fun c mem => (blank c mem).1) ends
      rw [ofText_eq_ofLines, ofText_eq_ofLines, splitLines_stacked, splitLines_skipped blank single,
        ofLines_insert skipped, List.append_nil, Text.length_splitLines, Nat.zero_add]
      rfl

/-! ## Whole texts -/

structure Stacks (above below : String) : Prop where
  failed : ∀ error, ofText above = .error error → ofText (above ++ "\n" ++ below) = .error error
  malformed : ∀ requests line fault, ofText above = .ok requests →
    ofText below = .error (.malformed line fault) →
    ofText (above ++ "\n" ++ below) = .error (.malformed (line + 1 + lineFeeds above) fault)
  done : ∀ requests more, ofText above = .ok requests → ofText below = .ok more →
    ofText (above ++ "\n" ++ below) = .ok (requests ++ more)

theorem stacked (above below : String) : Stacks above below where
  failed error failed := ofText_stacked_of_error failed below
  malformed requests line fault done malformed := by
    obtain ⟨_, _, same, first, -⟩ := exists_malformed ((ofText_eq_ofLines below).symm.trans malformed)
    cases same
    have moved : Error.moveDown 0 (lineFeeds above + 1) (.malformed line fault) =
        .malformed (line + 1 + lineFeeds above) fault := by
      simp only [Error.moveDown, Nat.le_zero, Nat.ne_of_gt first, if_false]
      rw [Nat.add_comm (lineFeeds above), Nat.add_assoc]
    rw [ofText_stacked_of_ok done, malformed, Except.mapError, moved]
    rfl
  done requests more done doneBelow := by
    rw [ofText_stacked_of_ok done, doneBelow]
    rfl

theorem reads_line_by_line :
    (∀ above below, Stacks above below) ∧
      (∀ text error, ofText text = .error error →
        ∃ line fault, error = .malformed line fault ∧ 1 ≤ line ∧ line ≤ lineFeeds text + 1) ∧
      (∀ text other, Relaid text other → ofText other = ofText text) ∧
      ∀ above text other, Spaced above text other →
        ofText other = (ofText text).mapError (.moveDown above 1) := by
  refine ⟨stacked, ?_, fun _ _ relaid => relaid.ofText_eq, fun _ _ _ spaced => spaced.ofText_eq⟩
  intro text error failed
  rw [ofText_eq_ofLines] at failed
  obtain ⟨line, fault, rfl, first, last⟩ := exists_malformed failed
  refine ⟨line, fault, rfl, first, ?_⟩
  rw [Text.length_splitLines] at last
  rw [lineFeeds]
  omega

/-- The fault is in the last line of a text, with requests and comments above it. -/
theorem reads_line_by_line_last_fault :
    (ofText "R 0x10" = .ok [⟨.read, 16⟩] ∧
      ofText "# writes\nW x" = .error (.malformed 2 (.invalidAddress "x")) ∧
      ofText ("R 0x10" ++ "\n" ++ "# writes\nW x") = .error (.malformed 3 (.invalidAddress "x"))) ∧
    (let text := "R 0x10\n" ++ ("W x" ++ "# last") ++ ""
      let padded := "R 0x10\n" ++ ("\t" ++ "W x" ++ "\u3000\r" ++ "# last") ++ ""
      Relaid text padded ∧ ofText padded = ofText text) ∧
    (let text := "R 0x10\n" ++ "W x# last"
      let spaced := "R 0x10\n" ++ (" " ++ "# writes" ++ "\n") ++ "W x# last"
      Spaced 1 text spaced ∧ ofText spaced = (ofText text).mapError (.moveDown 1 1)) := by
  have relaid : Relaid _ ("R 0x10\n" ++ ("\t" ++ "W x" ++ "\u3000\r" ++ "# last") ++ "") :=
    .pad ⟨.inr ⟨"R 0x10".toList, rfl⟩, .inl rfl, by decide⟩ (by decide) (.inr ⟨_, rfl⟩) (by decide)
      (by decide)
  have spaced : Spaced 1 _ ("R 0x10\n" ++ (" " ++ "# writes" ++ "\n") ++ "W x# last") :=
    @Spaced.between "R 0x10\n" " " "# writes" _ (.inr ⟨"R 0x10".toList, rfl⟩) (by decide)
      (.inr ⟨_, rfl⟩) (by decide)
  obtain ⟨stacked, -, same, moved⟩ := reads_line_by_line
  have done : ofText "R 0x10" = .ok [⟨.read, 16⟩] := by decide
  have failed : ofText "# writes\nW x" = .error (.malformed 2 (.invalidAddress "x")) := by decide
  exact ⟨⟨done, failed, (stacked _ _).malformed _ 2 _ done failed⟩, ⟨relaid, same _ _ relaid⟩, spaced,
    moved _ _ _ spaced⟩

end SetAssoc.Trace
