import StyleSense.Proofs.Line.Order

/-!
Contract: the lines below `@css`.

Owns:
- `Reading`, a physical line with the state in which it is read, and `Scan.readings`, those of a run
  of lines;
- `Reading.kept?`, the text that a line adds to the logical lines;
- `Reading.next_within`: below `@css` a line adds its kept text and nothing else, and
  `Scan.run_within`, the same of all lines up to the one that leaves the body.

Does not own: which lines are kept as they are written (`StyleSense.Proofs.Line.Untouched`), and the
statement that an `@css` with its body is (`StyleSense.Proofs.Statement.Verbatim`).
-/

namespace StyleSense

open Text

/-- The texts of the fragments of a logical line. -/
def Line.texts (line : Line) : List (List Char) :=
  line.fragments.map Fragment.text

/-! ## Lines with the states in which they are read -/

/-- A physical line with the state in which it is read. -/
structure Reading where
  state : Scan
  number : Nat
  physical : List Char

namespace Reading

/-- The line without its comments. -/
def cleaned (reading : Reading) : List Char :=
  (blankComments reading.state.inComment reading.physical).1

/-- The text of the line, without comments and blanks around it. -/
def text (reading : Reading) : List Char :=
  trim reading.cleaned

/-- The bytes of blanks in front of the text. -/
def indent (reading : Reading) : Nat :=
  width (reading.cleaned.takeWhile isBlank)

/-- The state after the line. -/
def next (reading : Reading) : Scan :=
  reading.state.step reading.number reading.physical

/-- The logical line that the line starts unless one is open. -/
def opened (reading : Reading) : OpenLine :=
  Scan.opening reading.number reading.indent reading.text

/-- The text that the line adds to the logical lines, those of several statements not split. -/
def kept? (reading : Reading) : Option (List Char) :=
  match reading.state.pending with
  | some _ => if reading.text.isEmpty then none else some (Scan.dropSemicolon reading.text)
  | none =>
    if (Scan.statementText reading.text).isEmpty then none
    else some (Scan.statementText reading.text)

/-- The line starts a statement that is not indented deeper than `outer`. -/
def leaves (outer : Nat) (reading : Reading) : Bool :=
  reading.state.pending.isNone && !(Scan.statementText reading.text).isEmpty &&
    decide (reading.indent ≤ outer)

/-- The state in which the text of the line is read. -/
def entry (reading : Reading) : Scan :=
  { reading.state with
    inComment := (blankComments reading.state.inComment reading.physical).2 }

/-- A line is read by the text between its blanks. -/
theorem next_eq (reading : Reading) :
    reading.next =
      match reading.state.pending with
      | some pending =>
        reading.entry.continueLine pending reading.number reading.indent reading.text
      | none => reading.entry.startLine reading.number reading.indent reading.text := by
  obtain ⟨tail, blankTail, whole⟩ := exists_trim_append reading.cleaned
  have blankGap : AllBlank (reading.cleaned.takeWhile isBlank) := fun c => List.mem_takeWhile_imp
  by_cases nothing : reading.text = []
  · have content : trimEnd reading.cleaned = [] := by
      have blank := trim_eq_nil.mp nothing
      rw [← List.nil_append reading.cleaned, trimEnd_append_of_allBlank blank]
      rfl
    rw [nothing]
    obtain ⟨⟨found, inComment, pending, rawIndent⟩, number, physical⟩ := reading
    unfold cleaned at content
    unfold next Scan.step
    simp only [content]
    cases pending <;> rfl
  · have cleaned : blankComments reading.state.inComment reading.physical =
        (reading.cleaned.takeWhile isBlank ++ reading.text ++ tail,
          (blankComments reading.state.inComment reading.physical).2) :=
      Prod.ext whole rfl
    exact Scan.step_eq cleaned blankGap blankTail (trim_trim _) nothing reading.number

theorem next_of_open
    {reading : Reading}
    {opened : OpenLine}
    (pending : reading.state.pending = some opened) :
    reading.next =
      reading.entry.continueLine opened reading.number reading.indent reading.text := by
  rw [next_eq, pending]

theorem next_of_complete
    {reading : Reading}
    (pending : reading.state.pending = none) :
    reading.next = reading.entry.startLine reading.number reading.indent reading.text := by
  rw [next_eq, pending]

end Reading

namespace Scan

/-- Lines with the states in which they are read, the first in the given one. -/
def readings (s : Scan) (number : Nat) : List (List Char) → List Reading
  | [] => []
  | physical :: rest => ⟨s, number, physical⟩ :: (s.step number physical).readings (number + 1) rest

theorem readings_physical
    (s : Scan)
    (number : Nat)
    (lines : List (List Char)) :
    (s.readings number lines).map Reading.physical = lines := by
  induction lines generalizing s number with
  | nil => rfl
  | cons line rest inductionHypothesis => rw [readings, List.map_cons, inductionHypothesis]

/-- What is read from a line on is read in the state of that line. -/
theorem readings_of_append
    {s : Scan}
    {number : Nat}
    {lines : List (List Char)}
    {before rest : List Reading}
    {reading : Reading}
    (read : s.readings number lines = before ++ reading :: rest) :
    ∃ below, rest = reading.next.readings (reading.number + 1) below ∧
      s.run number lines = reading.next.run (reading.number + 1) below := by
  induction before generalizing s number lines with
  | nil =>
    cases lines with
    | nil => cases read
    | cons line below =>
      obtain ⟨rfl, rfl⟩ := List.cons.inj read
      exact ⟨below, rfl, rfl⟩
  | cons first others inductionHypothesis =>
    cases lines with
    | nil => cases read
    | cons line below =>
      have later := inductionHypothesis (List.cons.inj read).2
      exact later

/-! ## What is found stays -/

theorem lines_after
    (s : Scan)
    (before : List Line) :
    (s.after before).lines = before.reverse ++ s.lines := by
  simp [lines, after]

/-- Lines that are read add logical lines and make the open one longer. -/
theorem step_indents
    (s : Scan)
    (number : Nat)
    (physical : List Char) :
    s.lines.map Line.indent <+: (s.step number physical).lines.map Line.indent := by
  rcases step_lines s number physical with ⟨new, adds, _⟩ | ⟨opened, fragment, pending, _, longer⟩
  · rw [adds, List.map_append]
    exact List.prefix_append _ _
  · rw [longer, lines, pending]
    simp

theorem run_indents
    (s : Scan)
    (number : Nat)
    (lines : List (List Char)) :
    s.lines.map Line.indent <+: (s.run number lines).lines.map Line.indent := by
  induction lines generalizing s number with
  | nil => exact List.prefix_refl _
  | cons line rest inductionHypothesis =>
    exact (step_indents s number line).trans (inductionHypothesis _ _)

/-- The lines found before a run stand at the start of those after it. -/
theorem run_lines
    (s : Scan)
    (number : Nat)
    (lines : List (List Char)) :
    (s.run number lines).lines =
      s.found.reverse ++ ({ s with found := [] }.run number lines).lines := by
  have split : s = ({ s with found := [] } : Scan).after s.found := rfl
  rw [← lines_after, ← run_after, ← split]

/-! ## Below `@css` -/

/-- The state below an `@css` that is indented by `outer`: what is indented deeper is read as it
stands, and so is the open line. -/
structure Within (s : Scan) (outer : Nat) : Prop where
  raw : ∃ indent ∈ s.rawIndent, indent ≤ outer
  pending : ∀ opened ∈ s.pending, outer < opened.line.indent

/-- The texts of the open line. -/
def openTexts (s : Scan) : List (List Char) :=
  s.pending.toList.flatMap fun opened => opened.line.texts

/-- All that a line below `@css` does: its texts come after those of the open line, and the logical
lines that are complete then are indented deeper than the `@css`. -/
structure Adds (outer : Nat) (s t : Scan) (texts : List (List Char)) : Prop where
  within : t.Within outer
  lines : ∃ done : List Line, t.found = done.reverse ++ s.found ∧
    (∀ line ∈ done, outer < line.indent) ∧
    done.flatMap Line.texts ++ t.openTexts = s.openTexts ++ texts

variable {s : Scan} {outer : Nat}

theorem continueLine_within
    (within : s.Within outer)
    {opened : OpenLine}
    (pending : s.pending = some opened)
    (number indent : Nat)
    (trimmed : List Char) :
    Adds outer s (s.continueLine opened number indent trimmed)
      (if trimmed.isEmpty then none else some (dropSemicolon trimmed)).toList := by
  have deeper := within.pending opened pending
  obtain ⟨raw, isRaw, shallow⟩ := within.raw
  have openTexts : s.openTexts = opened.line.texts := by simp [Scan.openTexts, pending]
  have isDeeper : outer < (opened.extended number indent trimmed).line.indent := by
    rwa [opened.extended_indent]
  have texts : (opened.extended number indent trimmed).line.texts = opened.line.texts ++
      (if trimmed.isEmpty then none else some (dropSemicolon trimmed)).toList := by
    cases trimmed <;> simp [OpenLine.extended, Line.extend, Line.texts, Line.fragments]
  rcases s.continueLine_cases opened number indent trimmed with ⟨_, same⟩ | ⟨_, same⟩
  · rw [same]
    refine ⟨⟨⟨raw, isRaw, shallow⟩, ?_⟩, [], rfl, by simp, ?_⟩
    · rintro other ⟨⟩
      exact isDeeper
    · simp [Scan.openTexts, texts, pending]
  · have stays : s.rawIndent.any ((opened.extended number indent trimmed).line.indent ≤ ·) = false := by
      rw [Option.mem_def.mp isRaw, Option.any_some, decide_eq_false_iff_not]
      omega
    rw [same, stays]
    refine ⟨⟨⟨raw, isRaw, shallow⟩, by simp⟩, [_], rfl, by simpa using isDeeper, ?_⟩
    simp [Scan.openTexts, texts, pending]

theorem opening_texts
    (number indent : Nat)
    (trimmed : List Char) :
    (opening number indent trimmed).line.texts = [statementText trimmed] :=
  rfl

/-- A line that stays below `@css` is a logical line of its own. -/
theorem startLine_within
    (within : s.Within outer)
    (pending : s.pending = none)
    (number indent : Nat)
    {trimmed : List Char}
    (deeper : statementText trimmed ≠ [] → outer < indent) :
    Adds outer s (s.startLine number indent trimmed)
      (if (statementText trimmed).isEmpty then none else some (statementText trimmed)).toList := by
  obtain ⟨raw, isRaw, shallow⟩ := within.raw
  rcases s.startLine_cases number indent trimmed with
    ⟨nothing, same⟩ | ⟨nonempty, _, same⟩ | ⟨nonempty, _, same⟩
  · rw [same, nothing]
    exact ⟨within, [], rfl, by simp, by simp⟩
  · rw [same, if_neg (by simpa using nonempty)]
    refine ⟨⟨⟨raw, isRaw, shallow⟩, ?_⟩, [], rfl, by simp, ?_⟩
    · rintro other ⟨⟩
      exact deeper nonempty
    · simp [Scan.openTexts, pending, opening_texts]
  · have isDeeper := deeper nonempty
    have inRaw : s.rawIndent.any (· < indent) = true := by
      rw [Option.mem_def.mp isRaw, Option.any_some, decide_eq_true_iff]
      omega
    have alone : s.statementsOf (opening number indent trimmed) =
        [(opening number indent trimmed).line] := by
      rw [statementsOf, if_pos]
      rw [Bool.or_eq_true]
      exact .inr inRaw
    rw [same, if_pos inRaw, alone, if_neg (by simpa using nonempty)]
    refine ⟨⟨⟨raw, isRaw, shallow⟩, by simp [pending]⟩, [(opening number indent trimmed).line], rfl,
      List.forall_mem_singleton.mpr isDeeper, ?_⟩
    simp [Scan.openTexts, pending, opening_texts]

/-- The first statement of a line is indented no deeper than the line. -/
theorem statementsOf_head
    (s : Scan)
    (number : Nat)
    {indent : Nat}
    {trimmed : List Char}
    (shallow : indent ≤ outer)
    (nonempty : splitStatements (statementText trimmed) ≠ []) :
    ∃ first later, (s.statementsOf (opening number indent trimmed)).map Line.indent =
      first :: later ∧ first ≤ outer := by
  unfold statementsOf
  split
  · exact ⟨indent, [], rfl, shallow⟩
  · obtain ⟨first, later, split⟩ := List.exists_cons_of_ne_nil nonempty
    have flat : first.depth = 0 := splitStatements_head_depth (by rw [split]; rfl)
    refine ⟨indent + first.depth, later.map fun piece => indent + piece.depth, ?_, by omega⟩
    simp [Line.split, opening, split]

end Scan

namespace Reading

variable {reading : Reading} {outer : Nat}

/-- A line below `@css` that does not leave it adds its kept text. -/
theorem next_within
    (isWithin : reading.state.Within outer)
    (stays : reading.leaves outer = false) :
    Scan.Adds outer reading.state reading.next reading.kept?.toList := by
  have moved : reading.entry.Within outer := ⟨isWithin.raw, isWithin.pending⟩
  cases pending : reading.state.pending with
  | some opened =>
    have adds := Scan.continueLine_within moved pending reading.number reading.indent reading.text
    have kept : reading.kept? =
        if reading.text.isEmpty then none else some (Scan.dropSemicolon reading.text) := by
      rw [kept?, pending]
    rw [next_of_open pending, kept]
    exact ⟨adds.within, adds.lines⟩
  | none =>
    have deeper : Scan.statementText reading.text ≠ [] → outer < reading.indent := by
      intro nonempty
      simpa [leaves, pending, nonempty] using stays
    have adds := Scan.startLine_within moved pending reading.number reading.indent deeper
    have kept : reading.kept? =
        if (Scan.statementText reading.text).isEmpty then none
        else some (Scan.statementText reading.text) := by
      rw [kept?, pending]
    rw [next_of_complete pending, kept]
    exact ⟨adds.within, adds.lines⟩

/-- A line that leaves the body has a statement of its own, on the level of the `@css` or above. -/
theorem next_leaves
    (leaves : reading.leaves outer = true)
    (nonempty : splitStatements (Scan.statementText reading.text) ≠ [])
    (nothing : reading.state.found = []) :
    ∃ first later, reading.next.lines.map Line.indent = first :: later ∧ first ≤ outer := by
  simp only [Reading.leaves, Bool.and_eq_true, Option.isNone_iff_eq_none, Bool.not_eq_true',
    decide_eq_true_iff] at leaves
  obtain ⟨⟨pending, notEmpty⟩, shallow⟩ := leaves
  have found : reading.entry.found = [] := nothing
  rw [next_of_complete pending, Scan.startLine_opening]
  simp only [notEmpty, Bool.false_eq_true, if_false]
  split
  · exact ⟨reading.indent, [], by simp [Scan.lines, found, Scan.opening], shallow⟩
  · obtain ⟨first, later, split, isLow⟩ := Scan.statementsOf_head reading.entry reading.number
      shallow nonempty
    refine ⟨first, later, ?_, isLow⟩
    have notOpen : reading.entry.pending = none := pending
    rw [← split]
    simp [Scan.lines, found, notOpen]

end Reading

namespace Scan

variable {s : Scan} {outer : Nat}

/-- The lines below an `@css`, up to the one that leaves the body, are complete logical lines of their
kept texts, all of them indented deeper than the `@css`; the next logical line is not. -/
theorem run_within
    (within : s.Within outer)
    {number : Nat}
    {lines : List (List Char)}
    (closed : ∀ next ∈ ((s.readings number lines).dropWhile (!·.leaves outer)).head?,
      splitStatements (statementText next.text) ≠ []) :
    ∃ inside later, (s.run number lines).lines = s.found.reverse ++ (inside ++ later) ∧
      (∀ line ∈ inside, outer < line.indent) ∧ (∀ line ∈ later.head?, line.indent ≤ outer) ∧
      inside.flatMap Line.texts = s.openTexts ++
        ((s.readings number lines).takeWhile (!·.leaves outer)).filterMap Reading.kept? := by
  induction lines generalizing s number with
  | nil =>
    refine ⟨s.pending.toList.map OpenLine.line, [], by simp [run, lines], ?_, by simp, ?_⟩
    · intro line isOpen
      obtain ⟨opened, isPending, rfl⟩ := List.mem_map.mp isOpen
      exact within.pending opened (Option.mem_toList.mp isPending)
    · simp [readings, openTexts, List.flatMap_map]
  | cons line rest inductionHypothesis =>
    let reading : Reading := ⟨s, number, line⟩
    rw [readings] at closed ⊢
    cases leaves : reading.leaves outer with
    | true =>
      rw [List.dropWhile_cons_of_neg (by simp [reading, leaves])] at closed
      rw [List.takeWhile_cons_of_neg (by simp [reading, leaves])]
      let alone : Reading := ⟨{ s with found := [] }, number, line⟩
      obtain ⟨first, others, indents, isLow⟩ := alone.next_leaves leaves (closed reading rfl) rfl
      have notOpen : s.pending = none := by
        simp only [Reading.leaves, Bool.and_eq_true, Option.isNone_iff_eq_none] at leaves
        exact leaves.1.1
      refine ⟨[], (alone.next.run (number + 1) rest).lines, ?_, by simp, ?_, ?_⟩
      · rw [run_lines, List.nil_append]
        rfl
      · have isStart := run_indents alone.next (number + 1) rest
        rw [indents] at isStart
        intro next isFirst
        obtain ⟨after, whole⟩ := isStart
        have firstIndent := congrArg List.head? whole
        rw [List.head?_map, Option.mem_def.mp isFirst, Option.map_some, List.cons_append,
          List.head?_cons, Option.some.injEq] at firstIndent
        omega
      · simp [openTexts, notOpen]
    | false =>
      rw [List.dropWhile_cons_of_pos (by simp [reading, leaves])] at closed
      rw [List.takeWhile_cons_of_pos (by simp [reading, leaves])]
      have adds := reading.next_within within leaves
      obtain ⟨done, found, deeper, texts⟩ := adds.lines
      obtain ⟨inside, later, all, insideDeeper, stops, same⟩ := inductionHypothesis adds.within closed
      refine ⟨done ++ inside, later, ?_, ?_, stops, ?_⟩
      · change (reading.next.run (number + 1) rest).lines = _
        rw [all, found]
        simp [reading]
      · exact List.forall_mem_append.mpr ⟨deeper, insideDeeper⟩
      · rw [List.flatMap_append, same, ← List.append_assoc, texts]
        rw [List.append_assoc, List.filterMap_cons]
        cases reading.kept? <;> rfl

end Scan

end StyleSense
