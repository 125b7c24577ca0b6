import StyleSense.Proofs.Line.Step

/-!
Contract: what one physical line adds to the logical lines.

Owns:
- `bracketDepth_eq_zero`: a line without brackets leaves none open;
- `Scan.step_eq`: a line is read by the text between the blanks at its ends;
- `Scan.startLine_eq`: the line or lines that a text starts outside `@css`, and
  `Scan.startLine_complete`: those of a text that ends with its line;
- `Scan.run_after`: what was found before does not matter to what is found later.

Does not own: the statements of these lines (`StyleSense.Proofs.Statement.Matching`).
-/

namespace StyleSense

open Text

theorem Unmarked.unquoted
    {text : List Char}
    (unmarked : Unmarked text) :
    ∀ c ∈ text, ¬IsQuote c := by
  rintro c isIn (rfl | rfl)
  · exact unmarked _ isIn (by decide)
  · exact unmarked _ isIn (by decide)

/-- A line whose only marks are braces that do not count leaves no bracket open. -/
theorem bracketDepth_eq_zero
    {countBraces : Bool}
    {text : List Char}
    (unmarked : ∀ c ∈ text, c ∈ marks → countBraces = false ∧ (c = '\x7b' ∨ c = '\x7d')) :
    bracketDepth countBraces text = 0 := by
  unfold bracketDepth
  induction text with
  | nil => rfl
  | cons c rest inductionHypothesis =>
    have later := inductionHypothesis fun d isIn => unmarked d (List.mem_cons_of_mem _ isIn)
    have here := unmarked c (List.mem_cons_self ..)
    by_cases isMark : c ∈ marks
    · obtain ⟨rfl, brace⟩ := here isMark
      rcases brace with rfl | rfl <;> simpa [bracketDepth.go] using later
    · simp only [marks, List.mem_cons, List.not_mem_nil, or_false, not_or] at isMark
      simpa [bracketDepth.go, isMark] using later

theorem bracketDepth_of_unmarked
    {text : List Char}
    (unmarked : Unmarked text)
    (countBraces : Bool) :
    bracketDepth countBraces text = 0 :=
  bracketDepth_eq_zero fun c isIn isMark => absurd isMark (unmarked c isIn)

namespace Scan

/-- The state between two lines of which the first is complete and outside comments and `@css`. -/
structure AtRest (s : Scan) : Prop where
  notComment : s.inComment = false
  notPending : s.pending = none
  notRaw : s.rawIndent = none

theorem initial_atRest : initial.AtRest :=
  ⟨rfl, rfl, rfl⟩

/-- A physical line is read by the text between the blanks at its ends. -/
theorem step_eq
    {s : Scan}
    {physical gap text tail : List Char}
    {isOpen : Bool}
    (cleaned : blankComments s.inComment physical = (gap ++ text ++ tail, isOpen))
    (blankGap : AllBlank gap)
    (blankTail : AllBlank tail)
    (trimmed : trim text = text)
    (nonempty : text ≠ [])
    (number : Nat) :
    s.step number physical =
      match s.pending with
      | some pending =>
        { s with inComment := isOpen }.continueLine pending number (width gap) text
      | none => { s with inComment := isOpen }.startLine number (width gap) text := by
  have content : trimEnd (gap ++ text ++ tail) = gap ++ text := by
    rw [trimEnd_append_of_allBlank blankTail]
    apply trimEnd_eq_self
    intro c isLast
    rw [List.getLast?_append_of_ne_nil _ nonempty, ← trimEnd_of_trim trimmed] at isLast
    exact trimEnd_getLast isLast
  have front : trimStart (gap ++ text) = text := by
    rw [trimStart_append_of_allBlank blankGap, trimStart_of_trim trimmed]
  have indent : width (gap ++ text) - width text = width gap := by
    rw [width_append, Nat.add_sub_cancel]
  cases pending : s.pending with
  | none => simp only [step, cleaned, pending, content, front, indent]
  | some _ => simp only [step, cleaned, pending, content, front, indent]

/-- A line that is read at rest starts a logical line. -/
theorem step_atRest
    {s : Scan}
    (atRest : s.AtRest)
    {gap text tail : List Char}
    (commentless : Commentless (gap ++ text ++ tail))
    (unquoted : ∀ c ∈ gap ++ text ++ tail, ¬IsQuote c)
    (blankGap : AllBlank gap)
    (blankTail : AllBlank tail)
    (trimmed : trim text = text)
    (nonempty : text ≠ [])
    (number : Nat) :
    s.step number (gap ++ text ++ tail) = s.startLine number (width gap) text := by
  have cleaned := blankComments_of_commentless commentless unquoted
  obtain ⟨found, inComment, pending, rawIndent⟩ := s
  obtain ⟨notComment, notPending, _⟩ := atRest
  subst notComment notPending
  rw [step_eq cleaned blankGap blankTail trimmed nonempty]

/-- The lines that a text starts outside `@css`. -/
theorem startLine_eq
    {s : Scan}
    (atRest : s.AtRest)
    {trimmed text : List Char}
    (notClosing : trimmed.head? ≠ some '\x7d')
    (front : trimStart trimmed = trimmed)
    {isValue : Bool}
    (value : isValueLine (dropSemicolon trimmed) = isValue)
    (unbraced : (if isValue then dropSemicolon trimmed
      else trimEnd (dropSuffix '\x7b' (dropSemicolon trimmed))) = text)
    (nonempty : text ≠ [])
    (number indent : Nat) :
    s.startLine number indent trimmed =
      let line : Line := ⟨indent, ⟨number, indent, text⟩, []⟩
      let opened : OpenLine := ⟨line, bracketDepth isValue text, isValue⟩
      if opened.goesOn then { s with pending := some opened }
      else { s with
        found := (if isValue then [line] else line.split).reverse ++ s.found
        rawIndent := if "@css".toList.isPrefixOf text then some indent else none } := by
  have opening : trimmed.dropWhile (· == '\x7d') = trimmed := by
    cases trimmed with
    | nil => rfl
    | cons c rest => exact List.dropWhile_cons_of_neg (by simpa using notClosing)
  have kept : text.isEmpty = false := by simpa using nonempty
  unfold startLine
  simp only [opening, front, Nat.sub_self, Nat.add_zero, value, unbraced, kept, atRest.notRaw,
    Option.any_none, Bool.or_false, Bool.false_eq_true, if_false]

/-- A line that is complete is put together from its text as it stands. -/
theorem startLine_complete
    {s : Scan}
    (atRest : s.AtRest)
    {text : List Char}
    (nonempty : text ≠ [])
    (trimmed : trim text = text)
    (notClosing : text.head? ≠ some '\x7d')
    (noSemicolon : text.getLast? ≠ some ';')
    (noBrace : text.getLast? ≠ some '\x7b')
    (complete : text.getLast? ≠ some ',')
    (balanced : bracketDepth (isValueLine text) text = 0)
    (notCss : ¬"@css".toList <+: text)
    (number indent : Nat) :
    s.startLine number indent text =
      let line : Line := ⟨indent, ⟨number, indent, text⟩, []⟩
      { s with found := (if isValueLine text then [line] else line.split).reverse ++ s.found } := by
  have kept : dropSemicolon text = text := by
    rw [dropSemicolon, dropSuffix_of_getLast?_ne noSemicolon, trimEnd_of_trim trimmed]
  have unbraced : (if isValueLine text then dropSemicolon text
      else trimEnd (dropSuffix '\x7b' (dropSemicolon text))) = text := by
    rw [kept, dropSuffix_of_getLast?_ne noBrace, trimEnd_of_trim trimmed, ite_self]
  rw [startLine_eq atRest notClosing (trimStart_of_trim trimmed) (congrArg isValueLine kept) unbraced
    nonempty]
  have stops : (⟨⟨indent, ⟨number, indent, text⟩, []⟩, bracketDepth (isValueLine text) text,
      isValueLine text⟩ : OpenLine).goesOn = false := by
    simp [OpenLine.goesOn, balanced, complete]
  have notPrefix : "@css".toList.isPrefixOf text = false := by
    rw [Bool.eq_false_iff, ne_eq, List.isPrefixOf_iff_prefix]
    exact notCss
  simp only [stops, notPrefix, Bool.false_eq_true, if_false]
  rw [← atRest.notRaw]

/-! ## Runs -/

theorem run_append
    (s : Scan)
    (number : Nat)
    (first second : List (List Char)) :
    s.run number (first ++ second) = (s.run number first).run (number + first.length) second := by
  induction first generalizing s number with
  | nil => rfl
  | cons line rest inductionHypothesis =>
    rw [List.cons_append, run, run, inductionHypothesis, List.length_cons, Nat.add_right_comm,
      Nat.add_assoc]

/-- The state with some logical lines found before. -/
def after (s : Scan) (before : List Line) : Scan :=
  { s with found := s.found ++ before }

theorem continueLine_after
    (s : Scan)
    (before : List Line)
    (opened : OpenLine)
    (number indent : Nat)
    (trimmed : List Char) :
    (s.after before).continueLine opened number indent trimmed =
      (s.continueLine opened number indent trimmed).after before := by
  rw [continueLine_extended, continueLine_extended]
  split <;> rfl

theorem startLine_after
    (s : Scan)
    (before : List Line)
    (number indent : Nat)
    (trimmed : List Char) :
    (s.after before).startLine number indent trimmed =
      (s.startLine number indent trimmed).after before := by
  rw [startLine_opening, startLine_opening]
  split
  · rfl
  · split
    · rfl
    · simp only [after, List.append_assoc]
      rfl

/-- What was found before does not matter to what a line adds. -/
theorem step_after
    (s : Scan)
    (before : List Line)
    (number : Nat)
    (physical : List Char) :
    (s.after before).step number physical = (s.step number physical).after before := by
  obtain ⟨found, inComment, pending, rawIndent⟩ := s
  let read := blankComments inComment physical
  cases pending with
  | some opened =>
    exact continueLine_after ⟨found, read.2, some opened, rawIndent⟩ before opened number _ _
  | none => exact startLine_after ⟨found, read.2, none, rawIndent⟩ before number _ _

theorem run_after
    (s : Scan)
    (before : List Line)
    (number : Nat)
    (lines : List (List Char)) :
    (s.after before).run number lines = (s.run number lines).after before := by
  induction lines generalizing s number with
  | nil => rfl
  | cons line rest inductionHypothesis => rw [run, run, step_after, inductionHypothesis]

end Scan

end StyleSense
