import StyleSense.Node.Equality
import StyleSense.Proofs.Line.Scan
import StyleSense.Proofs.Statement.Matching

/-!
Contract: rule bodies between braces and without them.

Owns:
- `IsHeader`, the lines of a rule header, each of which but the last is continued after a comma;
- what is read off such a header, with an opening brace at its end and without it;
- `parse_braced`: braces around a body change nothing, except that an opening brace at the end of a
  continued header is taken as the start of an interpolation, which is then not closed.

Does not own: bodies that are written on the line of their header (`StyleSense.Proofs.Line.Piece`).
-/

namespace StyleSense

open Text

/-- The statement text of a line: what is between the blanks at its ends, without a semicolon. -/
def lineText (line : List Char) : List Char :=
  Scan.dropSemicolon (trim line)

/-- The fragment that a line adds to an open line. -/
def Fragment.ofLine (number : Nat) (line : List Char) : Fragment :=
  ⟨number, width (line.takeWhile isBlank), lineText line⟩

/-- The fragments of consecutive lines, the first of which has the given number. -/
def Fragment.ofLines (number : Nat) : List (List Char) → List Fragment
  | [] => []
  | line :: rest => .ofLine number line :: Fragment.ofLines (number + 1) rest

/-! ## Lines without brackets -/

theorem trim_ne_nil
    {line : List Char}
    (nonempty : lineText line ≠ []) :
    trim line ≠ [] := by
  intro nothing
  exact nonempty (by rw [lineText, nothing]; rfl)

namespace Scan

/-- The state in which `line` goes on, without an open bracket. -/
def waiting (found : List Line) (line : Line) : Scan :=
  ⟨found, false, some ⟨line, 0, false⟩, none⟩

/-- The state after complete lines. -/
def settled (found : List Line) : Scan :=
  ⟨found, false, none, none⟩

/-- A line that is read while another one waits becomes a part of it. The longer line goes on after
a comma and is complete otherwise. -/
theorem step_waiting
    {physical : List Char}
    (commentless : Commentless physical)
    (unquoted : ∀ c ∈ physical, ¬IsQuote c)
    (nonempty : lineText physical ≠ [])
    (noBracket : bracketDepth false (lineText physical) = 0)
    (found : List Line)
    (line : Line)
    (number : Nat) :
    (waiting found line).step number physical =
      let longer : Line := { line with tail := line.tail ++ [.ofLine number physical] }
      if (lineText physical).getLast? = some ',' then waiting found longer
      else settled (longer :: found) := by
  obtain ⟨tail, blankTail, whole⟩ := exists_trim_append physical
  have blankGap : AllBlank (physical.takeWhile isBlank) := fun c isIn => List.mem_takeWhile_imp isIn
  have kept : (trim physical).isEmpty = false := by simpa using trim_ne_nil nonempty
  have cleaned : blankComments (waiting found line).inComment physical =
      (physical.takeWhile isBlank ++ trim physical ++ tail, false) := by
    rw [← whole]
    exact blankComments_of_commentless commentless unquoted
  rw [step_eq cleaned blankGap blankTail (trim_trim physical) (trim_ne_nil nonempty)]
  unfold lineText at noBracket
  simp only [waiting, continueLine, kept, Bool.false_eq_true, if_false, noBracket, OpenLine.goesOn,
    Int.add_zero, List.getLast?_concat, Option.getD_some, Int.lt_irrefl, decide_false,
    Bool.false_or, beq_iff_eq, Option.any_none]
  rfl

/-- A line that holds nothing but a closing brace adds nothing. -/
theorem step_closing
    {s : Scan}
    (notComment : s.inComment = false)
    (notPending : s.pending = none)
    {gap : List Char}
    (blank : AllBlank gap)
    (number : Nat) :
    s.step number (gap ++ ['\x7d']) = s := by
  have commentless : Commentless (gap ++ ['\x7d']) :=
    (Commentless.of_allBlank blank).append (.of_slash_notMem (by decide)) (.inr (by simp))
  have unquoted : ∀ c ∈ gap ++ ['\x7d'], ¬IsQuote c := by
    intro c isIn
    rcases List.mem_append.mp isIn with inGap | isBrace
    · exact (Unmarked.of_allBlank blank).unquoted c inGap
    · rw [List.mem_singleton.mp isBrace]
      decide
  obtain ⟨found, inComment, pending, rawIndent⟩ := s
  subst notComment notPending
  have cleaned := blankComments_of_commentless commentless unquoted
  have cleanedParts : blankComments false (gap ++ ['\x7d']) = (gap ++ ['\x7d'] ++ [], false) := by
    rw [cleaned, List.append_nil]
  rw [step_eq cleanedParts blank allBlank_nil (by decide) (List.cons_ne_nil _ _)]
  rfl

/-- A line that is no assignment of a value waits for the next one after a comma, and is split into
its statements otherwise. -/
theorem initial_step
    {physical text : List Char}
    (commentless : Commentless physical)
    (unquoted : ∀ c ∈ physical, ¬IsQuote c)
    (notClosing : (trim physical).head? ≠ some '\x7d')
    (notValue : isValueLine (lineText physical) = false)
    (unbraced : trimEnd (dropSuffix '\x7b' (lineText physical)) = text)
    (nonempty : text ≠ [])
    (noBracket : bracketDepth false text = 0)
    (notCss : ¬"@css".toList <+: text)
    (number : Nat) :
    initial.step number physical =
      let indent := width (physical.takeWhile isBlank)
      let line : Line := ⟨indent, ⟨number, indent, text⟩, []⟩
      if text.getLast? = some ',' then waiting [] line else settled line.split.reverse := by
  obtain ⟨tail, blankTail, whole⟩ := exists_trim_append physical
  have blankGap : AllBlank (physical.takeWhile isBlank) := fun c isIn => List.mem_takeWhile_imp isIn
  have nonemptyLine : trim physical ≠ [] := by
    intro nothing
    rw [lineText, nothing] at unbraced
    exact nonempty unbraced.symm
  have notPrefix : "@css".toList.isPrefixOf text = false := by
    rw [Bool.eq_false_iff, ne_eq, List.isPrefixOf_iff_prefix]
    exact notCss
  have read := step_atRest initial_atRest (whole ▸ commentless) (whole ▸ unquoted) blankGap blankTail
    (trim_trim physical) nonemptyLine number
  rw [← whole] at read
  rw [read, startLine_eq initial_atRest notClosing (trimStart_of_trim (trim_trim physical)) notValue
    unbraced nonempty]
  simp only [OpenLine.goesOn, noBracket, notPrefix, Int.lt_irrefl, decide_false, Bool.false_or,
    beq_iff_eq, List.getLast?_nil, Option.getD_none, Bool.false_eq_true, if_false]
  split
  · rfl
  · simp [settled, initial]

theorem lineText_sublist (line : List Char) : (lineText line).Sublist line := by
  have inner := (dropSemicolon_starts (trim line)).sublist
  exact inner.trans ((trimEnd_starts _).sublist.trans (trimStart_suffix line).sublist)

/-- Lines that end in a comma leave a line waiting. -/
theorem run_waiting
    {lines : List (List Char)}
    (unmarked : ∀ line ∈ lines, Unmarked line)
    (commentless : ∀ line ∈ lines, Commentless line)
    (continued : ∀ line ∈ lines, (lineText line).getLast? = some ',')
    (found : List Line)
    (line : Line)
    (number : Nat) :
    (waiting found line).run number lines =
      waiting found { line with tail := line.tail ++ Fragment.ofLines number lines } := by
  induction lines generalizing line number with
  | nil => rw [run, Fragment.ofLines, List.append_nil]
  | cons next rest inductionHypothesis =>
    have isFirst := List.mem_cons_self (a := next) (l := rest)
    have comma := continued next isFirst
    have nonempty : lineText next ≠ [] := fun nothing => by simp [nothing] at comma
    have noBracket := bracketDepth_of_unmarked
      ((unmarked next isFirst).of_sublist (lineText_sublist next)) false
    rw [run, step_waiting (commentless next isFirst) (unmarked next isFirst).unquoted nonempty
      noBracket]
    simp only [if_pos comma]
    rw [inductionHypothesis (fun line isIn => unmarked line (List.mem_cons_of_mem _ isIn))
      (fun line isIn => commentless line (List.mem_cons_of_mem _ isIn))
      (fun line isIn => continued line (List.mem_cons_of_mem _ isIn))]
    simp [Fragment.ofLines]

end Scan

/-! ## Headers -/

/-- The lines of a rule header, `last` being the last of them: it has no quotes, brackets, braces
and comments, is no assignment and no `@css`, and every line but the last ends in a comma. -/
structure IsHeader (init : List (List Char)) (last : List Char) : Prop where
  unmarked : ∀ line ∈ init ++ [last], Unmarked line
  commentless : ∀ line ∈ init ++ [last], Commentless line
  continued : ∀ line ∈ init, (lineText line).getLast? = some ','
  nonempty : lineText last ≠ []
  complete : (lineText last).getLast? ≠ some ','
  notAssignment : Pattern.assignment? (lineText (init.headD last)) = none
  notCss : ¬"@css".toList <+: lineText (init.headD last)

/-- A line with an opening brace after it. -/
def braced (line : List Char) : List Char :=
  line ++ [' ', '\x7b']

theorem isValueLine_of_notAssignment
    {text : List Char}
    (notAssignment : Pattern.assignment? text = none) :
    isValueLine text = false := by
  rw [isValueLine, notAssignment]

namespace IsHeader

variable {init : List (List Char)} {last : List Char} (header : IsHeader init last)

include header

theorem last_unmarked : Unmarked last :=
  header.unmarked last (by simp)

theorem last_commentless : Commentless last :=
  header.commentless last (by simp)

theorem braced_unquoted : ∀ c ∈ braced last, ¬IsQuote c := by
  intro c isIn
  rcases List.mem_append.mp isIn with inLast | inBrace
  · exact header.last_unmarked.unquoted c inLast
  · simp only [List.mem_cons, List.not_mem_nil, or_false] at inBrace
    rcases inBrace with rfl | rfl <;> decide

theorem braced_commentless : Commentless (braced last) := by
  refine header.last_commentless.append ?_ (.inr (by simp))
  exact .of_slash_notMem (by decide)

theorem trimStart_last : trimStart last ≠ [] := by
  intro nothing
  exact trim_ne_nil header.nonempty (by rw [trim, nothing]; rfl)

/-- The blanks in front of a line stay when a brace follows it. -/
theorem takeWhile_braced : (braced last).takeWhile isBlank = last.takeWhile isBlank := by
  have whole := takeWhile_append_trimStart (braced last)
  rw [braced, trimStart_append header.trimStart_last, ← List.append_assoc] at whole
  have inner := List.append_cancel_right whole
  exact List.append_cancel_right (inner.trans (takeWhile_append_trimStart last).symm)

theorem trim_braced : trim (braced last) = trimStart last ++ [' ', '\x7b'] := by
  rw [trim, braced, trimStart_append header.trimStart_last]
  refine trimEnd_eq_self fun c isLast => ?_
  obtain rfl : '\x7b' = c := by simpa using isLast
  decide

theorem lineText_braced : lineText (braced last) = trimStart last ++ [' ', '\x7b'] := by
  have notSemicolon : (trim (braced last)).getLast? ≠ some ';' := by
    rw [header.trim_braced]
    simp
  rw [lineText, Scan.dropSemicolon, dropSuffix_of_getLast?_ne notSemicolon,
    trimEnd_of_trim (trim_trim _), header.trim_braced]

omit header in
/-- A header line without a brace, read first. -/
theorem initial_step
    {line : List Char}
    (unmarked : Unmarked line)
    (commentless : Commentless line)
    (nonempty : lineText line ≠ [])
    (notAssignment : Pattern.assignment? (lineText line) = none)
    (notCss : ¬"@css".toList <+: lineText line) :
    Scan.initial.step 1 line =
      let read : Line := ⟨width (line.takeWhile isBlank), .ofLine 1 line, []⟩
      if (lineText line).getLast? = some ',' then Scan.waiting [] read
      else Scan.settled read.split.reverse := by
  have unmarkedText := unmarked.of_sublist (Scan.lineText_sublist line)
  have notClosing : (trim line).head? ≠ some '\x7d' := by
    intro isFirst
    have isIn := (standsAt_trim line).subset (List.mem_of_head? isFirst)
    exact unmarked _ isIn (by decide)
  have noBrace : (lineText line).getLast? ≠ some '\x7b' := by
    intro isLast
    exact unmarkedText _ (List.mem_of_getLast? isLast) (by decide)
  have unbraced : trimEnd (dropSuffix '\x7b' (lineText line)) = lineText line := by
    rw [dropSuffix_of_getLast?_ne noBrace, lineText, Scan.dropSemicolon, trimEnd_trimEnd]
  exact Scan.initial_step commentless unmarked.unquoted notClosing
    (isValueLine_of_notAssignment notAssignment) unbraced nonempty
    (bracketDepth_of_unmarked unmarkedText false) notCss 1

/-- The first line of a continued header waits for the next one. -/
theorem step_first
    {first : List Char}
    {more : List (List Char)}
    (split : init = first :: more) :
    Scan.initial.step 1 first =
      Scan.waiting [] ⟨width (first.takeWhile isBlank), .ofLine 1 first, []⟩ := by
  subst split
  have isLine : first ∈ (first :: more) ++ [last] := by simp
  have comma := header.continued first (by simp)
  have nonempty : lineText first ≠ [] := fun nothing => by simp [nothing] at comma
  rw [initial_step (header.unmarked first isLine) (header.commentless first isLine) nonempty
    header.notAssignment header.notCss]
  exact if_pos comma

/-- A header of one line is split into its statements. -/
theorem step_single
    (single : init = []) :
    Scan.initial.step 1 last =
      Scan.settled (⟨width (last.takeWhile isBlank), .ofLine 1 last, []⟩ : Line).split.reverse := by
  subst single
  rw [initial_step header.last_unmarked header.last_commentless header.nonempty
    header.notAssignment header.notCss]
  exact if_neg header.complete

omit header in
/-- The text of a line is the trimmed line, unless a semicolon follows it. -/
theorem trim_eq_lineText_append (line : List Char) :
    trim line = lineText line ∨
      ∃ gap, AllBlank gap ∧ trim line = lineText line ++ (gap ++ [';']) := by
  by_cases semicolon : (trim line).getLast? = some ';'
  · obtain ⟨before, split⟩ := List.getLast?_eq_some_iff.mp semicolon
    obtain ⟨gap, blank, whole⟩ := exists_trimEnd_append before
    refine .inr ⟨gap, blank, ?_⟩
    rw [lineText, Scan.dropSemicolon, split, dropSuffix_append_singleton, ← List.append_assoc,
      ← whole]
  · left
    rw [lineText, Scan.dropSemicolon, dropSuffix_of_getLast?_ne semicolon,
      trimEnd_of_trim (trim_trim line)]

theorem isValueLine_braced : isValueLine (lineText (braced last)) = isValueLine (lineText last) := by
  obtain ⟨tail, blankTail, whole⟩ := exists_trimEnd_append (trimStart last)
  have front : trimStart last = trim last ++ tail := whole
  have blankTailSpace : AllBlank (tail ++ [' ']) := by
    intro c isIn
    rcases List.mem_append.mp isIn with inTail | isSpace
    · exact blankTail c inTail
    · rw [List.mem_singleton.mp isSpace]
      decide
  rw [header.lineText_braced, front]
  rcases trim_eq_lineText_append last with same | ⟨gap, blankGap, same⟩
  · have braceEnds := isValueLine_append blankTailSpace (.inr rfl) (lineText last) []
    rw [same, List.append_assoc, ← braceEnds]
    simp
  · have semicolonEnds := isValueLine_append blankGap (.inl rfl) (lineText last)
      (tail ++ [' ', '\x7b'])
    rw [same, ← semicolonEnds]
    simp

theorem trim_notCss
    (single : init = []) :
    ¬"@css".toList <+: trim last := by
  subst single
  have notCss : ¬"@css".toList <+: lineText last := header.notCss
  rcases trim_eq_lineText_append last with same | ⟨gap, blank, same⟩
  · rwa [same]
  · rw [same, prefix_append_of_stop]
    · exact notCss
    · intro c isFirst isIn
      have solid : ∀ d ∈ "@css".toList, isBlank d = false ∧ d ≠ ';' := by decide
      cases gap with
      | nil =>
        obtain rfl : ';' = c := by simpa using isFirst
        exact (solid _ isIn).2 rfl
      | cons first others =>
        obtain rfl : first = c := by simpa using isFirst
        have isBlankFirst := blank first (List.mem_cons_self ..)
        rw [(solid _ isIn).1] at isBlankFirst
        cases isBlankFirst

theorem trim_complete : (trim last).getLast? ≠ some ',' := by
  rcases trim_eq_lineText_append last with same | ⟨gap, _, same⟩
  · rw [same]
    exact header.complete
  · rw [same]
    simp

theorem splitStatements_trim : splitStatements (trim last) = splitStatements (lineText last) := by
  rcases trim_eq_lineText_append last with same | ⟨gap, blank, same⟩
  · rw [same]
  · rw [same, splitStatements_append_semicolon
      (header.last_unmarked.of_sublist (Scan.lineText_sublist last)) blank]

/-- A header of one line is split into the same statements when a brace follows it. -/
theorem step_single_braced
    (single : init = []) :
    Scan.initial.step 1 (braced last) =
      Scan.settled (⟨width (last.takeWhile isBlank), .ofLine 1 last, []⟩ : Line).split.reverse := by
  have notAssignment := header.notAssignment
  rw [single] at notAssignment
  have unmarkedText : Unmarked (trim last) := fun c isIn =>
    header.last_unmarked c ((standsAt_trim last).subset isIn)
  have notClosing : (trim (braced last)).head? ≠ some '\x7d' := by
    rw [header.trim_braced, List.head?_append_of_ne_nil _ header.trimStart_last]
    intro isFirst
    exact header.last_unmarked _ ((trimStart_suffix last).subset (List.mem_of_head? isFirst))
      (by decide)
  have notValue : isValueLine (lineText (braced last)) = false := by
    rw [header.isValueLine_braced]
    exact isValueLine_of_notAssignment notAssignment
  have unbraced : trimEnd (dropSuffix '\x7b' (lineText (braced last))) = trim last := by
    have braceLast : trimStart last ++ [' ', '\x7b'] = trimStart last ++ [' '] ++ ['\x7b'] := by simp
    rw [header.lineText_braced, braceLast, dropSuffix_append_singleton,
      trimEnd_append_of_allBlank (by decide), trim]
  rw [Scan.initial_step header.braced_commentless header.braced_unquoted notClosing notValue unbraced
    (trim_ne_nil header.nonempty) (bracketDepth_of_unmarked unmarkedText false)
    (header.trim_notCss single) 1]
  simp only [if_neg header.trim_complete, header.takeWhile_braced, Line.split,
    header.splitStatements_trim, Fragment.ofLine]

end IsHeader

/-- The logical line of a continued header whose first line is `first` and whose last line, after
the lines `more`, is `end`. -/
def continuedHeader (first : List Char) (more : List (List Char)) (ending : List Char) : Line :=
  ⟨width (first.takeWhile isBlank), .ofLine 1 first,
    Fragment.ofLines 2 more ++ [.ofLine (more.length + 2) ending]⟩

namespace IsHeader

variable {first last : List Char} {more : List (List Char)} (header : IsHeader (first :: more) last)

include header

/-- The lines of a continued header make up one logical line. -/
theorem run_continued
    {ending : List Char}
    (commentless : Commentless ending)
    (unquoted : ∀ c ∈ ending, ¬IsQuote c)
    (nonempty : lineText ending ≠ [])
    (noBracket : bracketDepth false (lineText ending) = 0)
    (complete : (lineText ending).getLast? ≠ some ',') :
    Scan.initial.run 1 (first :: more ++ [ending]) =
      Scan.settled [continuedHeader first more ending] := by
  have inner : ∀ line ∈ more, line ∈ (first :: more) ++ [last] := by
    intro line isIn
    simp [isIn]
  rw [List.cons_append, Scan.run, header.step_first rfl, Scan.run_append,
    Scan.run_waiting (fun line isIn => header.unmarked line (inner line isIn))
      (fun line isIn => header.commentless line (inner line isIn))
      (fun line isIn => header.continued line (List.mem_cons_of_mem _ isIn)),
    Scan.run, Scan.run, Scan.step_waiting commentless unquoted nonempty noBracket]
  simp only [if_neg complete]
  rw [continuedHeader, List.nil_append, Nat.add_comm (1 + 1)]

theorem run_plain :
    Scan.initial.run 1 (first :: more ++ [last]) =
      Scan.settled [continuedHeader first more last] :=
  header.run_continued header.last_commentless header.last_unmarked.unquoted header.nonempty
    (bracketDepth_of_unmarked (header.last_unmarked.of_sublist (Scan.lineText_sublist last)) false)
    header.complete

theorem run_braced :
    Scan.initial.run 1 (first :: more ++ [braced last]) =
      Scan.settled [continuedHeader first more (braced last)] := by
  have text := header.lineText_braced
  refine header.run_continued header.braced_commentless header.braced_unquoted ?_ ?_ ?_
  · rw [text]
    simp
  · refine bracketDepth_eq_zero fun c isIn isMark => ⟨rfl, ?_⟩
    rw [text] at isIn
    rcases List.mem_append.mp isIn with inLast | inBrace
    · exact absurd isMark (header.last_unmarked c ((trimStart_suffix last).subset inLast))
    · simp only [List.mem_cons, List.not_mem_nil, or_false] at inBrace
      rcases inBrace with rfl | rfl
      · exact absurd isMark (by decide)
      · exact .inl rfl
  · rw [text]
    simp

end IsHeader

/-! ## Headers with their bodies -/

/-- Lines that are complete when read from line `number` on: the last of them ends neither in a
comma nor inside a bracket or a comment. -/
structure IsComplete (number : Nat) (body : List (List Char)) : Prop where
  notComment : (Scan.initial.run number body).inComment = false
  notPending : (Scan.initial.run number body).pending = none

/-- The logical lines of a body that is read from line `number` on. -/
def bodyLines (number : Nat) (body : List (List Char)) : List Line :=
  (Scan.initial.run number body).found.reverse

section Documents

variable {head body : List (List Char)} {found : List Line}
  (read : Scan.initial.run 1 head = Scan.settled found)
  (complete : IsComplete (head.length + 1) body)

include read

theorem run_head_body :
    Scan.initial.run 1 (head ++ body) = (Scan.initial.run (head.length + 1) body).after found := by
  have framed := Scan.run_after Scan.initial found (1 + head.length) body
  rw [Scan.run_append, read, ← Nat.add_comm 1]
  exact framed

include complete

/-- The logical lines of a header and a body. -/
theorem scanLines_head_body
    {text : List Char}
    (lines : physicalLines text = head ++ body) :
    scanLines text = .ok (found.reverse ++ bodyLines (head.length + 1) body) := by
  rw [scanLines, lines, run_head_body read, Scan.finish]
  simp [Scan.after, complete.notPending, bodyLines]

/-- A line with a closing brace after the body changes nothing. -/
theorem scanLines_head_body_closing
    {gap : List Char}
    (blank : AllBlank gap)
    {text : List Char}
    (lines : physicalLines text = head ++ body ++ [gap ++ ['\x7d']]) :
    scanLines text = .ok (found.reverse ++ bodyLines (head.length + 1) body) := by
  rw [scanLines, lines, Scan.run_append, run_head_body read, Scan.run, Scan.run, Scan.step_after,
    Scan.step_closing complete.notComment complete.notPending blank, Scan.finish]
  simp [Scan.after, complete.notPending, bodyLines]

end Documents

/-! ## Selectors that end in a brace -/

/-- A text without braces is one literal segment. -/
theorem readSegments_unbraced
    {text : List Char}
    (unbraced : '\x7b' ∉ text)
    (line offset : Nat) :
    readSegments text line offset = .ok (Segment.literal text line) := by
  have all : ∀ c ∈ text, (!c == '\x7b') = true := by
    intro c isIn
    have other : c ≠ '\x7b' := fun equal => unbraced (equal ▸ isIn)
    simpa using other
  have taken : text.takeWhile (!· == '\x7b') = text := List.takeWhile_eq_self_iff.mpr all
  have dropped : text.dropWhile (!· == '\x7b') = [] := List.dropWhile_eq_nil_iff.mpr all
  rw [readSegments]
  split
  · rw [taken]
  · rename_i opened
    rw [dropped] at opened
    cases opened

/-- A brace at the end of a text is not closed. -/
theorem readSegments_brace
    {text : List Char}
    (unbraced : '\x7b' ∉ text)
    (line offset : Nat) :
    readSegments (text ++ ['\x7b']) line offset =
      .error ⟨.unclosedInterpolation, ⟨line, offset + width text + 1⟩⟩ := by
  have all : ∀ c ∈ text, (!c == '\x7b') = true := by
    intro c isIn
    have other : c ≠ '\x7b' := fun equal => unbraced (equal ▸ isIn)
    simpa using other
  have taken : (text ++ ['\x7b']).takeWhile (!· == '\x7b') = text := by
    rw [takeWhile_append_of_stop (by simp), List.takeWhile_eq_self_iff.mpr all]
  have dropped : (text ++ ['\x7b']).dropWhile (!· == '\x7b') = ['\x7b'] := by
    rw [dropWhile_append_of_stop (by simp), List.dropWhile_eq_nil_iff.mpr all]
    rfl
  rw [readSegments]
  split
  · rename_i nothing
    rw [dropped] at nothing
    cases nothing
  · rename_i opened
    rw [dropped] at opened
    cases opened
    simp only [taken]
    rfl

namespace Line

theorem selectorsOf_append
    (fragment : Fragment)
    (parts others : List (Nat × List Char)) :
    selectorsOf fragment (parts ++ others) =
      selectorsOf fragment parts >>= fun heads => selectorsOf fragment others >>= fun more =>
        .ok (heads ++ more) := by
  induction parts with
  | nil =>
    rw [List.nil_append, selectorsOf]
    cases selectorsOf fragment others <;> rfl
  | cons part rest inductionHypothesis =>
    rw [List.cons_append, selectorsOf, selectorsOf, inductionHypothesis]
    cases readSegments part.2 fragment.line (fragment.offset + part.1) with
    | error error => rfl
    | ok segments =>
      cases selectorsOf fragment rest with
      | error error => rfl
      | ok heads => cases selectorsOf fragment others <;> rfl

theorem selectors_append
    (fragments others : List Fragment) :
    selectors (fragments ++ others) =
      selectors fragments >>= fun heads => selectors others >>= fun more =>
        .ok (heads ++ more) := by
  induction fragments with
  | nil =>
    rw [List.nil_append, selectors]
    cases selectors others <;> rfl
  | cons fragment rest inductionHypothesis =>
    rw [List.cons_append, selectors, selectors, inductionHypothesis]
    cases selectorsOf fragment (splitSelectors fragment.text) with
    | error error => rfl
    | ok here =>
      cases selectors rest with
      | error error => rfl
      | ok heads =>
        cases selectors others with
        | error error => rfl
        | ok more => exact congrArg Except.ok (List.append_assoc here heads more).symm

theorem selectorsOf_selectorPart
    {stretch : List Char}
    (unbraced : '\x7b' ∉ stretch)
    (fragment : Fragment)
    (start : Nat) :
    ∃ heads, selectorsOf fragment (selectorPart start stretch) = .ok heads := by
  unfold selectorPart
  simp only
  split
  · exact ⟨[], rfl⟩
  · have unbracedText : '\x7b' ∉ trim stretch := fun isIn =>
      unbraced ((standsAt_trim stretch).subset isIn)
    rw [selectorsOf, readSegments_unbraced unbracedText]
    exact ⟨_, rfl⟩

/-- A selector list that ends in an opening brace fails at the brace. -/
theorem selectorsOf_brace
    {reversed cs : List Char}
    (seen : Unmarked reversed)
    (unseen : Unmarked cs)
    {start index : Nat}
    (stands : index = start + width reversed.reverse)
    (fragment : Fragment) :
    selectorsOf fragment (splitSelectorsFrom 0 start reversed index (cs ++ ['\x7b'])) =
      .error ⟨.unclosedInterpolation,
        ⟨fragment.line, fragment.offset + index + width cs + 1⟩⟩ := by
  have noBrace : ∀ text, Unmarked text → '\x7b' ∉ text :=
    fun text unmarked isIn => unmarked _ isIn (by decide)
  induction cs generalizing reversed start index with
  | nil =>
    have stop : ∀ c ∈ ['\x7b'].head?, isBlank c = false := by decide
    have kept : trim (reversed.reverse ++ ['\x7b']) = trimStart reversed.reverse ++ ['\x7b'] := by
      rw [trim, trimStart, dropWhile_append_of_stop stop]
      exact trimEnd_eq_self (by simp [isBlank])
    have part : splitSelectorsFrom 0 start reversed index ['\x7b'] =
        [(start + width (reversed.reverse.takeWhile isBlank),
          trimStart reversed.reverse ++ ['\x7b'])] := by
      simp [splitSelectorsFrom, selectorPart, kept, takeWhile_append_of_stop stop]
    have unbraced : '\x7b' ∉ trimStart reversed.reverse := fun isIn =>
      noBrace reversed seen (List.mem_reverse.mp ((trimStart_suffix _).subset isIn))
    have widths := congrArg width (takeWhile_append_trimStart reversed.reverse)
    rw [width_append] at widths
    rw [List.nil_append, part, selectorsOf, readSegments_brace unbraced, stands, ← widths]
    simp only [width_nil, Nat.add_zero, Nat.add_assoc]
    rfl
  | cons c rest inductionHypothesis =>
    have notMark := unseen c (List.mem_cons_self ..)
    have later := unseen.of_sublist (List.sublist_cons_self c rest)
    simp only [marks, List.mem_cons, List.not_mem_nil, or_false, not_or] at notMark
    have seenMore : Unmarked (c :: reversed) := by
      intro d isIn
      rcases List.mem_cons.mp isIn with rfl | isSeen
      · exact unseen d (List.mem_cons_self ..)
      · exact seen d isSeen
    rw [List.cons_append, splitSelectorsFrom]
    simp only [notMark, beq_iff_eq, Bool.or_eq_true, or_self, if_false]
    have place : fragment.offset + (index + c.utf8Size) + width rest + 1 =
        fragment.offset + index + width (c :: rest) + 1 := by
      rw [width_cons]
      omega
    split
    · obtain ⟨heads, here⟩ := selectorsOf_selectorPart
        (fun isIn => noBrace reversed seen (List.mem_reverse.mp isIn)) fragment start
      have restart : index + c.utf8Size = index + c.utf8Size + width ([] : List Char).reverse := rfl
      rw [selectorsOf_append, here, inductionHypothesis unmarked_nil later restart, place]
      rfl
    · rw [inductionHypothesis seenMore later, place]
      rw [stands, List.reverse_cons, width_append, Nat.add_assoc]
      rfl

/-- A line without brackets that has a body is a rule. -/
theorem plainStatement_of_unmarked
    {line : Line}
    (unmarked : Unmarked line.head.text)
    {body : Body}
    (hasBody : body.first.isSome = true) :
    line.plainStatement body = line.rule body := by
  have noFunction : Pattern.functionHead? line.head.text = none := by
    unfold Pattern.functionHead?
    split
    · rename_i rest opened
      have isIn : '(' ∈ line.head.text :=
        (List.dropWhile_suffix _).subset (opened ▸ List.mem_cons_self ..)
      exact absurd (show '(' ∈ marks by decide) (unmarked _ isIn)
    · rfl
  have noInterpolation : Pattern.interpolation? line.head.text = none := by
    unfold Pattern.interpolation?
    split
    · rename_i rest opened
      exact absurd (show '\x7b' ∈ marks by decide) (unmarked _ (opened ▸ List.mem_cons_self ..))
    · rfl
  unfold plainStatement
  simp only [hasBody, if_true, noFunction, noInterpolation, Bool.true_or]

/-- A header line is read by its head only: an at-rule or control flow. -/
def readsHeadOnly (text : List Char) : Bool :=
  text.head? == some '@' || controlWords.contains (String.ofList (firstWord text))

end Line

/-! ## The statement of a continued header -/

section Continued

variable {first last : List Char} {more : List (List Char)} (header : IsHeader (first :: more) last)

include header

/-- The selectors of a continued header end in a brace that is not closed. -/
theorem selectors_braced
    {heads : List Selector}
    (plain : Line.selectors (continuedHeader first more last).fragments = .ok heads) :
    Line.selectors (continuedHeader first more (braced last)).fragments =
      .error ⟨.unclosedInterpolation, ⟨more.length + 2, width last + 2⟩⟩ := by
  have split : ∀ ending, (continuedHeader first more ending).fragments =
      (.ofLine 1 first :: Fragment.ofLines 2 more) ++ [.ofLine (more.length + 2) ending] :=
    fun _ => rfl
  rw [split, Line.selectors_append] at plain
  rw [split, Line.selectors_append]
  cases before : Line.selectors (.ofLine 1 first :: Fragment.ofLines 2 more) with
  | error error =>
    rw [before] at plain
    cases plain
  | ok earlier =>
    have unmarked : Unmarked (trimStart last ++ [' ']) :=
      (header.last_unmarked.of_sublist (trimStart_suffix last).sublist).append (by decide)
    have stands : 0 = 0 + width ([] : List Char).reverse := rfl
    have fails := Line.selectorsOf_brace unmarked_nil unmarked stands
      (.ofLine (more.length + 2) (braced last))
    have text : (Fragment.ofLine (more.length + 2) (braced last)).text =
        trimStart last ++ [' '] ++ ['\x7b'] := by
      rw [Fragment.ofLine, header.lineText_braced]
      simp
    have place : (Fragment.ofLine (more.length + 2) (braced last)).offset + 0 +
        width (trimStart last ++ [' ']) + 1 = width last + 2 := by
      have widths := congrArg width (takeWhile_append_trimStart last)
      rw [width_append] at widths
      rw [Fragment.ofLine, header.takeWhile_braced, width_append, ← widths]
      rfl
    rw [place] at fails
    rw [Line.selectors, text, splitSelectors, fails]
    rfl

/-- With a brace at its end, a continued header is read as without it if it is an at-rule or control
flow, and fails at the brace otherwise. -/
theorem statement_braced
    {body : Body}
    (hasBody : body.first.isSome = true)
    {node : Node}
    (plain : (continuedHeader first more last).statement body = .ok node) :
    (continuedHeader first more (braced last)).statement body =
      if Line.readsHeadOnly (lineText first) then .ok node
      else .error ⟨.unclosedInterpolation, ⟨more.length + 2, width last + 2⟩⟩ := by
  have unmarked : Unmarked (lineText first) :=
    (header.unmarked first (by simp)).of_sublist (Scan.lineText_sublist first)
  have notAssignment : Pattern.assignment? (lineText first) = none := header.notAssignment
  by_cases isAt : (lineText first).head? = some '@'
  · have atRule : ∀ ending, (continuedHeader first more ending).statement body =
        (continuedHeader first more ending).atRule body (lineText first).tail := by
      intro ending
      unfold Line.statement
      simp only [continuedHeader, Fragment.ofLine, isAt]
    have headOnly : Line.readsHeadOnly (lineText first) = true := by
      simp [Line.readsHeadOnly, isAt]
    rw [headOnly, if_pos rfl, ← plain, atRule, atRule]
    rfl
  · generalize wordEq : String.ofList (firstWord (lineText first)) = word
    have byWord : ∀ ending, (continuedHeader first more ending).statement body =
        if word = "return" then
          body.mustBeEmpty >>= fun _ => (continuedHeader first more ending).valueStatement
            ((lineText first).drop word.length)
        else if Line.controlWords.contains word then
          body.block (continuedHeader first more ending).pos
        else (continuedHeader first more ending).rule body := by
      intro ending
      have rule : (continuedHeader first more ending).plainStatement body =
          (continuedHeader first more ending).rule body :=
        Line.plainStatement_of_unmarked unmarked hasBody
      rw [← wordEq, ← rule]
      exact Line.statement_of_notAssignment isAt notAssignment body
    have headOnly : Line.readsHeadOnly (lineText first) = Line.controlWords.contains word := by
      rw [Line.readsHeadOnly, wordEq, beq_false_of_ne isAt, Bool.false_or]
    rw [byWord] at plain ⊢
    rw [headOnly]
    split at plain
    · obtain ⟨line, isFirst⟩ := Option.isSome_iff_exists.mp hasBody
      rw [Body.mustBeEmpty, isFirst] at plain
      cases plain
    · rename_i notReturn
      rw [if_neg notReturn]
      split at plain
      · rename_i control
        rw [if_pos control, if_pos control, ← plain]
        rfl
      · rename_i notControl
        rw [if_neg notControl, if_neg notControl]
        have samePos : (continuedHeader first more (braced last)).pos =
            (continuedHeader first more last).pos := rfl
        rw [Line.rule] at plain ⊢
        rw [samePos]
        cases block : body.block (continuedHeader first more last).pos with
        | error error =>
          rw [block] at plain
          cases plain
        | ok nodes =>
          rw [block] at plain
          cases heads : Line.selectors (continuedHeader first more last).fragments with
          | error error =>
            rw [heads] at plain
            cases plain
          | ok selectors =>
            rw [selectors_braced header heads]
            rfl

end Continued

/-! ## Documents -/

/-- The lines below a line whose next line is indented deeper. -/
theorem bodyOf_hasBody
    {line next : Line}
    {lines : List Line}
    (isNext : lines.head? = some next)
    (deeper : line.indent < next.indent) :
    (LineTree.bodyOf ((buildForest lines).takeWhile fun tree =>
      line.indent < tree.line.indent)).first.isSome = true := by
  obtain ⟨rest, rfl⟩ := List.head?_eq_some_iff.mp isNext
  have forest : buildForest (next :: rest) = LineTree.attach next (buildForest rest) := rfl
  simp [forest, LineTree.attach, LineTree.bodyOf, LineTree.line, deeper]

/-- A statement and the statements after it. -/
theorem statements_attach
    (line : Line)
    (following : List LineTree) :
    LineTree.statements (LineTree.attach line following) =
      line.statement (LineTree.bodyOf
          (following.takeWhile fun tree => line.indent < tree.line.indent)) >>= fun node =>
        LineTree.statements (following.dropWhile fun tree => line.indent < tree.line.indent) >>=
          fun nodes => .ok (node :: nodes) := by
  rw [LineTree.attach, LineTree.statements, LineTree.statement_node]
  rfl

/-- A document and the same document with braces around the body of its header. The braces change
nothing, unless the header is continued and its selectors are read: the opening brace is then left
in the header and taken as the start of an interpolation. -/
theorem parse_braced
    {init : List (List Char)}
    {last : List Char}
    (header : IsHeader init last)
    {body : List (List Char)}
    (complete : IsComplete (init.length + 2) body)
    {next : Line}
    (isNext : (bodyLines (init.length + 2) body).head? = some next)
    (indented : width ((init.headD last).takeWhile isBlank) < next.indent)
    {gap : List Char}
    (blank : AllBlank gap)
    {plainText bracedText : List Char}
    (plainLines : physicalLines plainText = init ++ [last] ++ body)
    (bracedLines : physicalLines bracedText = init ++ [braced last] ++ body ++ [gap ++ ['\x7d']])
    {tree : Node}
    (parsed : Node.parse plainText = .ok tree) :
    Node.parse bracedText =
      if init = [] ∨ Line.readsHeadOnly (lineText (init.headD last)) = true then .ok tree
      else .error ⟨.unclosedInterpolation, ⟨init.length + 1, width last + 2⟩⟩ := by
  cases init with
  | nil =>
    have readPlain : Scan.initial.run 1 [last] = _ := header.step_single rfl
    have readBraced : Scan.initial.run 1 [braced last] = _ := header.step_single_braced rfl
    have scanned := scanLines_head_body readPlain complete plainLines
    have scannedBraced := scanLines_head_body_closing readBraced complete blank bracedLines
    rw [if_pos (.inl rfl), Node.parse_of_scanLines scannedBraced, ← parsed,
      Node.parse_of_scanLines scanned]
    rfl
  | cons first more =>
    have scanned := scanLines_head_body header.run_plain (by simpa using complete) plainLines
    have scannedBraced :=
      scanLines_head_body_closing header.run_braced (by simpa using complete) blank bracedLines
    have lengths : ∀ ending : List Char, (first :: more ++ [ending]).length + 1 = more.length + 3 :=
      fun _ => by simp
    rw [lengths] at scanned scannedBraced
    have forest : ∀ ending, buildForest ([continuedHeader first more ending].reverse ++
        bodyLines (more.length + 3) body) = LineTree.attach (continuedHeader first more ending)
          (buildForest (bodyLines (more.length + 3) body)) := fun _ => rfl
    have indents : ∀ ending, (continuedHeader first more ending).indent =
        width (first.takeWhile isBlank) := fun _ => rfl
    have follows : (bodyLines (more.length + 3) body).head? = some next := isNext
    have deeper : (continuedHeader first more last).indent < next.indent := indented
    have hasBody := bodyOf_hasBody follows deeper
    rw [Node.parse_of_scanLines scanned, forest, statements_attach] at parsed
    rw [Node.parse_of_scanLines scannedBraced, forest, statements_attach]
    simp only [indents] at parsed hasBody ⊢
    cases statement : (continuedHeader first more last).statement _ with
    | error error =>
      rw [statement] at parsed
      cases parsed
    | ok node =>
      rw [statement] at parsed
      rw [statement_braced header hasBody statement, ← parsed]
      cases headOnly : Line.readsHeadOnly (lineText first) with
      | true =>
        rw [if_pos rfl, if_pos (.inr headOnly)]
      | false =>
        rw [if_neg (by decide), if_neg (by simp [headOnly])]
        rfl

theorem parse_braced_selectors_over_lines :
    ∃ tree, Node.parse ".a,\n.b\n  @extend c".toList = .ok tree ∧
      Node.parse ".a,\n.b \x7b\n  @extend c\n\x7d".toList =
        .error ⟨.unclosedInterpolation, ⟨2, 4⟩⟩ := by
  let heads : List Selector := [⟨[⟨some ".a", 1, []⟩], ⟨1, 1⟩⟩, ⟨[⟨some ".b", 2, []⟩], ⟨2, 1⟩⟩]
  let tree : Node := .wrapper .root
    [.rule heads (.wrapper .block [.other] none ⟨1, 1⟩) ⟨1, 1⟩] none ⟨1, 1⟩
  have header : IsHeader [".a,".toList] ".b".toList := by constructor <;> decide
  have complete : IsComplete 3 ["  @extend c".toList] := by constructor <;> decide
  have isNext : (bodyLines 3 ["  @extend c".toList]).head? =
      some ⟨2, ⟨3, 2, "@extend c".toList⟩, []⟩ := by
    decide
  have bracedLines : physicalLines ".a,\n.b \x7b\n  @extend c\n\x7d".toList =
      [".a,".toList] ++ [braced ".b".toList] ++ ["  @extend c".toList] ++ [[] ++ ['\x7d']] := by
    decide
  have parsed : Node.parse ".a,\n.b\n  @extend c".toList = .ok tree := by decide +kernel
  exact ⟨tree, parsed, parse_braced header complete isNext (by decide) (by decide) (by decide)
    bracedLines parsed⟩

end StyleSense
