import StyleSense.Node.Equality
import StyleSense.Proofs.Line.Untouched
import StyleSense.Proofs.Statement.Comment
import StyleSense.Proofs.Statement.Exposed

/-!
Contract: what `@css` passes through.

Owns:
- `Reading.OpensLiteral`, a physical line that is an `@css`, and `Reading.body`, the lines that are
  read as its body;
- `Reading.next_opensLiteral`, the state after such a line;
- `literalText_eq_iff`: texts without line breaks are told apart after they are joined;
- `contains_literal`: the literal is the kept texts of its body;
- `literal_passes_untouched_lines`: these are the lines below the `@css` as they are written just
  when nothing is taken from any of them.

Does not own: what is kept of one line (`StyleSense.Proofs.Line.Verbatim`), and which lines are kept
as they are written (`StyleSense.Proofs.Line.Untouched`).
-/

namespace StyleSense

open Text

/-! ## Joined lines -/

/-- The text of a literal with the given lines. -/
def literalText (lines : List (List Char)) : String :=
  "\n".intercalate (lines.map String.ofList)

theorem toList_literalText (lines : List (List Char)) :
    (literalText lines).toList = ['\n'].intercalate lines := by
  rw [literalText, String.toList_intercalate, List.map_map]
  congr 1
  simp [Function.comp_def]

theorem splitOn_literalText
    {lines : List (List Char)}
    (nonempty : lines ≠ [])
    (unbroken : ∀ line ∈ lines, '\n' ∉ line) :
    (literalText lines).toList.splitOn '\n' = lines := by
  rw [toList_literalText, List.splitOn_intercalate '\n' unbroken nonempty]

/-- Lines without line breaks are told apart by the text that they make up, if none of those on one
side is empty. -/
theorem literalText_eq_iff
    {lines others : List (List Char)}
    (unbroken : ∀ line ∈ lines, '\n' ∉ line)
    (unbroken' : ∀ line ∈ others, '\n' ∉ line)
    (solid : [] ∉ others)
    (alike : others = [] → lines = []) :
    literalText lines = literalText others ↔ lines = others := by
  constructor
  · intro same
    by_cases noOthers : others = []
    · rw [noOthers, alike noOthers]
    have split := splitOn_literalText noOthers unbroken'
    by_cases nothing : lines = []
    · rw [← same, nothing, toList_literalText] at split
      refine absurd ?_ solid
      rw [← split]
      exact List.mem_singleton.mpr rfl
    · rw [← splitOn_literalText nothing unbroken, same, split]
  · rintro rfl
    rfl

/-! ## The line of an `@css` -/

namespace Reading

/-- The line is an `@css` that ends with its line and is no part of the body of another one. -/
structure OpensLiteral (header : Reading) : Prop where
  complete : header.state.pending = none
  isLiteral : header.opened.line.IsLiteral
  closed : header.opened.goesOn = false
  single : splitStatements header.opened.line.head.text = [⟨0, 0, header.opened.line.head.text⟩]
  exposed : header.opened.line.Exposed header.state.found.reverse

/-- The lines that are read as the body of an `@css`. -/
def body (header : Reading) (rest : List Reading) : List Reading :=
  rest.takeWhile fun reading => !reading.leaves header.indent

/-- The line is blank or indented deeper, as the lines are written. -/
def isBelow (header reading : Reading) : Bool :=
  (trim reading.physical).isEmpty ||
    decide (width (header.physical.takeWhile isBlank) < width (reading.physical.takeWhile isBlank))

/-- After an `@css` stands its logical line, and what follows is read as its body. -/
theorem next_opensLiteral
    {header : Reading}
    (opens : header.OpensLiteral) :
    header.next.found = header.opened.line :: header.state.found ∧ header.next.openTexts = [] ∧
      header.next.Within header.indent := by
  obtain ⟨argument, text, _⟩ := opens.isLiteral
  have isText : Scan.statementText header.text = "@css".toList ++ argument := text
  have notEmpty : (Scan.statementText header.text).isEmpty = false := by rw [isText]; rfl
  have isCss : "@css".toList.isPrefixOf (Scan.statementText header.text) = true := by
    rw [isText, List.isPrefixOf_iff_prefix]
    exact List.prefix_append _ _
  have notOpen : header.entry.pending = none := opens.complete
  have alone : header.entry.statementsOf header.opened = [header.opened.line] := by
    unfold Scan.statementsOf
    split
    · rfl
    · rw [Line.split, opens.single]
      rfl
  have closed : (Scan.opening header.number header.indent header.text).goesOn = false := opens.closed
  rw [next_of_complete opens.complete, Scan.startLine_opening]
  simp only [notEmpty, closed, isCss, Bool.false_eq_true, if_false, if_true]
  refine ⟨?_, by simp [Scan.openTexts, notOpen], ?_, by simp [notOpen]⟩
  · rw [← opened, alone]
    rfl
  · split
    · rename_i inRaw
      obtain ⟨indent, isRaw, isLess⟩ := (Option.any_eq_true ..).mp inRaw
      exact ⟨indent, isRaw, Nat.le_of_lt (by simpa using isLess)⟩
    · exact ⟨header.indent, rfl, Nat.le_refl _⟩

/-! ## Line breaks -/

/-- What is kept of a line without a line break has none. -/
theorem kept?_unbroken
    {reading : Reading}
    (unbroken : '\n' ∉ reading.physical) :
    ∀ text ∈ reading.kept?, '\n' ∉ text := by
  intro text isKept isIn
  have isPart := reading.kept?_isPart
  rw [Option.mem_def.mp isKept, Option.getD_some] at isPart
  have inCleaned : '\n' ∈ reading.cleaned :=
    (standsAt_trim reading.cleaned).subset (isPart.subset isIn)
  rcases (blankComments_blanked _ _).mem inCleaned with wasIn | isBlank
  · exact unbroken wasIn
  · exact absurd isBlank (by decide)

theorem written?_cases
    {reading : Reading}
    {text : List Char}
    (isWritten : text ∈ reading.written?) :
    text ≠ [] ∧ text = trim reading.physical := by
  unfold written? at isWritten
  split at isWritten
  · cases isWritten
  · rename_i notEmpty
    obtain rfl := Option.some.inj isWritten
    exact ⟨by simpa using notEmpty, rfl⟩

/-- The texts that are kept of some lines make up the text of the lines as they are written just when
nothing is taken from any of them. -/
theorem literalText_kept_iff
    {readings : List Reading}
    (unbroken : ∀ reading ∈ readings, '\n' ∉ reading.physical) :
    literalText (readings.filterMap kept?) = literalText (readings.filterMap written?) ↔
      ∀ reading ∈ readings, reading.IsUntouched := by
  rw [literalText_eq_iff]
  · exact kept_eq_written_iff readings
  · intro line isIn
    obtain ⟨reading, isReading, isKept⟩ := List.mem_filterMap.mp isIn
    exact kept?_unbroken (unbroken reading isReading) line isKept
  · intro line isIn isBreak
    obtain ⟨reading, isReading, isWritten⟩ := List.mem_filterMap.mp isIn
    obtain ⟨_, rfl⟩ := written?_cases isWritten
    exact unbroken reading isReading ((standsAt_trim _).subset isBreak)
  · intro isIn
    obtain ⟨reading, _, isWritten⟩ := List.mem_filterMap.mp isIn
    exact (written?_cases isWritten).1 rfl
  · intro nothing
    exact List.filterMap_eq_nil_iff.mpr fun reading isReading =>
      kept?_of_written?_none (List.filterMap_eq_nil_iff.mp nothing reading isReading)

end Reading

theorem readings_unbroken
    {text : List Char} :
    ∀ reading ∈ Scan.initial.readings 1 (physicalLines text), '\n' ∉ reading.physical := by
  intro reading isIn isBreak
  have isLine : reading.physical ∈ physicalLines text := by
    rw [← Scan.readings_physical Scan.initial 1 (physicalLines text)]
    exact List.mem_map_of_mem isIn
  obtain ⟨line, isLine, same⟩ := List.mem_map.mp isLine
  rw [← same] at isBreak
  exact notMem_of_mem_splitOn isLine ((dropSuffix_starts '\r' line).subset isBreak)

/-! ## Literals -/

section Literal

variable {text : List Char} {tree : Node} {before rest : List Reading} {header : Reading}

/-- The literal that an `@css` is: the kept texts of its body. -/
theorem contains_literal
    (parsed : Node.parse text = .ok tree)
    (read : Scan.initial.readings 1 (physicalLines text) = before ++ header :: rest)
    (opens : header.OpensLiteral)
    (closed : ∀ next ∈ (rest.dropWhile fun reading => !reading.leaves header.indent).head?,
      splitStatements (Scan.statementText next.text) ≠ []) :
    tree.Contains (.directive .literal
      (some (literalText ((header.body rest).filterMap Reading.kept?))) none header.opened.line.pos) := by
  obtain ⟨lines, _, scanned, _⟩ := Node.parse_ok parsed
  obtain ⟨found, noTexts, within⟩ := Reading.next_opensLiteral opens
  obtain ⟨below, rfl, run⟩ := Scan.readings_of_append read
  obtain ⟨inside, later, all, deeper, stops, texts⟩ := Scan.run_within within closed
  have known : lines = header.state.found.reverse ++ header.opened.line :: (inside ++ later) := by
    rw [Scan.lines_of_finish scanned, run, all, found]
    simp
  rw [known] at scanned
  obtain ⟨node, isNode, contains⟩ := parse_exposed parsed scanned opens.exposed
  rw [Line.statement_of_isLiteral opens.isLiteral] at isNode
  have raw : LineTree.rawTexts (LineTree.bodyTrees header.opened.line (inside ++ later)) =
      inside.flatMap Line.texts := by
    rw [LineTree.rawTexts, LineTree.forestLines_bodyTrees deeper stops]
    rfl
  have isLiteral : node = .directive .literal (some (literalText (inside.flatMap Line.texts))) none
      header.opened.line.pos := by
    rw [← raw]
    exact (Except.ok.inj isNode).symm
  rw [texts, noTexts, List.nil_append] at isLiteral
  exact isLiteral ▸ contains

/-- What `@css` passes through is what is kept of the lines of its body. Where these are the lines
below it as they are written, it passes them through just when nothing is taken from any of them. -/
theorem literal_passes_untouched_lines
    (parsed : Node.parse text = .ok tree)
    (read : Scan.initial.readings 1 (physicalLines text) = before ++ header :: rest)
    (opens : header.OpensLiteral)
    (closed : ∀ next ∈ (rest.dropWhile fun reading => !reading.leaves header.indent).head?,
      splitStatements (Scan.statementText next.text) ≠ []) :
    let kept := (header.body rest).filterMap Reading.kept?
    let below := rest.takeWhile header.isBelow
    tree.Contains (.directive .literal (some (literalText kept)) none header.opened.line.pos) ∧
      (kept = below.filterMap Reading.kept? →
        (literalText kept = literalText (below.filterMap Reading.written?) ↔
          ∀ reading ∈ below, reading.IsUntouched)) := by
  intro kept below
  refine ⟨contains_literal parsed read opens closed, fun same => ?_⟩
  have unbroken : ∀ reading ∈ below, '\n' ∉ reading.physical := by
    intro reading isIn
    apply @readings_unbroken text
    rw [read]
    exact List.mem_append_right _ (List.mem_cons_of_mem _ ((List.takeWhile_prefix _).subset isIn))
  rw [same]
  exact Reading.literalText_kept_iff unbroken

end Literal

/-- The braces and the semicolon of a rule below `@css` are lost. -/
theorem literal_passes_untouched_lines_rule :
    let text := "@css\n  a \x7b\n    color: red;\n  \x7d".toList
    let header : Reading := ⟨.initial, 1, "@css".toList⟩
    let lines := ["  a \x7b".toList, "    color: red;".toList, "  \x7d".toList]
    let below := (header.next.readings 2 lines).takeWhile header.isBelow
    let literal := Node.directive .literal (some "a\ncolor: red") none ⟨1, 1⟩
    let tree := Node.wrapper .root [literal] none ⟨1, 1⟩
    Node.parse text = .ok tree ∧ tree.Contains literal ∧
      literalText (below.filterMap Reading.written?) = "a \x7b\ncolor: red;\n\x7d" ∧
      ¬∀ reading ∈ below, reading.IsUntouched := by
  intro text header lines below literal tree
  have parsed : Node.parse text = .ok tree := by decide +kernel
  have read : Scan.initial.readings 1 (physicalLines text) =
      [] ++ header :: header.next.readings 2 lines := by
    have physical : physicalLines text = "@css".toList :: lines := by decide
    rw [physical]
    rfl
  have opens : header.OpensLiteral := {
    complete := rfl
    isLiteral := ⟨[], by decide, nofun⟩
    closed := by decide +kernel
    single := by decide +kernel
    exposed := fun above outer between same => by
      have nothing : ([] : List Line) = above ++ outer :: between := same
      simp at nothing }
  have stays : ((header.next.readings 2 lines).dropWhile fun reading =>
      !reading.leaves header.indent).isEmpty = true := by
    decide +kernel
  have written : literalText (below.filterMap Reading.written?) = "a \x7b\ncolor: red;\n\x7d" := by
    decide +kernel
  have kept : literalText ((header.body (header.next.readings 2 lines)).filterMap Reading.kept?) =
      "a\ncolor: red" := by
    decide +kernel
  obtain ⟨contains, iff⟩ := literal_passes_untouched_lines parsed read opens
    (by rw [List.isEmpty_iff.mp stays]; nofun)
  rw [kept] at contains iff
  refine ⟨parsed, contains, written, ?_⟩
  rw [← iff (by decide +kernel), written]
  decide

end StyleSense
