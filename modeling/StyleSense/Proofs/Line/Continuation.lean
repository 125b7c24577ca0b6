import StyleSense.Proofs.Line.Nesting
import StyleSense.Proofs.Statement.Comment

/-!
Contract: a statement that is broken at a gap within a bracket is still one logical line.

A line that leaves a bracket open goes on, so both parts of the statement are fragments of one logical
line, whatever the margins. But the brace at the end of a line is cut off before it is known that the
line goes on.

Owns:
- `Breakable`, a statement without assignment with a gap within a bracket;
- `Breakable.scanLines_together` and `Breakable.scanLines_broken`, the logical line of the statement on
  one line and on two.

Does not own: what these lines are read as (`StyleSense.Proofs.Statement.Continuation`).
-/

namespace StyleSense

open Text

/-- A statement that is no assignment, in parts: what stands before its value, the value up to a gap,
the gap, and the rest. Its brackets match, and one that is no brace is open at the gap. -/
structure Breakable where
  lead : List Char
  start : List Char
  gap : List Char
  after : List Char
  /-- The brackets of the value that are open at the gap, innermost first. -/
  brackets : List Char
  spaced : gap ≠ []
  blank : AllBlank gap
  trimmed : trim (lead ++ start) = lead ++ start
  nonempty : after ≠ []
  trimmedAfter : trim after = after
  balancedLead : Leaves lead []
  opened : Leaves start brackets
  inside : ∃ bracket ∈ brackets, bracket ≠ '\x7b'
  balanced : Leaves (start ++ (gap ++ after)) []
  notAssignment : Pattern.assignment? (lead ++ (start ++ (gap ++ after))) = none
  single : splitStatements (lead ++ (start ++ (gap ++ after))) =
    [⟨0, 0, lead ++ (start ++ (gap ++ after))⟩]
  unended : (lead ++ start).getLast? ≠ some ';'
  unendedAfter : after.getLast? ≠ some ';'

namespace Breakable

variable (b : Breakable)

/-- The value. -/
def value : List Char :=
  b.start ++ (b.gap ++ b.after)

/-- The statement. -/
def text : List Char :=
  b.lead ++ b.value

/-- The statement up to the gap. -/
def before : List Char :=
  b.lead ++ b.start

/-- What is left of a line for the lexer when the brace at its end is cut off. -/
def unbraced (text : List Char) : List Char :=
  trimEnd (dropSuffix '\x7b' text)

theorem text_eq : b.text = b.before ++ (b.gap ++ b.after) := by
  rw [text, value, before, List.append_assoc]

theorem inside_count : 0 < groupCount b.brackets := by
  obtain ⟨bracket, isOpen, notBrace⟩ := b.inside
  have counted : 0 < b.brackets.countP (· ≠ '\x7b') :=
    List.countP_pos_iff.mpr ⟨bracket, isOpen, by simpa using notBrace⟩
  exact Int.natCast_pos.mpr counted

/-- The start of the value goes on to the gap with a sign that no keyword or name has. -/
theorem exists_stop :
    ∃ inner sign rest, b.start = inner ++ sign :: rest ∧ Pattern.IsStop sign :=
  b.opened.exists_stop b.inside_count

/-- The part of the value that the lexer gets before the break. -/
def kept : List Char :=
  unbraced b.start

/-- It is a start of the value with such a sign in it. -/
theorem exists_kept :
    ∃ inner sign rest dropped, Pattern.IsStop sign ∧ b.kept = inner ++ sign :: rest ∧
      b.value = b.kept ++ dropped ∧ unbraced b.before = b.lead ++ b.kept := by
  obtain ⟨inner, sign, rest, whole, isStop⟩ := b.exists_stop
  have solid := Pattern.isBlank_of_isStop isStop
  have notBrace : sign ≠ '\x7b' := by
    rintro rfl
    exact absurd isStop (by decide)
  have cut : ∀ front, unbraced (front ++ sign :: rest) = front ++ sign :: unbraced rest := by
    intro front
    rw [unbraced, dropSuffix_append_cons notBrace, trimEnd_append_cons solid, unbraced]
  have keeps : b.kept = inner ++ sign :: unbraced rest := by
    rw [kept, whole, cut]
  obtain ⟨dropped, split⟩ : unbraced rest <+: rest :=
    (trimEnd_starts _).trans (dropSuffix_starts '\x7b' rest)
  have startEq : b.start = b.kept ++ dropped := by
    rw [keeps, whole, List.append_assoc, List.cons_append, split]
  refine ⟨inner, sign, unbraced rest, dropped ++ (b.gap ++ b.after), isStop, keeps, ?_, ?_⟩
  · rw [value, startEq, List.append_assoc]
  · rw [before, whole, ← List.append_assoc, cut, keeps, List.append_assoc]

/-! ## The statement on one line -/

theorem leaves_text : Leaves b.text [] :=
  b.balancedLead.append_of_balanced b.balanced

theorem leaves_kept :
    ∃ outer, 0 < groupCount outer ∧ groupCount outer = groupCount b.brackets ∧ Leaves b.kept outer := by
  obtain ⟨outer, same, leaves⟩ := b.opened.exists_dropSuffix
  exact ⟨outer, same ▸ b.inside_count, same, leaves⟩

theorem before_ne_nil : b.before ≠ [] := by
  obtain ⟨inner, sign, rest, whole, _⟩ := b.exists_stop
  simp [before, whole]

theorem getLast?_text : b.text.getLast? = b.after.getLast? := by
  rw [text_eq, ← List.append_assoc, List.getLast?_append_of_ne_nil _ b.nonempty]

/-- A semicolon at the end of a statement, if there is one. -/
def IsEnding (ending : List Char) : Prop :=
  ending = [] ∨ ending = [';']

theorem dropSemicolon_ending
    {text ending : List Char}
    (trimmed : trim text = text)
    (unended : text.getLast? ≠ some ';')
    (isEnding : IsEnding ending) :
    Scan.dropSemicolon (text ++ ending) = text := by
  rcases isEnding with rfl | rfl
  · rw [List.append_nil, Scan.dropSemicolon, dropSuffix_of_getLast?_ne unended, trimEnd_of_trim trimmed]
  · rw [Scan.dropSemicolon, dropSuffix_append_singleton, trimEnd_of_trim trimmed]

theorem trim_ending
    {text ending : List Char}
    (nonempty : text ≠ [])
    (trimmed : trim text = text)
    (isEnding : IsEnding ending) :
    trim (text ++ ending) = text ++ ending := by
  rcases isEnding with rfl | rfl
  · rw [List.append_nil, trimmed]
  · refine trim_eq_self_iff.mpr ⟨?_, ?_⟩
    · rw [List.head?_append_of_ne_nil _ nonempty]
      exact (trim_eq_self_iff.mp trimmed).1
    · rw [List.getLast?_concat]
      rintro c ⟨⟩
      decide

theorem trim_text : trim b.text = b.text := by
  refine trim_eq_self_iff.mpr ⟨?_, ?_⟩
  · rw [text_eq, List.head?_append_of_ne_nil _ b.before_ne_nil]
    exact (trim_eq_self_iff.mp b.trimmed).1
  · rw [b.getLast?_text]
    exact (trim_eq_self_iff.mp b.trimmedAfter).2

theorem text_ne_nil : b.text ≠ [] := by
  rw [text_eq]
  exact List.append_ne_nil_of_left_ne_nil b.before_ne_nil _

theorem isValueLine_text : isValueLine b.text = false := by
  unfold isValueLine
  rw [text, value, b.notAssignment]

/-- The logical line of the statement on one line. -/
def together (margin : List Char) : Line :=
  ⟨width margin, ⟨1, width margin, b.text⟩, []⟩

/-- The logical line of the statement on two lines. -/
def broken (margin margin' : List Char) : Line :=
  ⟨width margin, ⟨1, width margin, b.lead ++ b.kept⟩, [⟨2, width margin', b.after⟩]⟩

variable {text margin margin' ending tail tail' : List Char}

/-- The statement on one line is a logical line, whether or not a comma at its end lets it go on. -/
theorem startLine_text
    (isEnding : IsEnding ending)
    (indent : Nat) :
    (Scan.initial.startLine 1 indent (b.text ++ ending)).finish =
      .ok [⟨indent, ⟨1, indent, b.text⟩, []⟩] := by
  have unended : b.text.getLast? ≠ some ';' := b.getLast?_text ▸ b.unendedAfter
  have kept := dropSemicolon_ending b.trim_text unended isEnding
  have front := trimStart_of_trim (trim_ending b.text_ne_nil b.trim_text isEnding)
  have notClosing : (b.text ++ ending).head? ≠ some '\x7d' := by
    rw [List.head?_append_of_ne_nil _ b.text_ne_nil]
    exact b.leaves_text.not_closing
  have cut : (if false then Scan.dropSemicolon (b.text ++ ending)
      else trimEnd (dropSuffix '\x7b' (Scan.dropSemicolon (b.text ++ ending)))) = b.text := by
    rw [if_neg Bool.false_ne_true, kept, dropSuffix_of_getLast?_ne b.leaves_text.not_opening,
      trimEnd_of_trim b.trim_text]
  have balanced : bracketDepth false b.text = 0 := b.leaves_text.bracketDepth_eq
  have one : (⟨indent, ⟨1, indent, b.text⟩, []⟩ : Line).split = [⟨indent, ⟨1, indent, b.text⟩, []⟩] := by
    have single : splitStatements b.text = [⟨0, 0, b.text⟩] := b.single
    simp [Line.split, single]
  rw [Scan.startLine_eq Scan.initial_atRest notClosing front ((congrArg _ kept).trans b.isValueLine_text)
    cut b.text_ne_nil]
  simp only [balanced, one]
  split
  · rfl
  · rfl

theorem scanLines_together
    (blankMargin : AllBlank margin)
    (blankTail : AllBlank tail)
    (isEnding : IsEnding ending)
    (physical : physicalLines (withoutComments text) = [margin ++ (b.text ++ ending) ++ tail]) :
    scanLines text = .ok [b.together margin] := by
  have commentless := (Node.parse_withoutComments text).2.1 _ (physical ▸ List.mem_singleton_self _)
  have trimmed := trim_ending b.text_ne_nil b.trim_text isEnding
  have nonempty : b.text ++ ending ≠ [] := List.append_ne_nil_of_left_ne_nil b.text_ne_nil _
  rw [← scanLines_withoutComments, scanLines, physical, Scan.run, Scan.run,
    Scan.step_eq commentless blankMargin blankTail trimmed nonempty]
  exact b.startLine_text isEnding (width margin)

/-! ## The statement on two lines -/

/-- What is kept of the statement before the gap is no assignment either. -/
theorem isValueLine_before : isValueLine b.before = false := by
  obtain ⟨inner, sign, rest, whole, isStop⟩ := b.exists_stop
  have same : isValueLine b.before = isValueLine b.text := by
    rw [text_eq, before, whole, ← List.append_assoc, List.append_assoc _ _ (b.gap ++ b.after),
      List.cons_append, isValueLine_append_stop isStop, isValueLine_append_stop isStop]
  rw [same, b.isValueLine_text]

/-- The first line of the statement leaves a bracket open. -/
theorem startLine_before (indent : Nat) :
    ∃ depth, bracketDepth false b.after + depth = 0 ∧
      Scan.initial.startLine 1 indent b.before =
        { Scan.initial with
          pending := some ⟨⟨indent, ⟨1, indent, b.lead ++ b.kept⟩, []⟩, depth, false⟩ } := by
  obtain ⟨_, _, _, _, _, _, _, headEq⟩ := b.exists_kept
  obtain ⟨outer, isOpen, sameCount, leaves⟩ := b.leaves_kept
  have counted := (b.balancedLead.append_of_balanced leaves).bracketDepth_eq
  have kept : Scan.dropSemicolon b.before = b.before := by
    have alone := dropSemicolon_ending b.trimmed b.unended (.inl rfl)
    rwa [List.append_nil] at alone
  have notClosing : b.before.head? ≠ some '\x7d' :=
    (b.balancedLead.append_of_balanced b.opened).not_closing
  have nonempty : b.lead ++ b.kept ≠ [] := by
    intro nothing
    rw [nothing] at counted
    have none : bracketDepth false [] = 0 := rfl
    omega
  refine ⟨groupCount outer, ?_, ?_⟩
  · have rest := b.opened.bracketDepth_append b.balanced
    have blanks : bracketDepth false (b.gap ++ b.after) = bracketDepth false b.after := by
      have open_ := openBrackets?_of_allBlank b.blank none []
      have unquoted : openQuote none b.gap = none := openQuote_of_plain (by simp) open_.1
      rw [bracketDepth, StyleSense.bracketDepth_append, unquoted, bracketDepth_of_openBrackets? open_.2]
      simp [bracketDepth]
    have nothing : groupCount [] = 0 := rfl
    omega
  · have cut : (if false then Scan.dropSemicolon b.before
        else trimEnd (dropSuffix '\x7b' (Scan.dropSemicolon b.before))) = b.lead ++ b.kept := by
      rw [if_neg Bool.false_ne_true, kept]
      exact headEq
    rw [Scan.startLine_eq Scan.initial_atRest notClosing (trimStart_of_trim b.trimmed)
      ((congrArg _ kept).trans b.isValueLine_before) cut nonempty]
    simp only [counted]
    exact if_pos (by simp [OpenLine.goesOn, isOpen])

/-- The rest of the statement closes the brackets, and completes the logical line. -/
theorem continueLine_after
    (isEnding : IsEnding ending)
    {indent indent' : Nat}
    {depth : Int}
    (closes : bracketDepth false b.after + depth = 0) :
    let line : Line := ⟨indent, ⟨1, indent, b.lead ++ b.kept⟩, []⟩
    (Scan.initial.continueLine ⟨line, depth, false⟩ 2 indent' (b.after ++ ending)).finish =
      .ok [{ line with tail := [⟨2, indent', b.after⟩] }] := by
  intro line
  have kept := dropSemicolon_ending b.trimmedAfter b.unendedAfter isEnding
  have nonempty : (b.after ++ ending).isEmpty = false := by simp [b.nonempty]
  have balanced : depth + bracketDepth false b.after = 0 := by omega
  simp only [Scan.continueLine, nonempty, kept, balanced, Bool.false_eq_true, if_false]
  split
  · rfl
  · rfl

theorem scanLines_broken
    (blankMargin : AllBlank margin)
    (blankTail : AllBlank tail)
    (blankMargin' : AllBlank margin')
    (blankTail' : AllBlank tail')
    (isEnding : IsEnding ending)
    (physical : physicalLines (withoutComments text) =
      [margin ++ b.before ++ tail, margin' ++ (b.after ++ ending) ++ tail']) :
    scanLines text = .ok [b.broken margin margin'] := by
  have commentless := (Node.parse_withoutComments text).2.1
  rw [physical] at commentless
  obtain ⟨depth, closes, starts⟩ := b.startLine_before (width margin)
  let opened : OpenLine := ⟨⟨width margin, ⟨1, width margin, b.lead ++ b.kept⟩, []⟩, depth, false⟩
  have first : Scan.initial.step 1 (margin ++ b.before ++ tail) =
      { Scan.initial with pending := some opened } := by
    have commentlessFirst := commentless _ (List.mem_cons_self ..)
    rw [Scan.step_eq commentlessFirst blankMargin blankTail b.trimmed b.before_ne_nil]
    exact starts
  have second : ({ Scan.initial with pending := some opened } : Scan).step 2
        (margin' ++ (b.after ++ ending) ++ tail') =
      ({ Scan.initial with pending := some opened } : Scan).continueLine opened 2 (width margin')
        (b.after ++ ending) := by
    have commentlessSecond := commentless _ (List.mem_cons_of_mem _ (List.mem_singleton_self _))
    have trimmed := trim_ending b.nonempty b.trimmedAfter isEnding
    have nonempty : b.after ++ ending ≠ [] := List.append_ne_nil_of_left_ne_nil b.nonempty _
    exact Scan.step_eq commentlessSecond blankMargin' blankTail' trimmed nonempty 2
  rw [← scanLines_withoutComments, scanLines, physical, Scan.run, Scan.run, Scan.run, first, second]
  exact b.continueLine_after isEnding closes

end Breakable

end StyleSense
