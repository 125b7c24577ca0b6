import StyleSense.Command.Run
import StyleSense.Proofs.Session.Places

/-!
Contract: the text before the cursor.

The editor names a cursor by UTF-16 units and the command line names it by bytes. Between two characters
both name the same text, so that the same completions are looked for.

Owns:
- `Text.takeUnits_column16` and `Text.column16_lt`: columns in units are turned back into the text before
  them, and differ when it does;
- `completion_word`: the session and the command complete the same word.

Does not own: columns inside a character (`StyleSense.Proofs.Session.Places`).
-/

namespace StyleSense

namespace Text

/-! ## Columns between characters -/

theorem unitWidth_pos (c : Char) : 0 < unitWidth c := by
  unfold unitWidth
  split <;> decide

theorem takeUnits_zero (text : List Char) : takeUnits 0 text = [] := by
  cases text <;> rfl

/-- The units of a start of a text lead to its end. -/
theorem takeUnits_units16
    (before after : List Char) :
    takeUnits (units16 before) (before ++ after) = before := by
  induction before with
  | nil => exact takeUnits_zero after
  | cons c cs inductionHypothesis =>
    have positive := unitWidth_pos c
    obtain ⟨units, isNext⟩ : ∃ units, units16 (c :: cs) = units + 1 :=
      ⟨units16 (c :: cs) - 1, by rw [units16_cons]; omega⟩
    have remaining : units + 1 - unitWidth c = units16 cs := by
      rw [← isNext, units16_cons]
      omega
    rw [isNext, List.cons_append, takeUnits, remaining, inductionHypothesis]

section Short

variable {line : List Char} (short : width line < unitLimit)

include short

/-- In a line that is not too long a column between characters counts the units before it. -/
theorem column16_of_start
    {before : List Char}
    (isStart : before <+: line) :
    column16 line (width before) = units16 before := by
  obtain ⟨after, rfl⟩ := isStart
  have inside : width before ≤ width (before ++ after) := by
    rw [width_append]
    exact Nat.le_add_right ..
  have few : units16 before < unitLimit := by
    have bytes := units16_le_width before
    omega
  simp only [column16, Nat.min_eq_left inside, takeTo?_append, Nat.mod_eq_of_lt few]

/-- A column in units is turned back into the text before it. -/
theorem takeUnits_column16
    {before : List Char}
    (isStart : before <+: line) :
    takeUnits (column16 line (width before)) line = before := by
  rw [column16_of_start short isStart]
  obtain ⟨after, rfl⟩ := isStart
  exact takeUnits_units16 before after

/-- A later column in bytes is a later column in units. -/
theorem column16_lt
    {left right : List Char}
    (isLeft : left <+: line)
    (isRight : right <+: line)
    (later : width left < width right) :
    column16 line (width left) < column16 line (width right) := by
  rw [column16_of_start short isLeft, column16_of_start short isRight]
  rcases List.prefix_or_prefix_of_prefix isLeft isRight with ⟨between, rfl⟩ | isShorter
  · cases between with
    | nil => simp at later
    | cons c cs =>
      have positive := unitWidth_pos c
      rw [units16_append, units16_cons]
      omega
  · obtain ⟨between, rfl⟩ := isShorter
    rw [width_append] at later
    omega

end Short

end Text

open Text

/-! ## The word that is completed -/

/-- A running session completes the text before the cursor. -/
theorem Session.request_completion
    {session : Session}
    {uri : String}
    {text : List Char}
    (running : session.phase = .running)
    (isOpen : session.text? uri = some text)
    (files : FileSystem)
    (place : UnitPlace) :
    (session.request files (.completion uri place)).2.1 =
      .ok (.completions (some (session.analyzer.completions (Sheet.ofText text)
        (takeUnits place.character ((Document.ofText text).line place.line))))) := by
  simp only [request, running, answer, isOpen, Option.map_some]
  rfl

/-- The command completes the text before a column between characters. -/
theorem Command.action_complete
    {files : FileSystem}
    {path : Path}
    {content : String}
    (isRead : files.read path = .ok content)
    {index : Nat}
    {line before : List Char}
    (isLine : (Document.ofText content.toList).lines[index]? = some line)
    (isStart : before <+: line)
    (analyzer : Analyzer)
    (useSeparator : Bool) :
    ∃ notes, (complete path index (some (width before)) useSeparator).action files analyzer =
      .finish (.print
        (.ofList Completion.toJson (analyzer.completions (Sheet.ofText content.toList) before)) notes) := by
  obtain ⟨inside, -⟩ := List.getElem?_eq_some_iff.mp isLine
  have notPast : ¬(Sheet.ofText content.toList).document.lineCount ≤ index := Nat.not_le.mpr inside
  have sameLine : (Sheet.ofText content.toList).document.line index = line :=
    congrArg (·.getD []) isLine
  have word : takeTo? (width before) line = some before := by
    obtain ⟨after, rfl⟩ := isStart
    exact takeTo?_append before after
  refine ⟨if analyzer.settings.completion.enabled then (Sheet.ofText content.toList).log else [], ?_⟩
  simp only [action, FileSystem.complete, FileSystem.withText, isRead, if_neg notPast, sameLine,
    Option.getD_some, word]

/-- In a line of less than 2^32 bytes every column between characters is turned into units and back, and
a later one is later in units, too. So the session and the command complete the same word when they are
asked at the same place. -/
theorem completion_word
    {line : List Char}
    (short : width line < unitLimit) :
    (∀ before, before <+: line → takeUnits (column16 line (width before)) line = before) ∧
    (∀ left right, left <+: line → right <+: line → width left < width right →
      column16 line (width left) < column16 line (width right)) ∧
    ∀ (content : String) (index : Nat) (before : List Char),
      (Document.ofText content.toList).lines[index]? = some line → before <+: line →
      (∀ (session : Session) (uri : String) (files : FileSystem),
        session.phase = .running → session.text? uri = some content.toList →
        (session.request files (.completion uri ⟨index, column16 line (width before)⟩)).2.1 =
          .ok (.completions (some
            (session.analyzer.completions (Sheet.ofText content.toList) before)))) ∧
      ∀ (files : FileSystem) (path : Path) (analyzer : Analyzer) (useSeparator : Bool),
        files.read path = .ok content →
        ∃ notes, (Command.complete path index (some (width before)) useSeparator).action files analyzer =
          .finish (.print
            (.ofList Completion.toJson (analyzer.completions (Sheet.ofText content.toList) before))
            notes) := by
  refine ⟨fun before => takeUnits_column16 short, fun left right => column16_lt short,
    fun content index before isLine isStart => ⟨fun session uri files running isOpen => ?_,
      fun files path analyzer useSeparator isRead =>
        Command.action_complete isRead isLine isStart analyzer useSeparator⟩⟩
  have sameLine : (Document.ofText content.toList).line index = line := congrArg (·.getD []) isLine
  rw [Session.request_completion running isOpen, sameLine, takeUnits_column16 short isStart]

/-- Before the cursor stands a character of four bytes and two units. -/
theorem completion_word_after_wide_letter :
    let content := "$a = 1\n$b = 𝔸 + $a"
    let files : FileSystem := ⟨.directory [("b.styl".toList, .file content.toUTF8)], []⟩
    let session : Session :=
      (((Session.new .default).request files (.start none)).1.notify (.opened "b" content.toList)).1
    (Document.ofText content.toList).lines[1]? = some "$b = 𝔸 + $a".toList ∧
    (session.request files (.completion "b" ⟨1, 8⟩)).2.1 =
      .ok (.completions (some
        (session.analyzer.completions (Sheet.ofText content.toList) "$b = 𝔸 ".toList))) ∧
    ∃ notes, (Command.complete ⟨"b.styl".toList⟩ 1 (some 10) true).action files .default =
      .finish (.print (.ofList Completion.toJson
        (Analyzer.default.completions (Sheet.ofText content.toList) "$b = 𝔸 ".toList)) notes) := by
  intro content files session
  have isLine : (Document.ofText content.toList).lines[1]? = some "$b = 𝔸 + $a".toList := by decide
  have short : width "$b = 𝔸 + $a".toList < unitLimit := by decide
  have isStart : "$b = 𝔸 ".toList <+: "$b = 𝔸 + $a".toList := by decide
  obtain ⟨told, asked⟩ := (completion_word short).2.2 content 1 "$b = 𝔸 ".toList isLine isStart
  have running : session.phase = .running := by rfl
  have isOpen : session.text? "b" = some content.toList := by rfl
  have isFound : files.find ⟨"b.styl".toList⟩ = .ok (.file content.toUTF8) := by rfl
  have isText : String.fromUTF8? content.toUTF8 = some content := dif_pos content.isValidUTF8
  have isRead : files.read ⟨"b.styl".toList⟩ = .ok content := by
    simp only [FileSystem.read, isFound, isText]
  exact ⟨isLine, told session "b" files running isOpen,
    asked files ⟨"b.styl".toList⟩ .default true isRead⟩

end StyleSense
