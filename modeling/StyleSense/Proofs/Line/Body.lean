import StyleSense.Proofs.Line.Piece

/-!
Contract: rule bodies that are written on a line.

A line is read here without the places of its statements: what is left of them is a `NestedText`. The
reader is followed from one stretch of characters to the next by `Splitter.Reads`, which says what the
reader has to know before a stretch, which statements the stretch ends, and what is known after it.

Owns:
- `NestedText`, a statement with the number of bodies around it;
- `Splitter.Within`, what is known of the reader outside quotes and brackets;
- `Splitter.Reads`, its composition, and one lemma for each kind of stretch: a text, blanks, a
  semicolon, and the braces of a body.

Does not own: trees of rules that are written so (`StyleSense.Proofs.Statement.Outline`).
-/

namespace StyleSense

open Text

/-- A text and the number of bodies around it. -/
structure NestedText where
  depth : Nat
  text : List Char
deriving DecidableEq, Repr

/-- A text at its depth, unless it is empty. -/
def NestedText.unlessEmpty (depth : Nat) (text : List Char) : List NestedText :=
  if text.isEmpty then [] else [⟨depth, text⟩]

/-- A statement of a line without its place. -/
def Piece.nested (piece : Piece) : NestedText :=
  ⟨piece.depth, piece.text⟩

theorem Piece.nested_ofStretch?
    (depth start : Nat)
    (stretch : List Char) :
    (Piece.ofStretch? depth start stretch).toList.map Piece.nested =
      NestedText.unlessEmpty depth (trim stretch) := by
  simp only [ofStretch?, NestedText.unlessEmpty]
  split <;> rfl

namespace Splitter

/-- The statements on what is left of a line without their places. -/
def nestedTexts (s : Splitter) (index : Nat) (cs : List Char) : List NestedText :=
  (s.pieces index cs).map Piece.nested

/-- The reader is outside quotes and brackets, in `depth` bodies, and has read `text` since the last
statement ended. -/
structure Within (depth : Nat) (text : List Char) (s : Splitter) : Prop where
  outside : s.IsOutside
  braces : s.braces = List.replicate depth true
  stretch : trim s.stretch.reverse = text

variable {depth : Nat} {text : List Char}

theorem initial_within : initial.Within 0 [] :=
  ⟨initial_isOutside, rfl, rfl⟩

namespace Within

variable {s : Splitter} (within : s.Within depth text)

include within

/-- What ends here is the text that was read. -/
theorem nested_piece? : s.piece?.toList.map Piece.nested = NestedText.unlessEmpty depth text := by
  have bodies : s.depth = depth := by
    rw [Splitter.depth, within.braces, List.count_replicate_self]
  rw [piece?, Piece.nested_ofStretch?, bodies, within.stretch]

theorem nestedTexts_nil (index : Nat) :
    s.nestedTexts index [] = NestedText.unlessEmpty depth text :=
  within.nested_piece?

theorem stretch_nonblank
    (nonempty : text ≠ []) :
    trim s.stretch ≠ [] := by
  intro nothing
  apply nonempty
  rw [← within.stretch, trim_eq_nil]
  intro c isIn
  exact trim_eq_nil.mp nothing c (List.mem_reverse.mp isIn)

end Within

/-- From a state of which `before` holds, the characters `cs` end the statements `texts` and lead to
a state of which `after` holds, whatever follows them. -/
def Reads
    (before : Splitter → Prop)
    (cs : List Char)
    (texts : List NestedText)
    (after : Splitter → Prop) : Prop :=
  ∀ s, before s → ∀ index following, ∃ t index',
    after t ∧ s.nestedTexts index (cs ++ following) = texts ++ t.nestedTexts index' following

namespace Reads

variable {before between after : Splitter → Prop}

/-- Stretches are read one after the other. -/
theorem append
    {cs cs' : List Char}
    {texts texts' : List NestedText}
    (first : Reads before cs texts between)
    (second : Reads between cs' texts' after) :
    Reads before (cs ++ cs') (texts ++ texts') after := by
  intro s isBefore index following
  obtain ⟨t, index', isBetween, here⟩ := first s isBefore index (cs' ++ following)
  obtain ⟨u, index'', isAfter, later⟩ := second t isBetween index' following
  refine ⟨u, index'', isAfter, ?_⟩
  rw [List.append_assoc, here, later, List.append_assoc]

/-- Less may be known afterwards. -/
theorem weaken
    {cs : List Char}
    {texts : List NestedText}
    {weaker : Splitter → Prop}
    (reads : Reads before cs texts after)
    (implies : ∀ s, after s → weaker s) :
    Reads before cs texts weaker := by
  intro s isBefore index following
  obtain ⟨t, index', isAfter, same⟩ := reads s isBefore index following
  exact ⟨t, index', implies t isAfter, same⟩

/-- One character that ends the statement before it. -/
theorem of_step
    {c : Char}
    {texts : List NestedText}
    (ends : ∀ s, before s → s.piece?.toList.map Piece.nested = texts)
    (cuts : ∀ s, before s → ∀ index following, ∃ t, after t ∧ s.step index c following = (t, true)) :
    Reads before [c] texts after := by
  intro s isBefore index following
  obtain ⟨t, isAfter, step⟩ := cuts s isBefore index following
  refine ⟨t, index + c.utf8Size, isAfter, ?_⟩
  rw [nestedTexts, List.singleton_append, pieces, step, ← ends s isBefore]
  exact List.map_append

end Reads

/-- A statement is read after a separator and blanks. -/
theorem reads_text
    (unmarked : Unmarked text)
    (noSemicolon : ';' ∉ text)
    (trimmed : trim text = text) :
    Reads (Within depth []) text [] (Within depth text) := by
  intro s within index following
  have blank : AllBlank s.stretch.reverse := trim_eq_nil.mp within.stretch
  have same := pieces_append_unmarked unmarked noSemicolon within.outside index following
  refine ⟨s.keepAll text, index + width text, ⟨within.outside.keepAll text, ?_, ?_⟩, ?_⟩
  · rw [keepAll_eq]
    exact within.braces
  · rw [keepAll_eq, List.reverse_append, List.reverse_reverse, trim,
      trimStart_append_of_allBlank blank]
    exact trimmed
  · exact congrArg (List.map Piece.nested) same

/-- A blank after a statement is no part of it. -/
theorem reads_blank :
    Reads (Within depth text) [' '] []
      (fun s => s.Within depth text ∧ s.previous = some ' ') := by
  intro s within index following
  refine ⟨s.keep ' ', index + 1, ⟨⟨within.outside.keep ' ', within.braces, ?_⟩, rfl⟩, ?_⟩
  · have blank : AllBlank [' '] := by decide
    rw [keep, List.reverse_cons, trim_append_of_allBlank blank]
    exact within.stretch
  · have step := step_unmarked within.outside (show ' ' ∉ marks by decide) index following
    rw [nestedTexts, List.singleton_append, pieces, step]
    rfl

/-- A semicolon ends the statement before it. -/
theorem reads_semicolon :
    Reads (Within depth text) [';', ' '] (NestedText.unlessEmpty depth text) (Within depth []) := by
  have semicolon : Reads (Within depth text) [';'] (NestedText.unlessEmpty depth text)
      (Within depth []) := by
    refine .of_step (fun s within => within.nested_piece?) fun s within index following => ?_
    refine ⟨s.cut index ';', ⟨within.outside.cut index ';', within.braces, rfl⟩, ?_⟩
    rw [step_unmarked within.outside (by decide), if_pos rfl]
  have both := semicolon.append (reads_blank.weaken fun s known => known.1)
  rw [List.append_nil] at both
  exact both

/-- A brace between blanks ends the header before it and opens a body. -/
theorem reads_opening
    (nonempty : text ≠ []) :
    Reads (fun s => s.Within depth text ∧ s.previous = some ' ') ['\x7b', ' '] [⟨depth, text⟩]
      (Within (depth + 1) []) := by
  rintro s ⟨within, previous⟩ index following
  have opens : s.opensBody (' ' :: following) = true := by
    have nonblank := within.stretch_nonblank nonempty
    have blank : isBlank ' ' = true := by decide
    have ascii : isAsciiBlank ' ' = true := by decide
    simp [opensBody, within.outside.unnested, nonblank, previous, blank, ascii]
  let inner := { s with braces := true :: s.braces }.cut index '\x7b'
  have step : s.step index '\x7b' (' ' :: following) = (inner, true) := by
    simp [Splitter.step, within.outside.unquoted, opens, inner]
  have inside : inner.Within (depth + 1) [] := by
    refine ⟨⟨within.outside.unquoted, within.outside.unnested⟩, ?_, rfl⟩
    rw [List.replicate_succ, ← within.braces]
    rfl
  have here := within.nested_piece?
  rw [NestedText.unlessEmpty, if_neg (by simpa using nonempty)] at here
  obtain ⟨t, index', ⟨withinAfter, _⟩, later⟩ := reads_blank inner inside (index + 1) following
  refine ⟨t, index', withinAfter, ?_⟩
  calc s.nestedTexts index ('\x7b' :: ' ' :: following)
    _ = s.piece?.toList.map Piece.nested ++ inner.nestedTexts (index + 1) (' ' :: following) := by
        rw [nestedTexts, pieces, step]
        exact List.map_append
    _ = [⟨depth, text⟩] ++ t.nestedTexts index' following := by
        rw [here]
        exact congrArg _ later

/-- A closing brace ends the statement before it and its body. -/
theorem reads_closing :
    Reads (Within (depth + 1) text) ['\x7d'] (NestedText.unlessEmpty (depth + 1) text)
      (Within depth []) := by
  refine .of_step (fun s within => within.nested_piece?) fun s within index following => ?_
  have braces : s.braces = true :: List.replicate depth true := within.braces
  refine ⟨{ s with braces := List.replicate depth true }.cut index '\x7d', ?_, ?_⟩
  · exact ⟨⟨within.outside.unquoted, within.outside.unnested⟩, rfl, rfl⟩
  · simp [Splitter.step, within.outside.unquoted, braces]

end Splitter

end StyleSense
