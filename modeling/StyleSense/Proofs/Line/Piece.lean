import StyleSense.Line.Piece
import StyleSense.Proofs.Text.Part

/-!
Contract: the statements of a line as parts of it.

Owns:
- `splitStatements_standsAt`: every statement stands in the line at its offset;
- `splitStatements_head_depth`: the first of them is in no body of the line;
- `Unmarked`, a text without quotes, brackets and braces, which is cut at semicolons only;
- what a semicolon in such a text does: it ends a statement, and after the last one it does nothing.

Does not own: which lines are split at all (`StyleSense.Proofs.Line.Scan`).
-/

namespace StyleSense

open Text

/-! ## Statements are parts of the line -/

namespace Piece

theorem ofStretch?_standsAt
    {depth start : Nat}
    {stretch : List Char}
    {piece : Piece}
    (isPiece : piece ∈ (Piece.ofStretch? depth start stretch).toList)
    {line : List Char}
    (stands : StandsAt stretch start line) :
    StandsAt piece.text piece.offset line := by
  simp only [ofStretch?] at isPiece
  split at isPiece
  · cases isPiece
  · rw [Option.toList_some, List.mem_singleton] at isPiece
    subst isPiece
    exact (standsAt_trim stretch).trans stands

theorem ofStretch?_append_of_allBlank
    {gap : List Char}
    (blank : AllBlank gap)
    (depth start : Nat)
    (stretch : List Char) :
    Piece.ofStretch? depth start (stretch ++ gap) = Piece.ofStretch? depth start stretch := by
  simp only [ofStretch?, trim_append_of_allBlank blank]
  split
  · rfl
  · rename_i kept
    have notBlank : trimStart stretch ≠ [] := by
      intro nothing
      exact kept (by rw [trim, nothing]; rfl)
    have same : (stretch ++ gap).takeWhile isBlank = stretch.takeWhile isBlank := by
      have whole := takeWhile_append_trimStart (stretch ++ gap)
      rw [trimStart_append notBlank, ← List.append_assoc] at whole
      have inner := List.append_cancel_right whole
      exact List.append_cancel_right (inner.trans (takeWhile_append_trimStart stretch).symm)
    rw [same]

/-- A stretch that is a trimmed text after blanks is one statement. -/
theorem ofStretch?_of_trim
    {gap text : List Char}
    (blank : AllBlank gap)
    (trimmed : trim text = text)
    (nonempty : text ≠ [])
    (depth start : Nat) :
    Piece.ofStretch? depth start (gap ++ text) = some ⟨depth, start + width gap, text⟩ := by
  have front : trimStart (gap ++ text) = text := by
    rw [trimStart_append_of_allBlank blank, trimStart_of_trim trimmed]
  have skipped : (gap ++ text).takeWhile isBlank = gap := by
    have whole := takeWhile_append_trimStart (gap ++ text)
    rw [front] at whole
    exact List.append_cancel_right whole
  have kept : trim (gap ++ text) = text := by
    rw [trim, front, trimEnd_of_trim trimmed]
  simp only [ofStretch?, kept, skipped]
  exact if_neg (by simpa using nonempty)

end Piece

namespace Splitter

/-- What is known of a state before byte `index` of a line of which `cs` is left. -/
structure InLine (line : List Char) (s : Splitter) (index : Nat) (cs : List Char) : Prop where
  whole : ∃ before, line = before ++ s.stretch.reverse ++ cs ∧ width before = s.start
  stands : index = s.start + width s.stretch.reverse

theorem InLine.piece_standsAt
    {line cs : List Char}
    {s : Splitter}
    {index : Nat}
    (inLine : InLine line s index cs)
    {piece : Piece}
    (isPiece : piece ∈ s.piece?.toList) :
    StandsAt piece.text piece.offset line := by
  obtain ⟨before, whole, starts⟩ := inLine.whole
  exact Piece.ofStretch?_standsAt isPiece ⟨before, cs, whole, starts⟩

/-- A character that is kept makes the stretch longer. -/
theorem InLine.keep
    {line cs : List Char}
    {s : Splitter}
    {index : Nat}
    {c : Char}
    (inLine : InLine line s index (c :: cs)) :
    InLine line (s.keep c) (index + c.utf8Size) cs := by
  obtain ⟨before, whole, starts⟩ := inLine.whole
  refine ⟨⟨before, ?_, starts⟩, ?_⟩
  · rw [whole]
    simp [Splitter.keep]
  · rw [inLine.stands]
    simp [Splitter.keep]
    omega

/-- A separator starts an empty stretch after it. -/
theorem InLine.cut
    {line cs : List Char}
    {s : Splitter}
    {index : Nat}
    {c : Char}
    (inLine : InLine line s index (c :: cs)) :
    InLine line (s.cut index c) (index + c.utf8Size) cs := by
  obtain ⟨before, whole, starts⟩ := inLine.whole
  refine ⟨⟨before ++ s.stretch.reverse ++ [c], ?_, ?_⟩, rfl⟩
  · rw [whole]
    simp [Splitter.cut]
  · rw [width_append, width_append, starts, ← inLine.stands]
    rfl

/-- A step keeps the character or cuts at it; apart from that it changes only what is open. -/
theorem step_cases
    (s : Splitter)
    (index : Nat)
    (c : Char)
    (following : List Char) :
    ∃ t : Splitter, t.start = s.start ∧ t.stretch = s.stretch ∧
      (s.step index c following = (t.keep c, false) ∨ s.step index c following = (t.cut index c, true)) := by
  unfold step
  split
  · split
    · exact ⟨{ s with quote := none }, rfl, rfl, .inl rfl⟩
    · exact ⟨s, rfl, rfl, .inl rfl⟩
  · repeat' split
    · exact ⟨{ s with quote := some c }, rfl, rfl, .inl rfl⟩
    · exact ⟨{ s with nesting := s.nesting + 1 }, rfl, rfl, .inl rfl⟩
    · exact ⟨{ s with nesting := s.nesting - 1 }, rfl, rfl, .inl rfl⟩
    · exact ⟨{ s with braces := true :: s.braces }, rfl, rfl, .inr rfl⟩
    · exact ⟨{ s with braces := false :: s.braces, nesting := s.nesting + 1 }, rfl, rfl, .inl rfl⟩
    · rename_i outer _
      exact ⟨{ s with braces := outer }, rfl, rfl, .inr rfl⟩
    · rename_i outer _
      exact ⟨{ s with braces := outer, nesting := s.nesting - 1 }, rfl, rfl, .inl rfl⟩
    · exact ⟨s, rfl, rfl, .inr rfl⟩
    · exact ⟨s, rfl, rfl, .inr rfl⟩
    · exact ⟨s, rfl, rfl, .inl rfl⟩

theorem pieces_standsAt
    {line cs : List Char}
    {s : Splitter}
    {index : Nat}
    (inLine : InLine line s index cs) :
    ∀ piece ∈ s.pieces index cs, StandsAt piece.text piece.offset line := by
  induction cs generalizing s index with
  | nil => exact fun piece isPiece => inLine.piece_standsAt isPiece
  | cons c rest inductionHypothesis =>
    intro piece isPiece
    obtain ⟨t, sameStart, sameStretch, step⟩ := step_cases s index c rest
    have moved : InLine line t index (c :: rest) := by
      obtain ⟨whole, stands⟩ := inLine
      rw [← sameStart, ← sameStretch] at stands
      rw [← sameStart, ← sameStretch] at whole
      exact ⟨whole, stands⟩
    rcases step with keeps | cuts
    · simp only [pieces, keeps] at isPiece
      exact inductionHypothesis moved.keep piece isPiece
    · simp only [pieces, cuts, if_true] at isPiece
      rcases List.mem_append.mp isPiece with isHere | isLater
      · exact inLine.piece_standsAt isHere
      · exact inductionHypothesis moved.cut piece isLater

end Splitter

/-- Every statement of a line stands in it at its offset. -/
theorem splitStatements_standsAt (line : List Char) :
    ∀ piece ∈ splitStatements line, StandsAt piece.text piece.offset line :=
  Splitter.pieces_standsAt ⟨⟨[], rfl, rfl⟩, rfl⟩

/-! ## The first statement of a line -/

namespace Splitter

theorem piece?_depth
    {s : Splitter}
    {piece : Piece}
    (isPiece : s.piece? = some piece) :
    piece.depth = s.depth := by
  unfold piece? Piece.ofStretch? at isPiece
  simp only at isPiece
  split at isPiece
  · cases isPiece
  · cases isPiece
    rfl

/-- A body is opened only after a statement. -/
theorem step_depth
    {s : Splitter}
    (flat : s.depth = 0)
    (index : Nat)
    (c : Char)
    (following : List Char) :
    (s.step index c following).1.depth = 0 ∨
      (s.step index c following).2 = true ∧ s.piece? ≠ none := by
  simp only [step]
  split
  · left
    split <;> exact flat
  · split
    · exact .inl flat
    · split
      · exact .inl flat
      · split
        · exact .inl flat
        · split
          · split
            · rename_i opens
              simp only [opensBody, Bool.and_eq_true, Bool.not_eq_true', List.isEmpty_eq_false_iff,
                ne_eq, trim_eq_nil] at opens
              refine .inr ⟨rfl, ?_⟩
              have solid : trim s.stretch.reverse ≠ [] := by
                rw [ne_eq, trim_eq_nil]
                exact fun blank => opens.1.1.2 fun c isIn => blank c (List.mem_reverse.mpr isIn)
              simp [piece?, Piece.ofStretch?, solid]
            · exact .inl (by simpa [depth, keep] using flat)
          · split
            · left
              split
              · rename_i outer braces
                simp [depth, braces] at flat
              · rename_i outer braces
                simpa [depth, keep, braces] using flat
              · exact flat
            · split <;> exact .inl flat

/-- The first statement of a line is in no body of the line. -/
theorem head_pieces_depth
    {s : Splitter}
    (flat : s.depth = 0)
    (index : Nat)
    (cs : List Char) :
    ∀ piece ∈ (s.pieces index cs).head?, piece.depth = 0 := by
  induction cs generalizing s index with
  | nil =>
    intro piece isFirst
    have isPiece : s.piece? = some piece := by
      rw [pieces] at isFirst
      cases here : s.piece? with
      | none => rw [here] at isFirst; cases isFirst
      | some first => rw [here] at isFirst; exact isFirst
    exact (piece?_depth isPiece).trans flat
  | cons c rest inductionHypothesis =>
    intro piece isFirst
    have next := step_depth flat index c rest
    simp only [pieces] at isFirst
    split at isFirst
    · cases here : s.piece? with
      | some first =>
        rw [here] at isFirst
        obtain rfl := Option.some.inj isFirst
        exact (piece?_depth here).trans flat
      | none =>
        rw [here] at isFirst
        exact inductionHypothesis (next.resolve_right fun cuts => cuts.2 here) _ piece isFirst
    · rename_i continues
      exact inductionHypothesis (next.resolve_right fun cuts => continues cuts.1) _ piece isFirst

end Splitter

theorem splitStatements_head_depth
    {line : List Char}
    {piece : Piece}
    (isFirst : (splitStatements line).head? = some piece) :
    piece.depth = 0 :=
  Splitter.head_pieces_depth rfl 0 line piece isFirst

/-! ## Texts that are cut at semicolons only -/

/-- Quotes, brackets and braces. -/
def marks : List Char :=
  ['"', '\'', '(', ')', '[', ']', '\x7b', '\x7d']

/-- A text without quotes, brackets and braces. -/
def Unmarked (cs : List Char) : Prop :=
  ∀ c ∈ cs, c ∉ marks

instance (cs : List Char) : Decidable (Unmarked cs) :=
  inferInstanceAs (Decidable (∀ c ∈ cs, c ∉ marks))

theorem unmarked_nil : Unmarked [] :=
  List.forall_mem_nil _

theorem Unmarked.append
    {left right : List Char}
    (lefts : Unmarked left)
    (rights : Unmarked right) :
    Unmarked (left ++ right) := by
  intro c isIn
  rcases List.mem_append.mp isIn with isLeft | isRight
  · exact lefts c isLeft
  · exact rights c isRight

theorem Unmarked.of_allBlank
    {gap : List Char}
    (blank : AllBlank gap) :
    Unmarked gap := by
  intro c isIn isMark
  have noneBlank : marks.all (!isBlank ·) = true := by decide
  have notBlank := List.all_eq_true.mp noneBlank c isMark
  rw [blank c isIn] at notBlank
  exact absurd notBlank (by decide)

theorem Unmarked.of_sublist
    {cs part : List Char}
    (unmarked : Unmarked cs)
    (isPart : part.Sublist cs) :
    Unmarked part :=
  fun c isIn => unmarked c (isPart.subset isIn)

namespace Splitter

/-- The state is outside quotes and brackets. -/
structure IsOutside (s : Splitter) : Prop where
  unquoted : s.quote = none
  unnested : s.nesting = 0

theorem step_unmarked
    {s : Splitter}
    (outside : s.IsOutside)
    {c : Char}
    (unmarked : c ∉ marks)
    (index : Nat)
    (following : List Char) :
    s.step index c following =
      if c = ';' then (s.cut index c, true) else (s.keep c, false) := by
  simp only [marks, List.mem_cons, List.not_mem_nil, or_false, not_or] at unmarked
  simp [step, outside.unquoted, outside.unnested, unmarked]

theorem IsOutside.keep
    {s : Splitter}
    (outside : s.IsOutside)
    (c : Char) :
    (s.keep c).IsOutside :=
  ⟨outside.unquoted, outside.unnested⟩

theorem IsOutside.cut
    {s : Splitter}
    (outside : s.IsOutside)
    (index : Nat)
    (c : Char) :
    (s.cut index c).IsOutside :=
  ⟨outside.unquoted, outside.unnested⟩

/-- The state after characters that all belong to the present stretch. -/
def keepAll (s : Splitter) (cs : List Char) : Splitter :=
  cs.foldl keep s

theorem keepAll_eq
    (s : Splitter)
    (cs : List Char) :
    s.keepAll cs =
      { s with stretch := cs.reverse ++ s.stretch, previous := cs.getLast?.or s.previous } := by
  induction cs generalizing s with
  | nil => rfl
  | cons c rest inductionHypothesis =>
    show (s.keep c).keepAll rest = _
    rw [inductionHypothesis, List.reverse_cons, List.append_assoc, List.getLast?_cons]
    cases rest.getLast? <;> rfl

/-- Characters that are neither marks nor semicolons belong to the present stretch. -/
theorem pieces_append_unmarked
    {cs : List Char}
    (unmarked : Unmarked cs)
    (noSemicolon : ';' ∉ cs)
    {s : Splitter}
    (outside : s.IsOutside)
    (index : Nat)
    (following : List Char) :
    s.pieces index (cs ++ following) = (s.keepAll cs).pieces (index + width cs) following := by
  induction cs generalizing s index with
  | nil => rfl
  | cons c rest inductionHypothesis =>
    obtain ⟨notHere, notLater⟩ := not_or.mp (mt List.mem_cons.mpr noSemicolon)
    have step := step_unmarked outside (unmarked c (List.mem_cons_self ..)) index (rest ++ following)
    rw [if_neg (Ne.symm notHere)] at step
    have more := inductionHypothesis (unmarked.of_sublist (List.sublist_cons_self c rest)) notLater
      (outside.keep c) (index + c.utf8Size)
    rw [List.cons_append, pieces, step, width_cons, ← Nat.add_assoc]
    exact more

theorem IsOutside.keepAll
    {s : Splitter}
    (outside : s.IsOutside)
    (cs : List Char) :
    (s.keepAll cs).IsOutside := by
  rw [keepAll_eq]
  exact ⟨outside.unquoted, outside.unnested⟩

/-- Without semicolons the rest of the line belongs to the present stretch. -/
theorem pieces_unmarked
    {cs : List Char}
    (unmarked : Unmarked cs)
    (noSemicolon : ';' ∉ cs)
    {s : Splitter}
    (outside : s.IsOutside)
    (index : Nat) :
    s.pieces index cs =
      (Piece.ofStretch? s.depth s.start (s.stretch.reverse ++ cs)).toList := by
  have whole := pieces_append_unmarked unmarked noSemicolon outside index []
  rw [List.append_nil] at whole
  rw [whole, pieces, piece?, keepAll_eq, List.reverse_append, List.reverse_reverse]
  rfl

/-- A semicolon ends the present stretch. -/
theorem pieces_semicolon
    {cs : List Char}
    (unmarked : Unmarked cs)
    (noSemicolon : ';' ∉ cs)
    {s : Splitter}
    (outside : s.IsOutside)
    (index : Nat)
    (following : List Char) :
    s.pieces index (cs ++ ';' :: following) =
      (Piece.ofStretch? s.depth s.start (s.stretch.reverse ++ cs)).toList ++
        ({ s with start := index + width cs + 1, stretch := [], previous := some ';' } : Splitter).pieces
          (index + width cs + 1) following := by
  have step := step_unmarked (outside.keepAll cs) (show ';' ∉ marks by decide) (index + width cs)
    following
  rw [if_pos rfl] at step
  rw [pieces_append_unmarked unmarked noSemicolon outside, pieces, step, piece?, keepAll_eq,
    List.reverse_append, List.reverse_reverse]
  rfl

/-- A semicolon after everything else does nothing. -/
theorem pieces_append_semicolon
    {cs gap : List Char}
    (unmarked : Unmarked cs)
    (blank : AllBlank gap)
    {s : Splitter}
    (outside : s.IsOutside)
    (index : Nat) :
    s.pieces index (cs ++ (gap ++ [';'])) = s.pieces index cs := by
  induction cs generalizing s index with
  | nil =>
    have noSemicolon : ';' ∉ gap := fun isIn => absurd (blank _ isIn) (by decide)
    rw [List.nil_append, pieces_semicolon (.of_allBlank blank) noSemicolon outside,
      Piece.ofStretch?_append_of_allBlank blank]
    simp [pieces, piece?, Piece.ofStretch?, trim, trimStart, trimEnd]
  | cons c rest inductionHypothesis =>
    have notMark := unmarked c (List.mem_cons_self ..)
    have later := unmarked.of_sublist (List.sublist_cons_self c rest)
    simp only [List.cons_append, pieces, step_unmarked outside notMark]
    split
    · rw [inductionHypothesis later (outside.cut index c)]
    · rw [inductionHypothesis later (outside.keep c)]

theorem initial_isOutside : initial.IsOutside :=
  ⟨rfl, rfl⟩

end Splitter

/-- A trimmed text without semicolons is one statement. -/
theorem splitStatements_unmarked
    {text : List Char}
    (unmarked : Unmarked text)
    (noSemicolon : ';' ∉ text)
    (trimmed : trim text = text)
    (nonempty : text ≠ []) :
    splitStatements text = [⟨0, 0, text⟩] := by
  rw [splitStatements, Splitter.pieces_unmarked unmarked noSemicolon Splitter.initial_isOutside]
  exact congrArg Option.toList (Piece.ofStretch?_of_trim allBlank_nil trimmed nonempty 0 0)

/-- Two trimmed texts with a semicolon and blanks between them are two statements. -/
theorem splitStatements_semicolon
    {first gap second : List Char}
    (firstUnmarked : Unmarked first)
    (firstWhole : ';' ∉ first)
    (firstTrimmed : trim first = first)
    (firstNonempty : first ≠ [])
    (blank : AllBlank gap)
    (secondUnmarked : Unmarked second)
    (secondWhole : ';' ∉ second)
    (secondTrimmed : trim second = second)
    (secondNonempty : second ≠ []) :
    splitStatements (first ++ ';' :: (gap ++ second)) =
      [⟨0, 0, first⟩, ⟨0, width first + 1 + width gap, second⟩] := by
  have outside := Splitter.initial_isOutside
  have noSemicolon : ';' ∉ gap ++ second := by
    intro isIn
    rcases List.mem_append.mp isIn with inGap | inSecond
    · exact absurd (blank _ inGap) (by decide)
    · exact secondWhole inSecond
  rw [splitStatements, Splitter.pieces_semicolon firstUnmarked firstWhole outside,
    Splitter.pieces_unmarked ((Unmarked.of_allBlank blank).append secondUnmarked) noSemicolon
      ⟨rfl, rfl⟩]
  have here := Piece.ofStretch?_of_trim allBlank_nil firstTrimmed firstNonempty 0 0
  have later := Piece.ofStretch?_of_trim blank secondTrimmed secondNonempty 0 (width first + 1)
  simp only [List.nil_append, width_nil] at here
  simp only [Splitter.initial, Splitter.depth, List.reverse_nil, List.nil_append, List.count_nil,
    here, later, Option.toList_some, Nat.zero_add]
  rfl

/-- A semicolon after everything else does nothing. -/
theorem splitStatements_append_semicolon
    {text gap : List Char}
    (unmarked : Unmarked text)
    (blank : AllBlank gap) :
    splitStatements (text ++ (gap ++ [';'])) = splitStatements text :=
  Splitter.pieces_append_semicolon unmarked blank Splitter.initial_isOutside 0

end StyleSense
