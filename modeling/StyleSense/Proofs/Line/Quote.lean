import StyleSense.Proofs.Line.Scan

/-!
Contract: the quotes of a line.

Three scanners look for quotes, in comments, in brackets and in statements. All of them close a quote
at the next sign of its kind, whatever stands before that sign.

Owns:
- `openQuote`, the quote that is open after a text;
- `bracketDepth_append` and `Splitter.pieces_append`: what a scanner makes of the rest of a line
  depends on the quote that is open there and on nothing else that was quoted before;
- `Sealed`, the literals after which every scanner goes on as it stood before them, and
  `sealed_of_notMem`, that a literal without its own quote sign in it is one of them.

Does not own: the lines in which literals stand (`StyleSense.Proofs.Line.Literal`).
-/

namespace StyleSense

open Text

/-- The quote that is open after one more character. -/
def nextQuote (quote : Option Char) (c : Char) : Option Char :=
  match quote with
  | some sign => if c = sign then none else some sign
  | none => if IsQuote c then some c else none

/-- The quote that is open after a text. -/
def openQuote (quote : Option Char) (cs : List Char) : Option Char :=
  cs.foldl nextQuote quote

theorem openQuote_append
    (quote : Option Char)
    (left right : List Char) :
    openQuote quote (left ++ right) = openQuote (openQuote quote left) right :=
  List.foldl_append

/-! ## Brackets -/

/-- The brackets that one character opens. -/
def bracketWeight (countBraces : Bool) (quote : Option Char) (c : Char) : Int :=
  if quote.isSome then 0
  else if c == '(' || c == '[' || (countBraces && c == '\x7b') then 1
  else if c == ')' || c == ']' || (countBraces && c == '\x7d') then -1
  else 0

theorem bracketDepth_cons
    (countBraces : Bool)
    (quote : Option Char)
    (c : Char)
    (cs : List Char) :
    bracketDepth.go countBraces quote (c :: cs) =
      bracketWeight countBraces quote c + bracketDepth.go countBraces (nextQuote quote c) cs := by
  cases quote with
  | some sign => simp [bracketDepth.go, bracketWeight, nextQuote]
  | none =>
    by_cases isQuote : IsQuote c
    · have noBracket : bracketWeight countBraces none c = 0 := by
        rcases isQuote with rfl | rfl <;> simp [bracketWeight]
      have isSign : (c == '"' || c == '\'') = true := by simpa using isQuote
      simp [bracketDepth.go, nextQuote, isQuote, isSign, noBracket]
    · have noSign : (c == '"' || c == '\'') = false := by simpa using isQuote
      simp only [bracketDepth.go, bracketWeight, nextQuote, noSign, if_neg isQuote, Option.isSome_none,
        Bool.false_eq_true, if_false]
      split
      · omega
      · split <;> omega

theorem bracketDepth_append
    (countBraces : Bool)
    (quote : Option Char)
    (left right : List Char) :
    bracketDepth.go countBraces quote (left ++ right) =
      bracketDepth.go countBraces quote left +
        bracketDepth.go countBraces (openQuote quote left) right := by
  induction left generalizing quote with
  | nil => simp [bracketDepth.go, openQuote]
  | cons c rest inductionHypothesis =>
    have opens : openQuote quote (c :: rest) = openQuote (nextQuote quote c) rest := rfl
    rw [opens, List.cons_append, bracketDepth_cons, bracketDepth_cons, inductionHypothesis]
    omega

/-! ## Statements -/

/-- Pieces that differ in their offsets only. -/
def Piece.SameText (left right : Piece) : Prop :=
  left.depth = right.depth ∧ left.text = right.text

namespace Splitter

theorem step_quote
    (s : Splitter)
    (index : Nat)
    (c : Char)
    (following : List Char) :
    (s.step index c following).1.quote = nextQuote s.quote c := by
  unfold step nextQuote
  cases quoted : s.quote with
  | some sign =>
    simp only
    split <;> simp_all [keep]
  | none =>
    by_cases isQuote : IsQuote c
    · have isSign : (c == '"' || c == '\'') = true := by simpa using isQuote
      simp [isQuote, isSign, keep]
    · have noSign : (c == '"' || c == '\'') = false := by simpa using isQuote
      simp only [noSign, Bool.false_eq_true, if_false, if_neg isQuote]
      repeat' split
      all_goals simp [keep, cut, quoted]

theorem step_following
    (s : Splitter)
    (index : Nat)
    (c : Char)
    {following following' : List Char}
    (sameHead : following.head? = following'.head?) :
    s.step index c following = s.step index c following' := by
  have sameOpening : s.opensBody following = s.opensBody following' := by
    unfold opensBody
    rw [sameHead]
  unfold step
  rw [sameOpening]

/-- The present stretch ends where the line is read. -/
def StandsAt (s : Splitter) (index : Nat) : Prop :=
  s.start + width s.stretch.reverse = index

theorem StandsAt.step
    {s : Splitter}
    {index : Nat}
    (stands : s.StandsAt index)
    (c : Char)
    (following : List Char) :
    (s.step index c following).1.StandsAt (index + c.utf8Size) := by
  obtain ⟨t, sameStart, sameStretch, step⟩ := step_cases s index c following
  unfold StandsAt at stands ⊢
  rcases step with keeps | cuts
  · simp only [keeps, keep, sameStart, sameStretch, List.reverse_cons, width_append, width_cons,
      width_nil]
    omega
  · simp [cuts, cut]

theorem piece?_bounds
    {s : Splitter}
    {piece : Piece}
    (isPiece : piece ∈ s.piece?.toList) :
    s.start ≤ piece.offset ∧
      piece.offset + width piece.text ≤ s.start + width s.stretch.reverse := by
  obtain ⟨before, after, whole, leading⟩ := standsAt_trim s.stretch.reverse
  have total := congrArg width whole
  simp only [width_append] at total
  simp only [piece?, Piece.ofStretch?] at isPiece
  split at isPiece
  · cases isPiece
  · rw [Option.toList_some, List.mem_singleton] at isPiece
    subst isPiece
    simp only
    omega

/-- The pieces before a quote sign, and the state there. -/
theorem pieces_append
    {s : Splitter}
    {index : Nat}
    (stands : s.StandsAt index)
    (q : Char)
    (cs : List Char) :
    ∃ (found : List Piece) (t : Splitter),
      t.quote = openQuote s.quote cs ∧ t.StandsAt (index + width cs) ∧
        (∀ piece ∈ found, piece.offset + width piece.text ≤ index + width cs) ∧
        ∀ rest, s.pieces index (cs ++ q :: rest) = found ++ t.pieces (index + width cs) (q :: rest) := by
  induction cs generalizing s index with
  | nil => exact ⟨[], s, rfl, stands, fun _ isIn => (nomatch isIn), fun _ => rfl⟩
  | cons c following inductionHypothesis =>
    have sameHead : ∀ rest, (following ++ q :: rest).head? = (following ++ [q]).head? := by
      intro rest
      cases following <;> rfl
    have sameStep := fun rest => step_following s index c (sameHead rest)
    obtain ⟨found, t, quote, standsAfter, bounded, pieces⟩ :=
      inductionHypothesis (stands.step c (following ++ [q]))
    rw [step_quote] at quote
    rw [Nat.add_assoc] at standsAfter
    refine ⟨(if (s.step index c (following ++ [q])).2 then s.piece?.toList else []) ++ found, t, quote,
      standsAfter, ?_, ?_⟩
    · intro piece isIn
      rw [width_cons]
      rcases List.mem_append.mp isIn with isHere | isLater
      · split at isHere
        · have bounds := piece?_bounds isHere
          rw [stands] at bounds
          omega
        · cases isHere
      · have bounds := bounded piece isLater
        omega
    · intro rest
      have later := pieces rest
      rw [List.cons_append, Splitter.pieces, sameStep rest]
      simp only [later, width_cons, Nat.add_assoc]
      split <;> simp

/-- What a step does depends on the present stretch only as far as it is blank or not. -/
theorem step_stretch
    (s : Splitter)
    {stretch : List Char}
    (alike : (trim stretch).isEmpty = (trim s.stretch).isEmpty)
    (start index index' : Nat)
    (c : Char)
    (following : List Char) :
    { s with start, stretch }.step index' c following =
      if (s.step index c following).2 then
        ({ (s.step index c following).1 with start := index' + c.utf8Size }, true)
      else ({ (s.step index c following).1 with start, stretch := c :: stretch }, false) := by
  have sameOpening : opensBody { s with start, stretch } following = s.opensBody following := by
    simp only [opensBody, alike]
  obtain ⟨braces, nesting, quote, oldStart, oldStretch, previous⟩ := s
  unfold step
  simp only [sameOpening]
  cases quote with
  | some sign =>
    simp only
    split <;> rfl
  | none =>
    simp only
    repeat' split
    all_goals simp_all [keep, cut]

theorem piece?_start
    (s : Splitter)
    (start : Nat) :
    List.Forall₂ Piece.SameText s.piece?.toList (piece? { s with start }).toList := by
  simp only [piece?, Piece.ofStretch?]
  split
  · exact .nil
  · exact .cons ⟨rfl, rfl⟩ .nil

/-- Where a stretch starts matters to the offsets of the pieces only. -/
theorem pieces_start
    (s : Splitter)
    (start index index' : Nat)
    (cs : List Char) :
    List.Forall₂ Piece.SameText (s.pieces index cs) ({ s with start }.pieces index' cs) := by
  induction cs generalizing s start index index' with
  | nil => exact piece?_start s start
  | cons c rest inductionHypothesis =>
    have step := step_stretch s rfl start index index' c rest
    simp only [pieces, step]
    split
    · simp only [if_true]
      exact List.rel_append (piece?_start s start) (inductionHypothesis _ _ _ _)
    · simp only [Bool.false_eq_true, if_false]
      obtain ⟨t, sameStart, sameStretch, kept | cuts⟩ := step_cases s index c rest
      · rw [kept]
        have same : ({ t.keep c with start, stretch := c :: s.stretch } : Splitter) =
            { t.keep c with start } := by
          rw [← sameStretch]
          rfl
        rw [same]
        exact inductionHypothesis _ _ _ _
      · rename_i notCut
        rw [cuts] at notCut
        exact absurd rfl notCut

theorem pieces_bounded
    {s : Splitter}
    {index : Nat}
    (stands : s.StandsAt index)
    (cs : List Char) :
    ∀ piece ∈ s.pieces index cs, s.start ≤ piece.offset := by
  induction cs generalizing s index with
  | nil => exact fun piece isPiece => (piece?_bounds isPiece).1
  | cons c rest inductionHypothesis =>
    intro piece isPiece
    have later := inductionHypothesis (stands.step c rest)
    have grows : s.start ≤ (s.step index c rest).1.start := by
      obtain ⟨t, sameStart, sameStretch, kept | cuts⟩ := step_cases s index c rest
      · rw [kept, keep, sameStart]
      · rw [cuts, cut, ← stands]
        simp only
        omega
    simp only [pieces] at isPiece
    split at isPiece
    · rcases List.mem_append.mp isPiece with isHere | isLater
      · exact (piece?_bounds isHere).1
      · exact Nat.le_trans grows (later piece isLater)
    · exact Nat.le_trans grows (later piece isPiece)

end Splitter

/-! ## A literal in a statement -/

/-- The text of a literal. -/
def quoted (quote : Char) (body : List Char) : List Char :=
  quote :: (body ++ [quote])

theorem quoted_append
    (quote : Char)
    (body after : List Char) :
    quoted quote body ++ after = quote :: (body ++ quote :: after) := by
  simp [quoted]

theorem trim_append_quoted
    {quote : Char}
    (isQuote : IsQuote quote)
    (before body after : List Char) :
    trim (before ++ quote :: (body ++ quote :: after)) =
      trimStart before ++ quote :: (body ++ quote :: trimEnd after) := by
  have solid : isBlank quote = false := by rcases isQuote with rfl | rfl <;> decide
  have inner := trimEnd_append_cons solid (trimStart before ++ quote :: body) after
  simp only [List.append_assoc, List.cons_append] at inner
  rw [trim, trimStart_append_cons solid, inner]

theorem takeWhile_isBlank_append_quoted
    {quote : Char}
    (isQuote : IsQuote quote)
    (before after : List Char) :
    (before ++ quote :: after).takeWhile isBlank = before.takeWhile isBlank := by
  have solid : isBlank quote = false := by rcases isQuote with rfl | rfl <;> decide
  exact takeWhile_append_of_stop (by simpa using solid) before

theorem Piece.ofStretch?_quoted
    {quote : Char}
    (isQuote : IsQuote quote)
    (depth start : Nat)
    (before body after : List Char) :
    Piece.ofStretch? depth start (before ++ quoted quote body ++ after) =
      some ⟨depth, start + width (before.takeWhile isBlank),
        trimStart before ++ quote :: (body ++ quote :: trimEnd after)⟩ := by
  rw [List.append_assoc, quoted_append]
  simp only [ofStretch?, trim_append_quoted isQuote, takeWhile_isBlank_append_quoted isQuote]
  exact if_neg (by simp)

namespace Splitter

/-- A literal and what follows it belong to the present stretch. -/
def holding (s : Splitter) (literal after : List Char) : Splitter :=
  { s with stretch := after.reverse ++ literal.reverse ++ s.stretch }

theorem holding_notBlank
    {quote : Char}
    (isQuote : IsQuote quote)
    (s : Splitter)
    (body after : List Char) :
    (trim (s.holding (quoted quote body) after).stretch).isEmpty = false := by
  have solid : isBlank quote = false := by rcases isQuote with rfl | rfl <;> decide
  have isIn : quote ∈ (s.holding (quoted quote body) after).stretch := by simp [holding, quoted]
  simpa using List.ne_nil_of_mem (mem_trim solid isIn)

/-- The piece that a literal belongs to, and the pieces after it. -/
theorem pieces_holding
    {quote : Char}
    (isQuote : IsQuote quote)
    (body body' : List Char)
    (s : Splitter)
    (read : List Char)
    (index index' : Nat)
    (cs : List Char) :
    ∃ (depth : Nat) (after : List Char) (later later' : List Piece),
      (s.holding (quoted quote body) read).pieces index cs =
        ⟨depth, s.start + width (s.stretch.reverse.takeWhile isBlank),
          trimStart s.stretch.reverse ++ quote :: (body ++ quote :: after)⟩ :: later ∧
      (s.holding (quoted quote body') read).pieces index' cs =
        ⟨depth, s.start + width (s.stretch.reverse.takeWhile isBlank),
          trimStart s.stretch.reverse ++ quote :: (body' ++ quote :: after)⟩ :: later' ∧
      List.Forall₂ Piece.SameText later later' ∧ ∀ piece ∈ later, index ≤ piece.offset := by
  have present : ∀ (t : Splitter) (body read : List Char), (t.holding (quoted quote body) read).piece?.toList =
      [⟨t.depth, t.start + width (t.stretch.reverse.takeWhile isBlank),
        trimStart t.stretch.reverse ++ quote :: (body ++ quote :: trimEnd read)⟩] := by
    intro t body read
    have whole := Piece.ofStretch?_quoted isQuote t.depth t.start t.stretch.reverse body read
    rw [piece?, holding]
    simp only [List.reverse_append, List.reverse_reverse]
    rw [← List.append_assoc]
    exact congrArg Option.toList whole
  induction cs generalizing s read index index' with
  | nil => exact ⟨s.depth, trimEnd read, [], [], present s body read, present s body' read, .nil,
      fun _ isIn => absurd isIn List.not_mem_nil⟩
  | cons c rest inductionHypothesis =>
    have alike : (trim (s.holding (quoted quote body') read).stretch).isEmpty =
        (trim (s.holding (quoted quote body) read).stretch).isEmpty := by
      rw [holding_notBlank isQuote, holding_notBlank isQuote]
    have step' : (s.holding (quoted quote body') read).step index' c rest = _ :=
      step_stretch (s.holding (quoted quote body) read) alike s.start index index' c rest
    obtain ⟨t, sameStart, sameStretch, kept | cuts⟩ :=
      step_cases (s.holding (quoted quote body) read) index c rest
    · -- The character is read as part of the stretch, and the literal stays in it.
      let next : Splitter := { t with stretch := s.stretch, previous := some c }
      have step : ∀ body, { t.keep c with
          stretch := c :: (s.holding (quoted quote body) read).stretch } =
            next.holding (quoted quote body) (read ++ [c]) := by
        intro body
        simp [next, holding, keep]
      obtain ⟨depth, after, later, later', here, here', same, bounded⟩ := inductionHypothesis next
        (read ++ [c]) (index + c.utf8Size) (index' + c.utf8Size)
      have starts : next.start = s.start := sameStart
      rw [← step body, starts] at here
      rw [← step body', starts] at here'
      refine ⟨depth, after, later, later', ?_, ?_, same, fun piece isIn => ?_⟩
      · have same : ({ t.keep c with
            stretch := c :: (s.holding (quoted quote body) read).stretch } : Splitter) = t.keep c := by
          rw [← sameStretch]
          rfl
        rw [same] at here
        simp only [pieces, kept, Bool.false_eq_true, if_false]
        exact here
      · have starts' : (t.keep c).start = s.start := sameStart
        have moved : ({ t.keep c with
            start := s.start
            stretch := c :: (s.holding (quoted quote body') read).stretch } : Splitter) =
              { t.keep c with stretch := c :: (s.holding (quoted quote body') read).stretch } := by
          rw [← starts']
        simp only [pieces, step', kept, Bool.false_eq_true, if_false]
        rw [moved]
        exact here'
      · have bound := bounded piece isIn
        omega
    · -- The stretch ends here, and the rest of the line is read without the literal.
      have others := pieces_start (t.cut index c) (index' + c.utf8Size) (index + c.utf8Size)
        (index' + c.utf8Size) rest
      refine ⟨s.depth, trimEnd read, _, _, ?_, ?_, others, ?_⟩
      · simp only [pieces, cuts, if_true, present, List.singleton_append]
      · simp only [pieces, step', cuts, if_true, present, List.singleton_append]
      · intro piece isIn
        have stands : (t.cut index c).StandsAt (index + c.utf8Size) := rfl
        have bound := pieces_bounded stands rest piece isIn
        simp only [cut] at bound
        omega

end Splitter

/-! ## Sealed literals -/

/-- Every scanner goes on after a literal as it stood before it: no comment starts in it, no bracket
is left open and no statement ends. -/
structure Sealed (quote : Char) (body : List Char) : Prop where
  comments : ∀ (previous : Option Char) (after : List Char),
    blankFrom .code previous (quote :: (body ++ quote :: after)) =
      (quote :: (body ++ quote :: (blankFrom .code (some quote) after).1),
        (blankFrom .code (some quote) after).2)
  brackets : ∀ (countBraces : Bool) (after : List Char),
    bracketDepth.go countBraces none (quote :: (body ++ quote :: after)) =
      bracketDepth.go countBraces none after
  statements : ∀ (s : Splitter) (index : Nat) (after : List Char), s.quote = none →
    s.pieces index (quote :: (body ++ quote :: after)) =
      { s.holding (quoted quote body) [] with previous := some quote }.pieces
        (index + width (quoted quote body)) after

section NotMem

variable {quote : Char} {body : List Char} (notIn : quote ∉ body)

include notIn

theorem blankFrom_quoted_append
    (previous : Option Char)
    (after : List Char) :
    blankFrom (.quoted quote) previous (body ++ quote :: after) =
      (body ++ quote :: (blankFrom .code (some quote) after).1,
        (blankFrom .code (some quote) after).2) := by
  induction body generalizing previous with
  | nil =>
    rw [List.nil_append, blankFrom_quoted_cons]
    simp
  | cons c rest inductionHypothesis =>
    obtain ⟨notHere, notLater⟩ := not_or.mp (mt List.mem_cons.mpr notIn)
    rw [List.cons_append, blankFrom_quoted_cons]
    simp only [if_neg (Ne.symm notHere), inductionHypothesis notLater, List.cons_append]

theorem bracketDepth_quoted_append
    (countBraces : Bool)
    (after : List Char) :
    bracketDepth.go countBraces (some quote) (body ++ quote :: after) =
      bracketDepth.go countBraces none after := by
  induction body with
  | nil => simp [bracketDepth_cons, bracketWeight, nextQuote]
  | cons c rest inductionHypothesis =>
    obtain ⟨notHere, notLater⟩ := not_or.mp (mt List.mem_cons.mpr notIn)
    rw [List.cons_append, bracketDepth_cons, nextQuote, if_neg (Ne.symm notHere),
      inductionHypothesis notLater]
    simp [bracketWeight]

theorem Splitter.pieces_quoted_append
    {s : Splitter}
    (isOpen : s.quote = some quote)
    (index : Nat)
    (after : List Char) :
    s.pieces index (body ++ quote :: after) =
      { s with
        quote := none
        stretch := quote :: (body.reverse ++ s.stretch)
        previous := some quote }.pieces (index + width (body ++ [quote])) after := by
  induction body generalizing s index with
  | nil => simp [pieces, step, isOpen, keep]
  | cons c rest inductionHypothesis =>
    obtain ⟨notHere, notLater⟩ := not_or.mp (mt List.mem_cons.mpr notIn)
    have kept : s.step index c (rest ++ quote :: after) = (s.keep c, false) := by
      simp [step, isOpen, Ne.symm notHere]
    rw [List.cons_append, pieces]
    simp only [kept, Bool.false_eq_true, if_false]
    rw [inductionHypothesis notLater (show (s.keep c).quote = some quote from isOpen)]
    simp [keep, Nat.add_assoc]

/-- A literal without its own quote sign in it is sealed. -/
theorem sealed_of_notMem (isQuote : IsQuote quote) : Sealed quote body := by
  refine ⟨fun previous after => ?_, fun countBraces after => ?_, fun s index after unquoted => ?_⟩
  · have notSlash : quote ≠ '/' := by rcases isQuote with rfl | rfl <;> decide
    rw [blankFrom_code_cons, if_neg (by simp [notSlash]), if_neg (by simp [notSlash])]
    simp only [if_pos isQuote, blankFrom_quoted_append notIn]
  · have noBracket : bracketWeight countBraces none quote = 0 := by
      rcases isQuote with rfl | rfl <;> simp [bracketWeight]
    rw [bracketDepth_cons, noBracket, nextQuote, if_pos isQuote, bracketDepth_quoted_append notIn]
    omega
  · have isSign : (quote == '"' || quote == '\'') = true := by simpa using isQuote
    have opens : s.step index quote (body ++ quote :: after) =
        ({ s with quote := some quote }.keep quote, false) := by
      simp [Splitter.step, unquoted, isSign]
    rw [Splitter.pieces]
    simp only [opens, Bool.false_eq_true, if_false]
    rw [Splitter.pieces_quoted_append notIn rfl]
    simp [Splitter.keep, Splitter.holding, quoted, unquoted, Nat.add_assoc]

end NotMem

/-- The statements of two lines that differ in one sealed literal. -/
theorem splitStatements_exchange
    {quote : Char}
    (isQuote : IsQuote quote)
    {body body' : List Char}
    (isSealed : Sealed quote body)
    (isSealed' : Sealed quote body')
    {front : List Char}
    (closed : openQuote none front = none)
    (rest : List Char) :
    ∃ (earlier : List Piece) (depth offset : Nat) (before after : List Char) (later later' : List Piece),
      splitStatements (front ++ quote :: (body ++ quote :: rest)) =
        earlier ++ ⟨depth, offset, before ++ quote :: (body ++ quote :: after)⟩ :: later ∧
      splitStatements (front ++ quote :: (body' ++ quote :: rest)) =
        earlier ++ ⟨depth, offset, before ++ quote :: (body' ++ quote :: after)⟩ :: later' ∧
      List.Forall₂ Piece.SameText later later' ∧ offset + width before = width front ∧
      (∀ piece ∈ earlier, piece.offset + width piece.text ≤ width front) ∧
      ∀ piece ∈ later, width front < piece.offset := by
  have atStart : Splitter.initial.StandsAt 0 := rfl
  obtain ⟨earlier, t, unquoted, stands, bounded, pieces⟩ :=
    Splitter.pieces_append atStart quote front
  rw [Nat.zero_add] at stands bounded
  rw [show Splitter.initial.quote = none from rfl, closed] at unquoted
  obtain ⟨depth, after, later, later', here, here', same, beyond⟩ := Splitter.pieces_holding isQuote
    body body' { t with previous := some quote } [] (width front + width (quoted quote body))
    (width front + width (quoted quote body')) rest
  refine ⟨earlier, depth, t.start + width (t.stretch.reverse.takeWhile isBlank),
    trimStart t.stretch.reverse, after, later, later', ?_, ?_, same, ?_, bounded, ?_⟩
  · rw [splitStatements, pieces, Nat.zero_add, isSealed.statements t _ _ unquoted]
    exact congrArg (earlier ++ ·) here
  · rw [splitStatements, pieces, Nat.zero_add, isSealed'.statements t _ _ unquoted]
    exact congrArg (earlier ++ ·) here'
  · have whole := congrArg width (takeWhile_append_trimStart t.stretch.reverse)
    rw [width_append] at whole
    rw [← stands, ← whole]
    exact Nat.add_assoc _ _ _
  · intro piece isIn
    have bound := beyond piece isIn
    have positive := quote.utf8Size_pos
    simp only [quoted, width_cons] at bound
    omega

end StyleSense
