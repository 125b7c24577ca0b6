import StyleSense.Proofs.Line.Literal

/-!
Contract: the lines of two texts that differ in one sealed literal.

Owns:
- `Scan.Exchanged`, two states after the lines that differ, and `Scan.step_exchanged`, that these
  lines lead to them;
- `Scan.All`, a property of all logical lines found so far;
- `scanLines_exchange`: all other lines are the same up to their columns.

Does not own: what the statements of these lines mean (`StyleSense.Proofs.Statement.Literal`).
-/

namespace StyleSense

open Text

/-- The head of a logical line runs over byte `place` of the physical line `number`. -/
def Line.Covers (number place : Nat) (line : Line) : Prop :=
  line.head.line = number ∧ line.head.offset ≤ place ∧
    place < line.head.offset + width line.head.text

/-- A logical line is not made up by the physical line `number` alone. -/
def Line.Elsewhere (number : Nat) (line : Line) : Prop :=
  line.head.line = number → line.tail ≠ []

theorem literalLine_covers
    {offset place : Nat}
    {before : List Char}
    (stands : offset + width before = place)
    (indent number : Nat)
    (quote : Char)
    (body after : List Char) :
    (literalLine indent number offset before quote body after).Covers number place := by
  have positive := quote.utf8Size_pos
  refine ⟨rfl, ?_, ?_⟩
  · simp only [literalLine]
    omega
  · simp only [literalLine, width_append, width_cons]
    omega

namespace Scan

/-- What a line with the literal `body` makes of the state `s`, and what it makes of it with `body'`
in its place: one logical line covers the literal, which stands at byte `place`. -/
inductive Exchanged (quote : Char) (body body' : List Char) (number place : Nat) (s : Scan) :
    Scan → Scan → Prop
  | waiting {indent offset : Nat} {before after : List Char} {depth : Int} {countBraces : Bool}
      (inComment : Bool)
      (stands : offset + width before = place)
      (goesOn : (0 < depth || (quote :: after).getLast? == some ',') = true) :
      Exchanged quote body body' number place s
        { s with
          inComment
          pending := some ⟨literalLine indent number offset before quote body after, depth, countBraces⟩ }
        { s with
          inComment
          pending := some ⟨literalLine indent number offset before quote body' after, depth, countBraces⟩ }
  | complete {indent offset : Nat} {before after : List Char}
      (inComment : Bool)
      (rawIndent : Option Nat)
      (earlier later later' : List Line)
      (stands : offset + width before = place)
      (elsewhere : ∀ line ∈ earlier ++ later, ¬line.Covers number place)
      (same : List.Forall₂ Line.SameText later later') :
      Exchanged quote body body' number place s
        { s with
          found := (earlier ++ literalLine indent number offset before quote body after :: later).reverse
            ++ s.found
          inComment, rawIndent }
        { s with
          found := (earlier ++ literalLine indent number offset before quote body' after :: later').reverse
            ++ s.found
          inComment, rawIndent }

section Step

variable {quote : Char} {body body' : List Char}

/-- The statements of a complete line with one or the other literal in it. -/
theorem split_exchanged
    (isQuote : IsQuote quote)
    (isSealed : Sealed quote body)
    (isSealed' : Sealed quote body')
    {front : List Char}
    (closed : openQuote none front = none)
    (rest : List Char)
    (indent number start : Nat) :
    ∃ (earlier : List Line) (inner offset : Nat) (before after : List Char) (later later' : List Line),
      (literalLine indent number start front quote body rest).split =
        earlier ++ literalLine inner number offset before quote body after :: later ∧
      (literalLine indent number start front quote body' rest).split =
        earlier ++ literalLine inner number offset before quote body' after :: later' ∧
      offset + width before = start + width front ∧
      (∀ line ∈ earlier ++ later, ¬line.Covers number (start + width front)) ∧
      List.Forall₂ Line.SameText later later' := by
  obtain ⟨earlier, depth, offset, before, after, later, later', pieces, pieces', same, stands, ends,
    starts⟩ := splitStatements_exchange isQuote isSealed isSealed' closed rest
  let ofPiece (piece : Piece) : Line :=
    ⟨indent + piece.depth, ⟨number, start + piece.offset, piece.text⟩, []⟩
  refine ⟨earlier.map ofPiece, indent + depth, start + offset, before, after, later.map ofPiece,
    later'.map ofPiece, ?_, ?_, ?_, ?_, ?_⟩
  · simp only [Line.split, literalLine, pieces, List.map_append, List.map_cons]
    rfl
  · simp only [Line.split, literalLine, pieces', List.map_append, List.map_cons]
    rfl
  · omega
  · rintro line isLine ⟨_, covers, covers'⟩
    rcases List.mem_append.mp isLine with isEarlier | isLater
    · obtain ⟨piece, isPiece, rfl⟩ := List.mem_map.mp isEarlier
      have bound := ends piece isPiece
      simp only [ofPiece] at covers'
      omega
    · obtain ⟨piece, isPiece, rfl⟩ := List.mem_map.mp isLater
      have bound := starts piece isPiece
      simp only [ofPiece] at covers
      omega
  · refine List.forall₂_map_left_iff.mpr (List.forall₂_map_right_iff.mpr (same.imp ?_))
    rintro piece piece' ⟨sameDepth, sameText⟩
    exact ⟨congrArg (indent + ·) sameDepth, rfl, sameText, rfl⟩

/-- A line with one or the other sealed literal in it. -/
theorem step_exchanged
    (isQuote : IsQuote quote)
    (isSealed : Sealed quote body)
    (isSealed' : Sealed quote body')
    {s : Scan}
    (complete : s.pending = none)
    {before : List Char}
    (code : LeadsToCode s.inComment before)
    (after : List Char)
    (number : Nat) :
    Exchanged quote body body' number (width before) s
      (s.step number (before ++ quoted quote body ++ after))
      (s.step number (before ++ quoted quote body' ++ after)) := by
  let cleaned := (blankComments s.inComment before).1
  let gap := cleaned.takeWhile isBlank
  let front := frontOf (trimStart cleaned)
  have closed : openQuote none (trimStart cleaned) = none := by
    refine openQuote_of_suffix (takeWhile_append_trimStart cleaned).symm ?_ code.openQuote_eq
    intro c isIn isSign
    have blank := List.mem_takeWhile_imp isIn
    rcases isSign with rfl | rfl <;> exact absurd blank (by decide)
  have stands : width gap + (width (trimStart cleaned) - width front) + width front = width before := by
    have whole := congrArg width (takeWhile_append_trimStart cleaned)
    have sameWidth := (blankComments_blanked s.inComment before).width_eq
    have shorter := width_le_of_suffix (frontOf_suffix (trimStart cleaned))
    rw [width_append] at whole
    simp only [gap, front, cleaned] at *
    omega
  rw [step_literal isQuote isSealed complete code, step_literal isQuote isSealed' complete code,
    startLine_literal isQuote isSealed closed, startLine_literal isQuote isSealed' closed]
  let rest := endOf (isValueLine front) (trimEnd (blankFrom .code (some quote) after).1)
  let start := width gap + (width (trimStart cleaned) - width front)
  simp only
  split
  · rename_i goesOn
    exact .waiting _ stands goesOn
  · split
    · exact .complete _ _ [] [] [] stands (fun _ isIn => nomatch isIn) .nil
    · obtain ⟨earlier, inner, offset, before, after, later, later', lines, lines', standsHere,
        elsewhere, same⟩ := split_exchanged isQuote isSealed isSealed' (frontOf_closed closed) rest
          (width gap) number start
      rw [stands] at standsHere elsewhere
      rw [lines, lines']
      exact .complete _ _ earlier later later' standsHere elsewhere same

end Step

/-! ## The lines above and below -/

variable {number : Nat}

theorem step_elsewhere
    {s : Scan}
    (all : s.All (Line.Elsewhere number))
    (present : Nat)
    (other : s.pending = none → present ≠ number)
    (physical : List Char) :
    (s.step present physical).All (Line.Elsewhere number) := by
  refine step_all (fun notPending offset text _ indent here => ?_)
    (fun {offset text} _ {line} _ _ => ?_) all
  · exact absurd here (other notPending)
  · simp

theorem run_elsewhere
    {s : Scan}
    (all : s.All (Line.Elsewhere number))
    {first : Nat}
    {lines : List (List Char)}
    (other : first + lines.length ≤ number ∨ number < first) :
    (s.run first lines).All (Line.Elsewhere number) := by
  induction lines generalizing s first with
  | nil => exact all
  | cons physical rest inductionHypothesis =>
    rw [List.length_cons] at other
    refine inductionHypothesis (step_elsewhere all first ?_ physical) ?_
    · omega
    · omega

/-- An open line waits for the lines after it: either all of them are blank, or it is continued. -/
theorem run_pending
    {s : Scan}
    (all : s.All (Line.Elsewhere number))
    {first : Nat}
    (later : number < first)
    (lines : List (List Char)) :
    (∃ inComment, ∀ opened : OpenLine, opened.goesOn = true →
      { s with pending := some opened }.run first lines =
        { s with inComment, pending := some opened }) ∨
    ∀ opened : OpenLine, opened.goesOn = true →
      ({ s with pending := some opened }.run first lines).All (Line.Elsewhere number) := by
  induction lines generalizing s first with
  | nil => exact .inl ⟨s.inComment, fun opened _ => rfl⟩
  | cons physical rest inductionHypothesis =>
    let read := blankComments s.inComment physical
    let trimmed := trimStart (trimEnd read.1)
    have step : ∀ opened : OpenLine, { s with pending := some opened }.step first physical =
        { s with inComment := read.2, pending := some opened }.continueLine opened first
          (width (trimEnd read.1) - width trimmed) trimmed := fun _ => rfl
    by_cases blank : trimmed.isEmpty = true
    · have next : ∀ opened : OpenLine, opened.goesOn = true →
          { s with pending := some opened }.step first physical =
            { s with inComment := read.2, pending := some opened } := by
        intro opened goesOn
        rw [step, continueLine]
        simp only [blank, if_true, goesOn]
      obtain ⟨inComment, waits⟩ | continued := inductionHypothesis
        (s := { s with inComment := read.2 }) ⟨all.found, all.pending⟩ (Nat.lt_succ_of_lt later)
      · refine .inl ⟨inComment, fun opened goesOn => ?_⟩
        rw [run, next opened goesOn]
        exact waits opened goesOn
      · refine .inr fun opened goesOn => ?_
        rw [run, next opened goesOn]
        exact continued opened goesOn
    · refine .inr fun opened _ => ?_
      rw [run]
      refine run_elsewhere ?_ (.inr (by omega))
      rw [step, continueLine]
      simp only [if_neg blank]
      -- The line has one more fragment now, whether it goes on after that or not.
      have longer : ∀ fragment : Fragment,
          Line.Elsewhere number { opened.line with tail := opened.line.tail ++ [fragment] } := by
        intro fragment _
        simp
      split
      · refine ⟨all.found, fun other isOther => ?_⟩
        cases isOther
        exact longer _
      · refine ⟨fun line isFound => ?_, fun other isOther => by cases isOther⟩
        rcases List.mem_cons.mp isFound with rfl | isEarlier
        · exact longer _
        · exact all.found line isEarlier

theorem finish_after
    (s : Scan)
    (before : List Line) :
    (s.after before).finish = s.finish.map (before.reverse ++ ·) := by
  obtain ⟨found, inComment, pending, rawIndent⟩ := s
  cases pending with
  | none => simp [finish, after, Except.map]
  | some opened =>
    simp only [finish, after]
    split
    · rfl
    · simp [Except.map]

/-- The logical lines of two texts after the lines that differ. -/
theorem Exchanged.finish
    {quote : Char}
    {body body' : List Char}
    {place : Nat}
    {s t t' : Scan}
    (exchanged : Exchanged quote body body' number place s t t')
    (complete : s.pending = none)
    (all : s.All (Line.Elsewhere number))
    (below : List (List Char))
    {lines : List Line}
    (finished : (t.run (number + 1) below).finish = .ok lines)
    {line : Line}
    (isLine : line ∈ lines)
    (here : ¬line.Elsewhere number) :
    ∃ (earlier : List Line) (indent offset : Nat) (before after : List Char) (later later' : List Line),
      lines = earlier ++ literalLine indent number offset before quote body after :: later ∧
      (t'.run (number + 1) below).finish =
        .ok (earlier ++ literalLine indent number offset before quote body' after :: later') ∧
      offset + width before = place ∧
      (∀ line ∈ earlier ++ later, line.tail = [] → ¬line.Covers number place) ∧
      List.Forall₂ Line.SameText later later' := by
  have apart : ∀ {line : Line}, line.Elsewhere number → line.tail = [] → ¬line.Covers number place :=
    fun elsewhere alone covers => elsewhere covers.1 alone
  cases exchanged with
  | @waiting indent offset before after depth countBraces inComment stands goesOn =>
    have opened : ∀ body, (⟨literalLine indent number offset before quote body after, depth,
        countBraces⟩ : OpenLine).goesOn = true := fun body => (literalLine_goesOn ..).trans goesOn
    have allHere : { s with inComment }.All (Line.Elsewhere number) := ⟨all.found, all.pending⟩
    obtain ⟨atEnd, waits⟩ | continued := run_pending allHere (Nat.lt_succ_self number) below
    · -- Nothing follows the line, which must have ended in a comma.
      rw [waits _ (opened body)] at finished
      rw [waits _ (opened body')]
      simp only [Scan.finish] at finished ⊢
      split at finished
      · cases finished
      · rename_i notOpen
        cases finished
        refine ⟨s.found.reverse, indent, offset, before, after, [], [], by simp, ?_, stands, ?_, .nil⟩
        · rw [if_neg notOpen]
          simp
        · intro line isEarlier
          rw [List.append_nil, List.mem_reverse] at isEarlier
          exact apart (all.found line isEarlier)
    · exact absurd ((continued _ (opened body)).finish finished line isLine) here
  | @complete indent offset before after inComment rawIndent earlier later later' stands elsewhere same =>
    let base : Scan := ⟨[], inComment, none, rawIndent⟩
    have baseAll : base.All (Line.Elsewhere number) :=
      ⟨(fun _ isFound => nomatch isFound), (fun _ isOpened => nomatch isOpened)⟩
    have runs : ∀ found : List Line, ({ s with found, inComment, rawIndent }.run (number + 1) below).finish =
        (base.run (number + 1) below).finish.map (found.reverse ++ ·) := by
      intro found
      have started : ({ s with found, inComment, rawIndent } : Scan) = base.after found := by
        rw [complete]
        rfl
      rw [started, run_after, finish_after]
    rw [runs] at finished
    rw [runs]
    cases ended : (base.run (number + 1) below).finish with
    | error error =>
      rw [ended] at finished
      cases finished
    | ok others =>
      rw [ended] at finished
      cases finished
      have othersElsewhere := (run_elsewhere baseAll (.inr (Nat.lt_succ_self number))).finish ended
      refine ⟨s.found.reverse ++ earlier, indent, offset, before, after, later ++ others,
        later' ++ others, by simp, by simp [Except.map], stands, ?_, ?_⟩
      · intro line isOther
        simp only [List.mem_append, List.mem_reverse] at isOther elsewhere
        rcases isOther with (isFound | isEarlier) | isLater | isBelow
        · exact apart (all.found line isFound)
        · exact fun _ => elsewhere line (.inl isEarlier)
        · exact fun _ => elsewhere line (.inr isLater)
        · exact apart (othersElsewhere line isBelow)
      · exact List.rel_append same (List.forall₂_same.mpr fun line _ => ⟨rfl, rfl, rfl, rfl⟩)

end Scan

/-- The logical lines of two texts that differ in one sealed literal. -/
theorem scanLines_exchange
    {quote : Char}
    (isQuote : IsQuote quote)
    {body body' : List Char}
    (isSealed : Sealed quote body)
    (isSealed' : Sealed quote body')
    {above below : List (List Char)}
    {before after : List Char}
    (code : LeadsToCode (Scan.initial.run 1 above).inComment before)
    {text text' : List Char}
    (physical : physicalLines text = above ++ (before ++ quoted quote body ++ after) :: below)
    (physical' : physicalLines text' = above ++ (before ++ quoted quote body' ++ after) :: below)
    {lines : List Line}
    (scanned : scanLines text = .ok lines)
    {indent offset : Nat}
    {front rest : List Char}
    (stands : offset + width front = width before)
    (isLine : literalLine indent (above.length + 1) offset front quote body rest ∈ lines) :
    ∃ earlier later later' : List Line,
      lines = earlier ++ literalLine indent (above.length + 1) offset front quote body rest :: later ∧
      scanLines text' =
        .ok (earlier ++ literalLine indent (above.length + 1) offset front quote body' rest :: later') ∧
      literalLine indent (above.length + 1) offset front quote body rest ∉ earlier ++ later ∧
      List.Forall₂ Line.SameText later later' := by
  let number := above.length + 1
  let s := Scan.initial.run 1 above
  have all : s.All (Line.Elsewhere number) :=
    Scan.run_elsewhere (Scan.initial_all _) (.inl (by simp only [number]; omega))
  have runs : ∀ {text body}, physicalLines text = above ++ (before ++ quoted quote body ++ after) :: below →
      scanLines text = ((s.step number (before ++ quoted quote body ++ after)).run (number + 1) below).finish := by
    intro text body physical
    rw [scanLines, physical, Scan.run_append, Scan.run, Nat.add_comm 1]
  have here : ¬(literalLine indent number offset front quote body rest).Elsewhere number :=
    fun elsewhere => elsewhere rfl rfl
  rw [runs physical] at scanned
  by_cases complete : s.pending = none
  · have exchanged := Scan.step_exchanged isQuote isSealed isSealed' complete code after number
    obtain ⟨earlier, indent', offset', front', rest', later, later', split, split', stands', apart, same⟩ :=
      exchanged.finish complete all below scanned isLine here
    have apartHere : literalLine indent number offset front quote body rest ∉ earlier ++ later :=
      fun isOther => apart _ isOther rfl (literalLine_covers stands indent number quote body rest)
    have same' : literalLine indent number offset front quote body rest =
        literalLine indent' number offset' front' quote body rest' := by
      rw [split] at isLine
      simp only [List.mem_append, List.mem_cons] at isLine apartHere
      tauto
    obtain ⟨rfl, sameHead, _⟩ := Line.mk.inj same'
    obtain ⟨_, rfl, sameText⟩ := Fragment.mk.inj sameHead
    obtain ⟨rfl, sameRest⟩ := append_inj_of_width sameText (by omega)
    obtain rfl : rest = rest' := by simpa using sameRest
    exact ⟨earlier, later, later', split, (runs physical').trans split', apartHere, same⟩
  · have continued := Scan.step_elsewhere all number (fun notPending => absurd notPending complete)
      (before ++ quoted quote body ++ after)
    exact absurd ((Scan.run_elsewhere continued (.inr (Nat.lt_succ_self number))).finish scanned _ isLine)
      here

end StyleSense
