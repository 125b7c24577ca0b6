import StyleSense.Proofs.Line.Order
import StyleSense.Proofs.Statement.Comment

/-!
Contract: scanning loses no source.

Of a physical line without its comments, everything is in a fragment but fillers: blanks, and the
semicolons and braces that end statements and open and close rule bodies. They are taken off the ends
of a line, and a line is cut at some of them.

Owns:
- `IsFiller` and `Covered`, a stretch of text in which every character outside some bytes is a filler;
- `splitStatements_covered`: what the statements of a line leave out;
- `FragmentsOf`, all fragments that a physical line can add, and `Scan.step_adds`, that it adds such;
- `Scan.Covers`, what holds of the fragments after some physical lines, kept by every step and run;
- `scanLines_covers`, the result for every text that has logical lines.

Does not own: which characters belong to comments (`StyleSense.Proofs.Statement.Comment`).
-/

namespace StyleSense

open Text

/-! ## Stretches without loss -/

/-- A character that need not be in a fragment. -/
def IsFiller (c : Char) : Prop :=
  isBlank c = true ∨ c = ';' ∨ c = '\x7b' ∨ c = '\x7d'

/-- A text of fillers only. -/
def Fillers (text : List Char) : Prop :=
  ∀ c ∈ text, IsFiller c

/-- A byte of a text that starts at the given byte. -/
def InSpan (start : Nat) (text : List Char) (index : Nat) : Prop :=
  start ≤ index ∧ index < start + width text

/-- Every character of a text that starts at the given byte stands inside, or is a filler. -/
def Covered (inside : Nat → Prop) (start : Nat) (text : List Char) : Prop :=
  ∀ before c after, text = before ++ c :: after → inside (start + width before) ∨ IsFiller c

theorem Fillers.of_allBlank
    {text : List Char}
    (blank : AllBlank text) :
    Fillers text :=
  fun c isIn => .inl (blank c isIn)

theorem Fillers.append
    {left right : List Char}
    (lefts : Fillers left)
    (rights : Fillers right) :
    Fillers (left ++ right) :=
  fun c isIn => (List.mem_append.mp isIn).elim (lefts c) (rights c)

namespace Covered

variable {inside inside' : Nat → Prop} {start : Nat} {text left right : List Char}

theorem of_fillers
    (fillers : Fillers text) :
    Covered inside start text := by
  intro before c after split
  exact .inr (fillers c (by simp [split]))

theorem of_inSpan
    (isInside : ∀ index, InSpan start text index → inside index) :
    Covered inside start text := by
  intro before c after split
  have positive := c.utf8Size_pos
  refine .inl (isInside _ ⟨Nat.le_add_right .., ?_⟩)
  rw [split, width_append, width_cons]
  omega

theorem imp
    (covered : Covered inside start text)
    (weaker : ∀ index, inside index → inside' index) :
    Covered inside' start text :=
  fun before c after split => (covered before c after split).imp_left (weaker _)

theorem append
    (lefts : Covered inside start left)
    (rights : Covered inside (start + width left) right) :
    Covered inside start (left ++ right) := by
  intro before c after split
  rcases List.append_eq_append_iff.mp split with ⟨inner, rfl, isRight⟩ | ⟨inner, isLeft, isRest⟩
  · rw [width_append, ← Nat.add_assoc]
    exact rights inner c after isRight
  · cases inner with
    | nil =>
      rw [List.append_nil] at isLeft
      subst isLeft
      exact rights [] c after isRest.symm
    | cons d rest =>
      obtain ⟨rfl, _⟩ := List.cons.inj isRest
      exact lefts before c rest isLeft

/-- What is covered stays so when everything moves. -/
theorem shift
    (covered : Covered inside start text)
    (offset : Nat)
    (moved : ∀ index, inside index → inside' (offset + index)) :
    Covered inside' (offset + start) text := by
  intro before c after split
  refine (covered before c after split).imp_left fun isInside => ?_
  rw [Nat.add_assoc]
  exact moved _ isInside

end Covered

/-! ## Statements of a line -/

/-- A byte of one of some statements. -/
def InPieces (pieces : List Piece) (index : Nat) : Prop :=
  ∃ piece ∈ pieces, InSpan piece.offset piece.text index

/-- A stretch is covered by the statement it is, if it is one. -/
theorem Piece.ofStretch?_covered
    (depth start : Nat)
    (stretch : List Char) :
    Covered (InPieces (Piece.ofStretch? depth start stretch).toList) start stretch := by
  obtain ⟨tail, blankTail, whole⟩ := exists_trim_append stretch
  have blankFront : AllBlank (stretch.takeWhile isBlank) := fun c => List.mem_takeWhile_imp
  simp only [ofStretch?]
  split
  · rename_i nothing
    have blank : AllBlank stretch := trim_eq_nil.mp (List.isEmpty_iff.mp nothing)
    exact .of_fillers (.of_allBlank blank)
  · generalize stretch.takeWhile isBlank = front at whole blankFront ⊢
    generalize trim stretch = text at whole ⊢
    rw [whole, List.append_assoc]
    refine Covered.append (.of_fillers (.of_allBlank blankFront)) (Covered.append ?_ ?_)
    · exact .of_inSpan fun index isIn => ⟨_, List.mem_singleton_self _, isIn⟩
    · exact .of_fillers (.of_allBlank blankTail)

namespace Splitter

/-- A line is cut at fillers only. -/
theorem step_separator
    (s : Splitter)
    (index : Nat)
    (c : Char)
    (following : List Char)
    (ended : (s.step index c following).2 = true) :
    IsFiller c := by
  unfold step at ended
  split at ended
  · exact absurd ended Bool.false_ne_true
  · repeat' split at ended
    all_goals first
      | exact absurd ended Bool.false_ne_true
      | simp_all [IsFiller]

/-- The statements of what is left of a line leave out fillers only. -/
theorem pieces_covered
    {s : Splitter}
    {index : Nat}
    (stands : s.StandsAt index)
    (cs : List Char) :
    Covered (InPieces (s.pieces index cs)) s.start (s.stretch.reverse ++ cs) := by
  induction cs generalizing s index with
  | nil =>
    rw [List.append_nil]
    exact Piece.ofStretch?_covered s.depth s.start s.stretch.reverse
  | cons c rest inductionHypothesis =>
    have later := inductionHypothesis (stands.step c rest)
    have separator := step_separator s index c rest
    obtain ⟨t, sameStart, sameStretch, keeps | cuts⟩ := step_cases s index c rest
    · rw [keeps] at later
      simp only [pieces, keeps]
      rw [← sameStart, ← sameStretch]
      simpa [keep] using later
    · rw [cuts] at later separator
      simp only [pieces, cuts, if_true]
      rw [← List.singleton_append]
      refine Covered.append ?_ (Covered.append ?_ ?_)
      · refine (Piece.ofStretch?_covered s.depth s.start s.stretch.reverse).imp ?_
        rintro index ⟨piece, isIn, inSpan⟩
        exact ⟨piece, List.mem_append_left _ isIn, inSpan⟩
      · exact .of_fillers fun d isIn => by rw [List.mem_singleton.mp isIn]; exact separator rfl
      · rw [stands]
        refine later.imp ?_
        rintro index ⟨piece, isIn, inSpan⟩
        exact ⟨piece, List.mem_append_right _ isIn, inSpan⟩

end Splitter

/-- The statements of a line leave out fillers only. -/
theorem splitStatements_covered (line : List Char) :
    Covered (InPieces (splitStatements line)) 0 line :=
  Splitter.pieces_covered rfl line

/-! ## Physical lines -/

/-- The fragment that a statement makes up in a line that starts at a byte offset. -/
def Piece.fragment (number offset : Nat) (piece : Piece) : Fragment :=
  ⟨number, offset + piece.offset, piece.text⟩

/-- The fragments that a physical line without comments makes up: without fillers at its ends, it is
one fragment or it is cut into its statements. -/
def FragmentsOf (number : Nat) (cleaned : List Char) (new : List Fragment) : Prop :=
  ∃ front text back, cleaned = front ++ text ++ back ∧ Fillers front ∧ Fillers back ∧
    (new = [⟨number, width front, text⟩] ∨
      new = (splitStatements text).map (Piece.fragment number (width front)))

/-- A byte of one of some fragments, on the line with the given number. -/
def InFragments (fragments : List Fragment) (number index : Nat) : Prop :=
  ∃ fragment ∈ fragments, fragment.line = number ∧ InSpan fragment.offset fragment.text index

/-- The fragments are in order: each ends before the next one starts, and starts after it. -/
def InOrder (fragments : List Fragment) : Prop :=
  fragments.Pairwise fun left right => left.pos.Before right.pos ∧ left.Before right

namespace FragmentsOf

variable {number : Nat} {cleaned : List Char} {new : List Fragment}

theorem standsAt
    (isNew : FragmentsOf number cleaned new) :
    ∀ fragment ∈ new, fragment.line = number ∧ StandsAt fragment.text fragment.offset cleaned := by
  obtain ⟨front, text, back, rfl, _, _, rfl | rfl⟩ := isNew
  · intro fragment isIn
    rw [List.mem_singleton.mp isIn]
    exact ⟨rfl, .of_eq rfl⟩
  · intro fragment isIn
    obtain ⟨piece, isPiece, rfl⟩ := List.mem_map.mp isIn
    exact ⟨rfl, (splitStatements_standsAt text piece isPiece).trans (.of_eq rfl)⟩

theorem covered
    (isNew : FragmentsOf number cleaned new) :
    Covered (InFragments new number) 0 cleaned := by
  obtain ⟨front, text, back, rfl, fillersFront, fillersBack, isOne | areStatements⟩ := isNew
  · subst isOne
    refine Covered.append (.append (.of_fillers fillersFront) ?_) (.of_fillers fillersBack)
    rw [Nat.zero_add]
    exact .of_inSpan fun index isIn => ⟨_, List.mem_singleton_self _, rfl, isIn⟩
  · subst areStatements
    refine Covered.append (.append (.of_fillers fillersFront) ?_) (.of_fillers fillersBack)
    rw [Nat.zero_add]
    refine (splitStatements_covered text).shift (width front) ?_
    rintro index ⟨piece, isPiece, starts, ends⟩
    refine ⟨piece.fragment number (width front), List.mem_map_of_mem isPiece, rfl, ?_, ?_⟩
    · exact Nat.add_le_add_left starts _
    · simp only [Piece.fragment]
      omega

theorem inOrder
    (isNew : FragmentsOf number cleaned new) :
    InOrder new := by
  obtain ⟨front, text, back, _, _, _, rfl | rfl⟩ := isNew
  · exact List.pairwise_singleton ..
  · have ordered : (splitStatements text).Pairwise _ := Splitter.pieces_ordered rfl text
    refine List.pairwise_map.mpr (ordered.imp_of_mem fun {left right} isLeft _ follows => ?_)
    have nonempty := (Splitter.pieces_solid _ _ _ left isLeft).1
    have positive : 0 < width left.text := by
      obtain ⟨c, rest, whole⟩ := List.exists_cons_of_ne_nil nonempty
      have := c.utf8Size_pos
      rw [whole, width_cons]
      omega
    refine ⟨.inr ⟨rfl, ?_⟩, .inr ⟨rfl, ?_⟩⟩
    · simp only [Piece.fragment, Fragment.pos]
      omega
    · simp only [Piece.fragment]
      omega

end FragmentsOf

theorem exists_dropSuffix_append
    {c : Char}
    (filler : IsFiller c)
    (text : List Char) :
    ∃ rest, Fillers rest ∧ text = dropSuffix c text ++ rest := by
  by_cases isLast : text.getLast? = some c
  · obtain ⟨before, rfl⟩ := List.getLast?_eq_some_iff.mp isLast
    rw [dropSuffix_append_singleton]
    exact ⟨[c], fun d isIn => by rwa [List.mem_singleton.mp isIn], rfl⟩
  · rw [dropSuffix_of_getLast?_ne isLast]
    exact ⟨[], fun d isIn => absurd isIn List.not_mem_nil, (List.append_nil _).symm⟩

/-- A filler and blanks are all that is taken off the end of a statement. -/
theorem exists_trimEnd_dropSuffix_append
    {c : Char}
    (filler : IsFiller c)
    (text : List Char) :
    ∃ rest, Fillers rest ∧ text = trimEnd (dropSuffix c text) ++ rest := by
  obtain ⟨last, fillers, whole⟩ := exists_dropSuffix_append filler text
  obtain ⟨gap, blank, inner⟩ := exists_trimEnd_append (dropSuffix c text)
  refine ⟨gap ++ last, (Fillers.of_allBlank blank).append fillers, ?_⟩
  rw [← List.append_assoc, ← inner, ← whole]

namespace Scan

theorem exists_dropSemicolon_append (text : List Char) :
    ∃ rest, Fillers rest ∧ text = dropSemicolon text ++ rest :=
  exists_trimEnd_dropSuffix_append (.inr (.inl rfl)) text

variable {s : Scan}

theorem continueLine_adds
    {opened : OpenLine}
    (pending : s.pending = some opened)
    (number indent : Nat)
    (trimmed : List Char) :
    (trimmed = [] ∧ (s.continueLine opened number indent trimmed).fragments = s.fragments) ∨
      (s.continueLine opened number indent trimmed).fragments =
        s.fragments ++ [⟨number, indent, dropSemicolon trimmed⟩] := by
  rcases continueLine_lines pending number indent trimmed with ⟨nothing, same⟩ | longer
  · exact .inl ⟨nothing, by rw [fragments, same, fragments]⟩
  · refine .inr ?_
    rw [fragments, longer, fragments, lines, pending]
    simp [Line.fragments]

/-- In front of a statement are fillers: closing braces and blanks. -/
theorem exists_fillers_append (trimmed : List Char) :
    ∃ front, Fillers front ∧ trimmed = front ++ trimStart (trimmed.dropWhile (· == '\x7d')) := by
  refine ⟨trimmed.takeWhile (· == '\x7d') ++ (trimmed.dropWhile (· == '\x7d')).takeWhile isBlank,
    Fillers.append (fun c isIn => ?_) (.of_allBlank fun c => List.mem_takeWhile_imp), ?_⟩
  · have isBrace := List.mem_takeWhile_imp isIn
    exact .inr (.inr (.inr (beq_iff_eq.mp isBrace)))
  · rw [List.append_assoc, takeWhile_append_trimStart, List.takeWhile_append_dropWhile]

/-- Fillers are all that is taken off the end of a statement. -/
theorem exists_statementText_append (trimmed : List Char) :
    ∃ back, Fillers back ∧
      trimStart (trimmed.dropWhile (· == '\x7d')) = statementText trimmed ++ back := by
  unfold statementText
  generalize trimStart (trimmed.dropWhile (· == '\x7d')) = unbraced
  obtain ⟨outer, fillersOuter, outerWhole⟩ := exists_dropSemicolon_append unbraced
  simp only
  split
  · exact ⟨outer, fillersOuter, outerWhole⟩
  · obtain ⟨inner, fillersInner, innerWhole⟩ :=
      exists_trimEnd_dropSuffix_append (.inr (.inr (.inl rfl))) (dropSemicolon unbraced)
    refine ⟨inner ++ outer, fillersInner.append fillersOuter, ?_⟩
    rw [← List.append_assoc, ← innerWhole, ← outerWhole]

theorem startLine_adds
    (pending : s.pending = none)
    (number indent : Nat)
    (trimmed : List Char) :
    ∃ front text back, trimmed = front ++ text ++ back ∧ Fillers front ∧ Fillers back ∧
      ((s.startLine number indent trimmed).fragments =
          s.fragments ++ [⟨number, indent + width front, text⟩] ∨
        (s.startLine number indent trimmed).fragments =
          s.fragments ++ (splitStatements text).map (Piece.fragment number (indent + width front))) := by
  obtain ⟨front, fillersFront, whole⟩ := exists_fillers_append trimmed
  obtain ⟨back, fillersBack, cutOff⟩ := exists_statementText_append trimmed
  have offset : (opening number indent trimmed).line.head.offset = indent + width front := by
    have total := congrArg width whole
    rw [width_append] at total
    simp only [opening]
    omega
  have line : (opening number indent trimmed).line =
      ⟨indent, ⟨number, indent + width front, statementText trimmed⟩, []⟩ := by
    rw [← offset]
    rfl
  refine ⟨front, statementText trimmed, back, ?_, fillersFront, fillersBack, ?_⟩
  · rw [List.append_assoc, ← cutOff]
    exact whole
  · rcases s.startLine_cases number indent trimmed with ⟨nothing, same⟩ | ⟨_, _, same⟩ | ⟨_, _, same⟩
    · rw [same, nothing]
      exact .inr (List.append_nil _).symm
    · rw [same]
      exact .inl (by simp [fragments, lines, pending, line, Line.fragments])
    · rw [same]
      have found : s.fragments = s.found.reverse.flatMap Line.fragments := by
        simp [fragments, lines, pending]
      unfold statementsOf
      split
      · exact .inl (by simp [fragments, lines, pending, line, Line.fragments])
      · refine .inr ?_
        have statements : (opening number indent trimmed).line.split.flatMap Line.fragments =
            (splitStatements (statementText trimmed)).map
              (Piece.fragment number (indent + width front)) := by
          rw [line, Line.split, List.flatMap_map, List.map_eq_flatMap]
          rfl
        rw [found, fragments, lines, pending, List.reverse_append, List.reverse_reverse,
          Option.toList_none, List.map_nil, List.append_nil, List.flatMap_append, statements]

/-- A physical line without comments adds all that is in it but fillers. -/
theorem step_adds
    {cleaned : List Char}
    {isOpen : Bool}
    (s : Scan)
    (number : Nat)
    {physical : List Char}
    (isCleaned : blankComments s.inComment physical = (cleaned, isOpen)) :
    ∃ new, (s.step number physical).fragments = s.fragments ++ new ∧
      FragmentsOf number cleaned new := by
  obtain ⟨tail, blankTail, whole⟩ := exists_trimEnd_append cleaned
  have inner := takeWhile_append_trimStart (trimEnd cleaned)
  have blankGap : AllBlank ((trimEnd cleaned).takeWhile isBlank) := fun c => List.mem_takeWhile_imp
  have indent := width_sub_width_trimStart (trimEnd cleaned)
  have fillersTail := Fillers.of_allBlank blankTail
  have fillersGap := Fillers.of_allBlank blankGap
  unfold step
  simp only [isCleaned, indent]
  generalize trimStart (trimEnd cleaned) = trimmed at *
  generalize (trimEnd cleaned).takeWhile isBlank = gap at *
  rw [← inner] at whole
  let moved : Scan := { s with inComment := isOpen }
  split
  · rename_i opened pending
    obtain ⟨rest, fillersRest, cut⟩ := exists_dropSemicolon_append trimmed
    rcases continueLine_adds (s := moved) pending number (width gap) trimmed with
      ⟨nothing, same⟩ | more
    · refine ⟨[], same.trans (List.append_nil _).symm, gap, [], tail, ?_, fillersGap, fillersTail,
        .inr rfl⟩
      rw [whole, nothing]
    · refine ⟨_, more, gap, dropSemicolon trimmed, rest ++ tail, ?_, fillersGap,
        fillersRest.append fillersTail, .inl rfl⟩
      rw [whole, List.append_assoc, List.append_assoc, ← List.append_assoc _ rest tail, ← cut]
  · rename_i notPending
    obtain ⟨front, text, back, cut, fillersFront, fillersBack, adds⟩ :=
      startLine_adds (s := moved) notPending number (width gap) trimmed
    rw [← width_append] at adds
    have parts : cleaned = (gap ++ front) ++ text ++ (back ++ tail) := by
      rw [whole, cut]
      simp only [List.append_assoc]
    rcases adds with one | statements
    · exact ⟨_, one, _, _, _, parts, fillersGap.append fillersFront,
        fillersBack.append fillersTail, .inl rfl⟩
    · exact ⟨_, statements, _, _, _, parts, fillersGap.append fillersFront,
        fillersBack.append fillersTail, .inr rfl⟩

/-! ## Whole texts -/

/-- What holds after some physical lines without comments. -/
structure Covers (s : Scan) (cleaned : List (List Char)) : Prop where
  outside : s.inComment = false
  inOrder : InOrder s.fragments
  standAt : ∀ fragment ∈ s.fragments, 0 < fragment.line ∧
    ∃ line, cleaned[fragment.line - 1]? = some line ∧
      StandsAt fragment.text fragment.offset line
  covered : ∀ index line, cleaned[index]? = some line →
    Covered (InFragments s.fragments (index + 1)) 0 line

theorem initial_covers : initial.Covers [] :=
  ⟨rfl, .nil, (fun _ isIn => nomatch isIn), (fun _ _ isLine => nomatch isLine)⟩

theorem Covers.line_le
    {s : Scan}
    {cleaned : List (List Char)}
    (covers : s.Covers cleaned) :
    ∀ fragment ∈ s.fragments, fragment.line ≤ cleaned.length := by
  intro fragment isIn
  obtain ⟨_, line, isLine, _⟩ := covers.standAt fragment isIn
  have := (List.getElem?_eq_some_iff.mp isLine).1
  omega

/-- A physical line adds its own fragments after all others. -/
theorem Covers.step
    {s : Scan}
    {cleaned : List (List Char)}
    (covers : s.Covers cleaned)
    {physical : List Char}
    (commentless : blankComments false physical = (physical, false)) :
    (s.step (cleaned.length + 1) physical).Covers (cleaned ++ [physical]) := by
  have isCleaned : blankComments s.inComment physical = (physical, false) := by
    rw [covers.outside, commentless]
  obtain ⟨new, adds, isNew⟩ := step_adds s (cleaned.length + 1) isCleaned
  refine ⟨?_, ?_, ?_, ?_⟩
  · rw [step_inComment, isCleaned]
  · rw [adds]
    refine List.pairwise_append.mpr ⟨covers.inOrder, isNew.inOrder, fun left isLeft right isRight => ?_⟩
    have onEarlier := covers.line_le left isLeft
    have onNew := (isNew.standsAt right isRight).1
    have follows : left.line < right.line := by omega
    exact ⟨.inl follows, .inl follows⟩
  · intro fragment isIn
    rw [adds] at isIn
    rcases List.mem_append.mp isIn with isEarlier | isLater
    · obtain ⟨positive, line, isLine, stands⟩ := covers.standAt fragment isEarlier
      refine ⟨positive, line, ?_, stands⟩
      rw [List.getElem?_append_left (List.getElem?_eq_some_iff.mp isLine).1, isLine]
    · obtain ⟨onNew, stands⟩ := isNew.standsAt fragment isLater
      refine ⟨by omega, physical, ?_, stands⟩
      rw [onNew, Nat.add_sub_cancel, List.getElem?_concat_length]
  · intro index line isLine
    rw [adds]
    by_cases isEarlier : index < cleaned.length
    · rw [List.getElem?_append_left isEarlier] at isLine
      refine (covers.covered index line isLine).imp ?_
      rintro byte ⟨fragment, isIn, inside⟩
      exact ⟨fragment, List.mem_append_left _ isIn, inside⟩
    · have bound := (List.getElem?_eq_some_iff.mp isLine).1
      rw [List.length_append, List.length_singleton] at bound
      obtain rfl : index = cleaned.length := by omega
      rw [List.getElem?_concat_length] at isLine
      obtain rfl := Option.some.inj isLine
      refine isNew.covered.imp ?_
      rintro byte ⟨fragment, isIn, inside⟩
      exact ⟨fragment, List.mem_append_right _ isIn, inside⟩

theorem Covers.run
    {s : Scan}
    {cleaned : List (List Char)}
    (covers : s.Covers cleaned)
    {rest : List (List Char)}
    (commentless : ∀ line ∈ rest, blankComments false line = (line, false)) :
    (s.run (cleaned.length + 1) rest).Covers (cleaned ++ rest) := by
  induction rest generalizing s cleaned with
  | nil =>
    rw [List.append_nil]
    exact covers
  | cons physical following inductionHypothesis =>
    obtain ⟨here, later⟩ := List.forall_mem_cons.mp commentless
    have more := inductionHypothesis (covers.step here) later
    rw [List.length_append, List.append_assoc] at more
    exact more

end Scan

/-- Scanning loses no source: in a text with blanks for its comments, the fragments of the logical
lines are in order and do not overlap, each is the bytes of its physical line from its offset on, and
every character of a line that is in no fragment is a filler. -/
theorem scanLines_covers
    {text : List Char}
    {lines : List Line}
    (scanned : scanLines text = .ok lines) :
    let fragments := lines.flatMap Line.fragments
    let cleaned := physicalLines (withoutComments text)
    (fragments.Pairwise fun left right => left.pos.Before right.pos ∧ left.Before right) ∧
    (∀ fragment ∈ fragments, 0 < fragment.line ∧ ∃ line, cleaned[fragment.line - 1]? = some line ∧
      StandsAt fragment.text fragment.offset line) ∧
    ∀ index line, cleaned[index]? = some line → ∀ before c after, line = before ++ c :: after →
      (∃ fragment ∈ fragments, fragment.line = index + 1 ∧ fragment.offset ≤ width before ∧
        width before < fragment.offset + width fragment.text) ∨
      isBlank c = true ∨ c = ';' ∨ c = '{' ∨ c = '}' := by
  intro fragments cleaned
  have commentless : ∀ line ∈ cleaned, blankComments false line = (line, false) := by
    rw [show cleaned = (blankLines false (text.splitOn '\n')).map (dropSuffix '\r') by
      rw [← splitOn_withoutComments]; rfl]
    exact blankLines_again false _
  have covers : (Scan.initial.run 1 cleaned).Covers cleaned := Scan.initial_covers.run commentless
  have sameLines : fragments = (Scan.initial.run 1 cleaned).fragments := by
    rw [← scanLines_withoutComments] at scanned
    rw [Scan.fragments, ← Scan.lines_of_finish scanned]
  rw [sameLines]
  refine ⟨covers.inOrder, covers.standAt, fun index line isLine before c after split => ?_⟩
  have covered := covers.covered index line isLine before c after split
  rw [Nat.zero_add] at covered
  exact covered

/-- A rule with two statements on one line, the second with a comment in it. -/
theorem scanLines_covers_packed_rule :
    let text := "p \x7b a b; c /*é*/ d \x7d".toList
    ∃ lines, scanLines text = .ok lines ∧
      ((lines.flatMap Line.fragments).Pairwise fun left right =>
        left.pos.Before right.pos ∧ left.Before right) ∧
      ∃ fragment ∈ lines.flatMap Line.fragments, fragment.line = 1 ∧ fragment.offset ≤ 18 ∧
        18 < fragment.offset + width fragment.text := by
  intro text
  have scanned : scanLines text = .ok _ := rfl
  obtain ⟨inOrder, _, covered⟩ := scanLines_covers scanned
  have isLine : (physicalLines (withoutComments text))[0]? =
      some "p \x7b a b; c        d \x7d".toList := by decide
  have inFragment := covered 0 _ isLine "p \x7b a b; c        ".toList 'd' " \x7d".toList (by decide)
  exact ⟨_, scanned, inOrder, inFragment.resolve_right (by decide)⟩

end StyleSense
