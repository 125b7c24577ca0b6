import StyleSense.Proofs.Line.Place
import StyleSense.Proofs.Line.Quote
import StyleSense.Proofs.Token.Place

/-!
Contract: the fragments of a text are in order and do not overlap.

Owns:
- `Splitter.pieces_ordered`: the statements of a line follow one another;
- `Scan.step_lines`, all that one physical line can add: new logical lines in order, or one fragment
  of the line that is open;
- `scanLines_ordered`: the fragments of a whole text are in order;
- `scanLines_shows`: a logical line starts with a character that is no blank; also one that a fault
  in its brackets leaves open (`scanLines_fault`).

Does not own: the tokens of the fragments (`StyleSense.Proofs.Token.Place`).
-/

namespace StyleSense

open Text

/-! ## Statements of a line -/

/-- A fragment that starts with something else than a blank. -/
theorem Fragment.shows_pos
    {fragment : Fragment}
    (nonempty : fragment.text ≠ [])
    (solid : ∀ c ∈ fragment.text.head?, isBlank c = false) :
    fragment.Shows fragment.pos := by
  obtain ⟨line, offset, text⟩ := fragment
  cases text with
  | nil => exact absurd rfl nonempty
  | cons c rest => exact ⟨[], c, rest, rfl, solid c rfl, rfl⟩

theorem Piece.solid_of_mem
    {depth start : Nat}
    {stretch : List Char}
    {piece : Piece}
    (isPiece : piece ∈ (Piece.ofStretch? depth start stretch).toList) :
    piece.text ≠ [] ∧ ∀ c ∈ piece.text.head?, isBlank c = false := by
  simp only [ofStretch?] at isPiece
  split at isPiece
  · cases isPiece
  · rename_i notEmpty
    rw [Option.toList_some, List.mem_singleton] at isPiece
    subst isPiece
    exact ⟨by simpa using notEmpty, (trim_eq_self_iff.mp (trim_trim stretch)).1⟩

namespace Splitter

theorem pieces_solid
    (s : Splitter)
    (index : Nat)
    (cs : List Char) :
    ∀ piece ∈ s.pieces index cs, piece.text ≠ [] ∧ ∀ c ∈ piece.text.head?, isBlank c = false := by
  induction cs generalizing s index with
  | nil => exact fun piece isPiece => Piece.solid_of_mem isPiece
  | cons c rest inductionHypothesis =>
    intro piece isPiece
    simp only [pieces] at isPiece
    split at isPiece
    · rcases List.mem_append.mp isPiece with isHere | isLater
      · exact Piece.solid_of_mem isHere
      · exact inductionHypothesis _ _ piece isLater
    · exact inductionHypothesis _ _ piece isPiece

/-- The statements of a line follow one another. -/
theorem pieces_ordered
    {s : Splitter}
    {index : Nat}
    (stands : s.StandsAt index)
    (cs : List Char) :
    (s.pieces index cs).Pairwise fun left right => left.offset + width left.text ≤ right.offset := by
  induction cs generalizing s index with
  | nil =>
    rw [pieces]
    cases s.piece? with
    | none => exact .nil
    | some piece => exact List.pairwise_singleton ..
  | cons c rest inductionHypothesis =>
    have nextStands := stands.step c rest
    have later := inductionHypothesis nextStands
    obtain ⟨t, sameStart, sameStretch, keeps | cuts⟩ := step_cases s index c rest
    · simp only [pieces, keeps] at later ⊢
      exact later
    · rw [cuts] at nextStands later
      simp only [pieces, cuts, if_true]
      refine List.pairwise_append.mpr ⟨?_, later, ?_⟩
      · cases s.piece? with
        | none => exact .nil
        | some piece => exact List.pairwise_singleton ..
      · intro piece isHere other isLater
        have ends := (piece?_bounds isHere).2
        have starts := pieces_bounded nextStands rest other isLater
        rw [stands] at ends
        simp only [cut] at starts
        omega

end Splitter

/-! ## Physical lines -/

namespace Scan

/-- The logical lines of which something is known, the open one last. -/
def lines (s : Scan) : List Line :=
  s.found.reverse ++ s.pending.toList.map OpenLine.line

/-- A logical line that is new: it has one fragment, which starts with something else than a blank. -/
structure IsNew (number : Nat) (line : Line) : Prop where
  tail : line.tail = []
  number : line.head.line = number
  shows : line.head.Shows line.pos

/-- A physical line adds a fragment to the open line unless it is blank. -/
theorem continueLine_lines
    {s : Scan}
    {opened : OpenLine}
    (pending : s.pending = some opened)
    (number indent : Nat)
    (trimmed : List Char) :
    (trimmed = [] ∧ (s.continueLine opened number indent trimmed).lines = s.lines) ∨
      (s.continueLine opened number indent trimmed).lines =
        s.found.reverse ++ [{ opened.line with
          tail := opened.line.tail ++ [⟨number, indent, dropSemicolon trimmed⟩] }] := by
  have longerLines : (s.continueLine opened number indent trimmed).lines =
      s.found.reverse ++ [(opened.extended number indent trimmed).line] := by
    rcases s.continueLine_cases opened number indent trimmed with ⟨_, same⟩ | ⟨_, same⟩
    · rw [same]
      rfl
    · rw [same]
      simp [lines]
  rcases opened.extended_cases number indent trimmed with ⟨nothing, same⟩ | ⟨_, same⟩
  · exact .inl ⟨nothing, by rw [longerLines, same, lines, pending]; rfl⟩
  · exact .inr (by rw [longerLines, same]; rfl)

theorem split_isNew (whole : Line) :
    ∀ line ∈ whole.split, IsNew whole.head.line line := by
  intro line isStatement
  obtain ⟨piece, isPiece, rfl⟩ := List.mem_map.mp isStatement
  obtain ⟨nonempty, solid⟩ := Splitter.pieces_solid _ _ _ piece isPiece
  exact ⟨rfl, rfl, Fragment.shows_pos nonempty solid⟩

theorem split_ordered (whole : Line) :
    whole.split.Pairwise fun left right => left.head.Before right.head := by
  rw [Line.split, List.pairwise_map]
  have ordered : (splitStatements whole.head.text).Pairwise _ := Splitter.pieces_ordered rfl _
  refine ordered.imp fun follows => .inr ⟨rfl, ?_⟩
  simp only
  omega

theorem startLine_lines
    {s : Scan}
    (pending : s.pending = none)
    (number indent : Nat)
    (trimmed : List Char) :
    ∃ new : List Line, (s.startLine number indent trimmed).lines = s.lines ++ new ∧
      (∀ line ∈ new, IsNew number line) ∧
      new.Pairwise fun left right => left.head.Before right.head := by
  have before : s.lines = s.found.reverse := by simp [lines, pending]
  have solid : ∀ c ∈ (statementText trimmed).head?, isBlank c = false := by
    obtain ⟨after, whole⟩ := statementText_starts trimmed
    intro c isFirst
    apply trimStart_head
    rw [← whole, List.head?_append, isFirst, Option.some_or]
  let opened := opening number indent trimmed
  have isNew (nonempty : statementText trimmed ≠ []) : IsNew number opened.line :=
    ⟨rfl, rfl, Fragment.shows_pos nonempty solid⟩
  rcases s.startLine_cases number indent trimmed with
    ⟨_, same⟩ | ⟨nonempty, _, same⟩ | ⟨nonempty, _, same⟩
  · rw [same]
    exact ⟨[], (List.append_nil _).symm, nofun, .nil⟩
  · rw [same]
    refine ⟨[opened.line], ?_, List.forall_mem_singleton.mpr (isNew nonempty),
      List.pairwise_singleton ..⟩
    rw [before]
    rfl
  · rw [same]
    refine ⟨s.statementsOf opened, by simp [lines, pending, opened], fun line isIn => ?_, ?_⟩
    · rcases mem_statementsOf isIn with rfl | isStatement
      · exact isNew nonempty
      · exact split_isNew opened.line line isStatement
    · unfold statementsOf
      split
      · exact List.pairwise_singleton ..
      · exact split_ordered opened.line

/-- All that a physical line can add: logical lines that are new, or a fragment of the open one. -/
theorem step_lines
    (s : Scan)
    (number : Nat)
    (physical : List Char) :
    (∃ new : List Line, (s.step number physical).lines = s.lines ++ new ∧
      (∀ line ∈ new, IsNew number line) ∧
      new.Pairwise fun left right => left.head.Before right.head) ∨
    ∃ opened fragment, s.pending = some opened ∧ fragment.line = number ∧
      (s.step number physical).lines =
        s.found.reverse ++ [{ opened.line with tail := opened.line.tail ++ [fragment] }] := by
  unfold step
  simp only
  generalize (blankComments s.inComment physical).2 = isOpen
  split
  · rename_i opened pending
    let moved : Scan := { s with inComment := isOpen }
    rcases continueLine_lines (s := moved) pending number _ _ with ⟨_, same⟩ | longer
    · exact .inl ⟨[], same.trans (List.append_nil _).symm, by simp, .nil⟩
    · exact .inr ⟨opened, _, pending, rfl, longer⟩
  · rename_i notPending
    let moved : Scan := { s with inComment := isOpen }
    exact .inl (startLine_lines (s := moved) notPending number _ _)

/-! ## Whole texts -/

/-- The fragments of the logical lines in order. -/
def fragments (s : Scan) : List Fragment :=
  s.lines.flatMap Line.fragments

/-- What holds between two physical lines, the next of which has the given number. -/
structure Ordered (s : Scan) (number : Nat) : Prop where
  ordered : s.fragments.Pairwise Fragment.Before
  numbers : ∀ fragment ∈ s.fragments, 0 < fragment.line ∧ fragment.line < number
  heads : ∀ line ∈ s.lines, line.head.Shows line.pos

/-- A physical line adds fragments of its own after all others. -/
theorem step_fragments
    (s : Scan)
    (number : Nat)
    (physical : List Char) :
    ∃ new, (s.step number physical).fragments = s.fragments ++ new ∧
      (∀ fragment ∈ new, fragment.line = number) ∧ new.Pairwise Fragment.Before := by
  rcases step_lines s number physical with
    ⟨new, adds, areNew, ordered⟩ | ⟨opened, fragment, pending, onLine, longer⟩
  · have heads : new.flatMap Line.fragments = new.map Line.head := by
      rw [List.map_eq_flatMap, List.flatMap_def, List.flatMap_def]
      refine congrArg List.flatten (List.map_congr_left fun line isIn => ?_)
      rw [Line.fragments, (areNew line isIn).tail]
    refine ⟨new.map Line.head, ?_, ?_, List.pairwise_map.mpr ordered⟩
    · rw [fragments, adds, List.flatMap_append, heads]
      rfl
    · intro fragment isIn
      obtain ⟨line, isLine, rfl⟩ := List.mem_map.mp isIn
      exact (areNew line isLine).number
  · refine ⟨[fragment], ?_, by simpa using onLine, List.pairwise_singleton ..⟩
    rw [fragments, longer, fragments, lines, pending]
    simp [Line.fragments]

theorem Ordered.step
    {s : Scan}
    {number : Nat}
    (ordered : s.Ordered number)
    (positive : 0 < number)
    (physical : List Char) :
    (s.step number physical).Ordered (number + 1) := by
  obtain ⟨new, adds, onLine, newOrdered⟩ := step_fragments s number physical
  refine ⟨?_, ?_, ?_⟩
  · rw [adds]
    refine List.pairwise_append.mpr ⟨ordered.ordered, newOrdered, ?_⟩
    intro fragment isEarlier other isNew
    exact .inl (by rw [onLine other isNew]; exact (ordered.numbers fragment isEarlier).2)
  · intro fragment isIn
    rw [adds] at isIn
    rcases List.mem_append.mp isIn with isEarlier | isNew
    · have := ordered.numbers fragment isEarlier
      omega
    · have := onLine fragment isNew
      omega
  · intro line isIn
    rcases step_lines s number physical with
      ⟨new, adds, areNew, _⟩ | ⟨opened, fragment, pending, _, longer⟩
    · rw [adds] at isIn
      rcases List.mem_append.mp isIn with isEarlier | isNew
      · exact ordered.heads line isEarlier
      · exact (areNew line isNew).shows
    · have isOpened : opened.line ∈ s.lines := by simp [lines, pending]
      rw [longer] at isIn
      rcases List.mem_append.mp isIn with isEarlier | isLast
      · exact ordered.heads line (List.mem_append_left _ isEarlier)
      · rw [List.mem_singleton.mp isLast]
        exact ordered.heads opened.line isOpened

theorem Ordered.run
    {s : Scan}
    {number : Nat}
    (ordered : s.Ordered number)
    (positive : 0 < number)
    (rest : List (List Char)) :
    (s.run number rest).Ordered (number + rest.length) := by
  induction rest generalizing s number with
  | nil => exact ordered
  | cons physical following inductionHypothesis =>
    have more := inductionHypothesis (ordered.step positive physical) (Nat.succ_pos _)
    rw [Nat.add_right_comm] at more
    exact more

theorem initial_ordered (number : Nat) : initial.Ordered number :=
  ⟨.nil, (fun _ isIn => nomatch isIn), (fun _ isIn => nomatch isIn)⟩

/-- The logical lines at the end are all those known. -/
theorem lines_of_finish
    {s : Scan}
    {found : List Line}
    (finished : s.finish = .ok found) :
    found = s.lines := by
  unfold finish at finished
  split at finished
  · rename_i notPending
    cases finished
    simp [lines, notPending]
  · rename_i opened pending
    split at finished
    · cases finished
    · cases finished
      simp [lines, pending]

end Scan

theorem scanLines_lines (text : List Char) :
    (Scan.initial.run 1 (physicalLines text)).Ordered ((physicalLines text).length + 1) := by
  have ordered := (Scan.initial_ordered 1).run (Nat.succ_pos 0) (physicalLines text)
  rw [Nat.add_comm] at ordered
  exact ordered

/-- The fragments of a text are in order and do not overlap. -/
theorem scanLines_ordered
    {text : List Char}
    {lines : List Line}
    (scanned : scanLines text = .ok lines) :
    (lines.flatMap Line.fragments).Pairwise Fragment.Before := by
  rw [Scan.lines_of_finish scanned]
  exact (scanLines_lines text).ordered

/-- A logical line starts with a character that is no blank. -/
theorem scanLines_shows
    {text : List Char}
    {lines : List Line}
    (scanned : scanLines text = .ok lines) :
    ∀ line ∈ lines, line.head.Shows line.pos := by
  rw [Scan.lines_of_finish scanned]
  exact (scanLines_lines text).heads

/-- A bracket that is left open is reported at the start of a line of the text. -/
theorem scanLines_fault
    {text : List Char}
    {error : ParseError}
    (failed : scanLines text = .error error) :
    ∃ fragment, Fragment.IsIn (physicalLines text) fragment ∧ fragment.Shows error.pos ∧
      0 < fragment.line := by
  have ordered := scanLines_lines text
  have areIn := Scan.run_isIn (List.nil_append (physicalLines text)).symm (Scan.initial_all _)
  rw [scanLines, Scan.finish] at failed
  split at failed
  · cases failed
  · rename_i opened pending
    split at failed
    · cases failed
      have isLine : opened.line ∈ (Scan.initial.run 1 (physicalLines text)).lines := by
        simp [Scan.lines, pending]
      have isFragment : opened.line.head ∈ opened.line.fragments := List.mem_cons_self ..
      refine ⟨opened.line.head, areIn.pending opened pending _ isFragment,
        ordered.heads opened.line isLine, ?_⟩
      exact (ordered.numbers _ (List.mem_flatMap.mpr ⟨opened.line, isLine, isFragment⟩)).1
    · cases failed

theorem scanLines_numbers
    {text : List Char}
    {lines : List Line}
    (scanned : scanLines text = .ok lines) :
    ∀ line ∈ lines, ∀ fragment ∈ line.fragments, 0 < fragment.line := by
  intro line isLine fragment isFragment
  rw [Scan.lines_of_finish scanned] at isLine
  exact ((scanLines_lines text).numbers fragment (List.mem_flatMap.mpr ⟨line, isLine, isFragment⟩)).1

end StyleSense
