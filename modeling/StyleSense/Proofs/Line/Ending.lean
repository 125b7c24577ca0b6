import StyleSense.Proofs.Line.Nesting
import StyleSense.Proofs.Line.Place

/-!
Contract: where a logical line goes on.

A physical line continues the one before it when a bracket is open there or a comma stands at its
end. So where every physical line closes its own brackets, only commas make a logical line go on.

Owns:
- `Line.IsClosed`, lines each of whose fragments closes its brackets, and `Line.BreaksAtCommas`,
  that such a line has a comma at the end of each fragment but the last;
- `scanLines_breaksAtCommas`: all logical lines of a text are so.

Does not own: the parts between the commas (`StyleSense.Proofs.Selector.Part`).
-/

namespace StyleSense

open Text

/-- Every fragment of the line closes the brackets and quotes that it opens. -/
def Line.IsClosed (line : Line) : Prop :=
  line.Holds fun fragment => Leaves fragment.text []

/-- If every fragment closes its brackets, each but the last ends in a comma. -/
def Line.BreaksAtCommas (line : Line) : Prop :=
  line.IsClosed → ∀ fragment ∈ line.fragments.dropLast, fragment.text.getLast? = some ','

/-- A line that is still open, and that goes on at a comma unless it has an open bracket. -/
structure OpenLine.BreaksAtCommas (opened : OpenLine) : Prop where
  line : opened.line.BreaksAtCommas
  depth : opened.line.IsClosed → opened.depth = 0
  goesOn : opened.goesOn = true

theorem Line.breaksAtCommas_single
    {line : Line}
    (single : line.tail = []) :
    line.BreaksAtCommas := by
  intro _ fragment isEarlier
  rw [fragments, single] at isEarlier
  cases isEarlier

theorem Line.fragments_extend
    (line : Line)
    (fragment : Fragment) :
    (line.extend fragment).fragments = line.fragments ++ [fragment] :=
  rfl

theorem Line.isClosed_extend
    {line : Line}
    {fragment : Fragment}
    (closed : (line.extend fragment).IsClosed) :
    line.IsClosed ∧ Leaves fragment.text [] := by
  rw [IsClosed, Holds, fragments_extend, List.forall_mem_append] at closed
  exact ⟨closed.1, closed.2 fragment (List.mem_singleton_self _)⟩

namespace OpenLine

/-- An open line without open brackets has a comma at its end. -/
theorem goesOn_cases
    {opened : OpenLine}
    (goesOn : opened.goesOn = true) :
    0 < opened.depth ∨ ∃ before last, opened.line.fragments = before ++ [last] ∧
      last.text.getLast? = some ',' := by
  simp only [OpenLine.goesOn, Bool.or_eq_true, decide_eq_true_eq, beq_iff_eq] at goesOn
  refine goesOn.imp_right fun isComma => ⟨opened.line.fragments.dropLast, _, ?_, isComma⟩
  have isLast : opened.line.fragments.getLast? =
      some (opened.line.tail.getLast?.getD opened.line.head) := List.getLast?_cons
  obtain ⟨before, whole⟩ := List.getLast?_eq_some_iff.mp isLast
  rw [whole, List.dropLast_concat]

/-- An open line that breaks at commas does so with one more fragment. -/
theorem BreaksAtCommas.extend
    {opened : OpenLine}
    (breaks : opened.BreaksAtCommas)
    (fragment : Fragment) :
    (opened.line.extend fragment).BreaksAtCommas := by
  intro closed earlier isEarlier
  have closedHere := (Line.isClosed_extend closed).1
  rw [Line.fragments_extend, List.dropLast_concat] at isEarlier
  rcases goesOn_cases breaks.goesOn with isOpen | ⟨before, last, whole, isComma⟩
  · rw [breaks.depth closedHere] at isOpen
    exact absurd isOpen (Int.lt_irrefl 0)
  · have others := breaks.line closedHere
    rw [whole] at isEarlier others
    rw [List.dropLast_concat] at others
    rcases List.mem_append.mp isEarlier with isBefore | isLast
    · exact others earlier isBefore
    · rw [List.mem_singleton.mp isLast]
      exact isComma

end OpenLine

namespace Scan

/-- All logical lines found so far break at commas, also one that is still open. -/
structure BreaksAtCommas (s : Scan) : Prop where
  found : ∀ line ∈ s.found, line.BreaksAtCommas
  pending : ∀ opened ∈ s.pending, opened.BreaksAtCommas

theorem initial_breaksAtCommas : initial.BreaksAtCommas :=
  ⟨(fun _ isFound => nomatch isFound), (fun _ isOpened => nomatch isOpened)⟩

theorem BreaksAtCommas.continueLine
    {s : Scan}
    (breaks : s.BreaksAtCommas)
    {opened : OpenLine}
    (openedBreaks : opened.BreaksAtCommas)
    (number indent : Nat)
    (trimmed : List Char) :
    (s.continueLine opened number indent trimmed).BreaksAtCommas := by
  have longerBreaks : (opened.extended number indent trimmed).line.BreaksAtCommas ∧
      ((opened.extended number indent trimmed).line.IsClosed →
        (opened.extended number indent trimmed).depth = 0) := by
    rcases opened.extended_cases number indent trimmed with ⟨_, same⟩ | ⟨_, same⟩
    · rw [same]
      exact ⟨openedBreaks.line, openedBreaks.depth⟩
    · rw [same]
      refine ⟨openedBreaks.extend _, fun closed => ?_⟩
      obtain ⟨closedHere, leaves⟩ := Line.isClosed_extend closed
      have added : bracketDepth opened.countBraces (dropSemicolon trimmed) = 0 :=
        leaves.bracketDepth_eq_zero _
      simp only [openedBreaks.depth closedHere, added, Int.add_zero]
  rcases s.continueLine_cases opened number indent trimmed with ⟨goesOn, same⟩ | ⟨_, same⟩
  · rw [same]
    refine ⟨breaks.found, fun other isOther => ?_⟩
    cases isOther
    exact ⟨longerBreaks.1, longerBreaks.2, goesOn⟩
  · rw [same]
    exact ⟨List.forall_mem_cons.mpr ⟨longerBreaks.1, breaks.found⟩, nofun⟩

theorem BreaksAtCommas.startLine
    {s : Scan}
    (breaks : s.BreaksAtCommas)
    (number indent : Nat)
    (trimmed : List Char) :
    (s.startLine number indent trimmed).BreaksAtCommas := by
  rcases s.startLine_cases number indent trimmed with ⟨_, same⟩ | ⟨_, goesOn, same⟩ | ⟨_, _, same⟩
  · rwa [same]
  · rw [same]
    refine ⟨breaks.found, fun opened isOpened => ?_⟩
    cases isOpened
    refine ⟨Line.breaksAtCommas_single rfl, fun closed => ?_, goesOn⟩
    exact (closed _ (List.mem_cons_self ..)).bracketDepth_eq_zero _
  · rw [same]
    refine ⟨List.forall_mem_append.mpr ⟨fun line isNew => ?_, breaks.found⟩, breaks.pending⟩
    exact Line.breaksAtCommas_single (tail_of_mem_statementsOf (List.mem_reverse.mp isNew))

theorem BreaksAtCommas.step
    {s : Scan}
    (breaks : s.BreaksAtCommas)
    (number : Nat)
    (physical : List Char) :
    (s.step number physical).BreaksAtCommas := by
  unfold Scan.step
  simp only
  have moved : ({ s with inComment := (blankComments s.inComment physical).2 } :
      Scan).BreaksAtCommas := ⟨breaks.found, breaks.pending⟩
  split
  · rename_i opened isOpened
    exact moved.continueLine (breaks.pending opened isOpened) number _ _
  · exact moved.startLine number _ _

theorem BreaksAtCommas.run
    {s : Scan}
    (breaks : s.BreaksAtCommas)
    (number : Nat)
    (lines : List (List Char)) :
    (s.run number lines).BreaksAtCommas := by
  induction lines generalizing s number with
  | nil => exact breaks
  | cons line rest inductionHypothesis =>
    exact inductionHypothesis (breaks.step number line) (number + 1)

end Scan

/-- A logical line whose fragments all close their brackets goes on at commas only. -/
theorem scanLines_breaksAtCommas
    {text : List Char}
    {lines : List Line}
    (scanned : scanLines text = .ok lines)
    {line : Line}
    (isLine : line ∈ lines) :
    line.BreaksAtCommas := by
  have breaks := Scan.initial_breaksAtCommas.run 1 (physicalLines text)
  have all : (Scan.initial.run 1 (physicalLines text)).All Line.BreaksAtCommas :=
    ⟨breaks.found, fun opened isOpened => (breaks.pending opened isOpened).line⟩
  exact all.finish scanned line isLine

end StyleSense
