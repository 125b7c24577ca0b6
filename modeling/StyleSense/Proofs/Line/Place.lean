import StyleSense.Proofs.Line.Scan

/-!
Contract: the words of a logical line stand in the text where the line says.

A fragment knows its physical line and its byte offset there. On the way from the physical line,
comments are blanked out, blanks, braces and semicolons are cut off, and a line is split into
statements; none of this moves a word.

Owns:
- `Fragment.IsIn`: every word of a fragment stands in its physical line at its offset;
- `Scan.All`, a property of all logical lines found so far, and what one line adds to it
  (`Scan.step_all`);
- `scanLines_isIn`, that the words of a whole text stand where its lines say.

Does not own: the tokens of a fragment (`StyleSense.Proofs.Token.Stretch`).
-/

namespace StyleSense

open Text

/-- Every word of the fragment stands in its physical line at its byte offset. -/
def Fragment.IsIn (lines : List (List Char)) (fragment : Fragment) : Prop :=
  ∃ physical, lines[fragment.line - 1]? = some physical ∧
    ∀ {word offset}, Solid word → StandsAt word offset fragment.text →
      StandsAt word (fragment.offset + offset) physical

/-- All fragments of a logical line have a property. -/
def Line.Holds (P : Fragment → Prop) (line : Line) : Prop :=
  ∀ fragment ∈ line.fragments, P fragment

namespace Scan

/-- All logical lines found so far have a property, also one that is still open. -/
structure All (Q : Line → Prop) (s : Scan) : Prop where
  found : ∀ line ∈ s.found, Q line
  pending : ∀ opened ∈ s.pending, Q opened.line

/-- Whatever starts in the physical line `cleaned` has a property. -/
def Starts (Q : Line → Prop) (number : Nat) (cleaned : List Char) : Prop :=
  ∀ {offset text}, StandsAt text offset cleaned → ∀ indent, Q ⟨indent, ⟨number, offset, text⟩, []⟩

/-- Whatever is continued by the physical line `cleaned` keeps a property. -/
def Continues (Q : Line → Prop) (number : Nat) (cleaned : List Char) : Prop :=
  ∀ {offset text}, StandsAt text offset cleaned → ∀ {line : Line}, Q line →
    Q { line with tail := line.tail ++ [⟨number, offset, text⟩] }

variable {Q : Line → Prop} {s : Scan} {number indent : Nat} {cleaned trimmed : List Char}

theorem continueLine_all
    (continues : Continues Q number cleaned)
    (stands : StandsAt trimmed indent cleaned)
    {opened : OpenLine}
    (openedHolds : Q opened.line)
    (all : s.All Q) :
    (s.continueLine opened number indent trimmed).All Q := by
  have longerHolds : Q (opened.extended number indent trimmed).line := by
    rcases opened.extended_cases number indent trimmed with ⟨_, same⟩ | ⟨_, same⟩
    · rwa [same]
    · have textStands : StandsAt (dropSemicolon trimmed) (indent + 0) cleaned :=
        (StandsAt.of_start (dropSemicolon_starts trimmed)).trans stands
      rw [same]
      exact continues textStands openedHolds
  rcases s.continueLine_cases opened number indent trimmed with ⟨_, same⟩ | ⟨_, same⟩
  · rw [same]
    refine ⟨all.found, fun opened isOpened => ?_⟩
    cases isOpened
    exact longerHolds
  · rw [same]
    exact ⟨List.forall_mem_cons.mpr ⟨longerHolds, all.found⟩, nofun⟩

/-- The statements of a line stand where the line does. -/
theorem split_all
    (starts : Starts Q number cleaned)
    {offset : Nat}
    {text : List Char}
    (stands : StandsAt text offset cleaned)
    (indent : Nat) :
    ∀ line ∈ (⟨indent, ⟨number, offset, text⟩, []⟩ : Line).split, Q line := by
  intro line isStatement
  obtain ⟨piece, isPiece, rfl⟩ := List.mem_map.mp isStatement
  exact starts ((splitStatements_standsAt text piece isPiece).trans stands) _

theorem startLine_all
    (starts : Starts Q number cleaned)
    (stands : StandsAt trimmed indent cleaned)
    (all : s.All Q) :
    (s.startLine number indent trimmed).All Q := by
  have unbracedStands := (StandsAt.of_suffix
    ((trimStart_suffix _).trans (List.dropWhile_suffix (· == '\x7d') (l := trimmed)))).trans stands
  have textStands := (StandsAt.of_start (statementText_starts trimmed)).trans unbracedStands
  have whole : Q (opening number indent trimmed).line := starts textStands indent
  rcases s.startLine_cases number indent trimmed with ⟨_, same⟩ | ⟨_, _, same⟩ | ⟨_, _, same⟩
  · rwa [same]
  · rw [same]
    refine ⟨all.found, fun opened isOpened => ?_⟩
    cases isOpened
    exact whole
  · rw [same]
    refine ⟨List.forall_mem_append.mpr ⟨fun line isNew => ?_, all.found⟩, all.pending⟩
    rcases mem_statementsOf (List.mem_reverse.mp isNew) with rfl | isStatement
    · exact whole
    · exact split_all starts textStands indent line isStatement

/-- What one line adds: a logical line that starts in it, or a fragment of an open one. -/
theorem step_all
    {physical : List Char}
    (starts : s.pending = none → Starts Q number (blankComments s.inComment physical).1)
    (continues : Continues Q number (blankComments s.inComment physical).1)
    (all : s.All Q) :
    (s.step number physical).All Q := by
  have contentStands := StandsAt.of_start (trimEnd_starts (blankComments s.inComment physical).1)
  have stands := (StandsAt.of_suffix (trimStart_suffix _)).trans contentStands
  rw [Nat.zero_add] at stands
  unfold step
  simp only
  split
  · rename_i opened pending
    exact continueLine_all continues stands (all.pending opened pending) ⟨all.found, all.pending⟩
  · rename_i notPending
    exact startLine_all (starts notPending) stands ⟨all.found, all.pending⟩

/-- What a run adds: fragments that stand in the lines of the text. -/
theorem run_isIn
    {lines rest before : List (List Char)}
    (split : lines = before ++ rest)
    (all : s.All (Line.Holds (Fragment.IsIn lines))) :
    (s.run (before.length + 1) rest).All (Line.Holds (Fragment.IsIn lines)) := by
  induction rest generalizing s before with
  | nil => exact all
  | cons physical following inductionHypothesis =>
    have isLine : lines[before.length]? = some physical := by
      rw [split]
      simp
    have onLine : ∀ {offset text}, StandsAt text offset (blankComments s.inComment physical).1 →
        Fragment.IsIn lines ⟨before.length + 1, offset, text⟩ := by
      intro offset text stands
      refine ⟨physical, isLine, fun solid isWord => ?_⟩
      exact (blankComments_blanked s.inComment physical).standsAt solid (isWord.trans stands)
    have next : (s.step (before.length + 1) physical).All (Line.Holds (Fragment.IsIn lines)) := by
      refine step_all (fun _ offset text stands indent fragment isFragment => ?_)
        (fun {offset text} stands {line} holds fragment isFragment => ?_) all
      · rw [List.mem_singleton.mp isFragment]
        exact onLine stands
      · rw [Line.fragments, ← List.cons_append] at isFragment
        rcases List.mem_append.mp isFragment with isEarlier | isNew
        · exact holds fragment isEarlier
        · rw [List.mem_singleton.mp isNew]
          exact onLine stands
    have later : lines = (before ++ [physical]) ++ following := by simp [split]
    have more := inductionHypothesis later next
    rw [List.length_append] at more
    exact more

/-- The logical lines of a text are those found and the one that is open at its end. -/
theorem All.finish
    {s : Scan}
    (all : s.All Q)
    {lines : List Line}
    (finished : s.finish = .ok lines) :
    ∀ line ∈ lines, Q line := by
  unfold Scan.finish at finished
  intro line isLine
  split at finished
  · cases finished
    exact all.found line (List.mem_reverse.mp isLine)
  · rename_i opened pending
    split at finished
    · cases finished
    · cases finished
      rcases List.mem_cons.mp (List.mem_reverse.mp isLine) with rfl | isFound
      · exact all.pending opened pending
      · exact all.found line isFound

theorem initial_all (Q : Line → Prop) : initial.All Q :=
  ⟨(fun _ isFound => nomatch isFound), (fun _ isOpened => nomatch isOpened)⟩

end Scan

/-- Every word of a logical line stands in the text where the line says. -/
theorem scanLines_isIn
    {text : List Char}
    {lines : List Line}
    (scanned : scanLines text = .ok lines) :
    ∀ line ∈ lines, line.Holds (Fragment.IsIn (physicalLines text)) :=
  (Scan.run_isIn (List.nil_append (physicalLines text)).symm (Scan.initial_all _)).finish scanned

end StyleSense
