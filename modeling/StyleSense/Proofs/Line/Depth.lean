import StyleSense.Proofs.Statement.Coverage

/-!
Contract: the depth of a statement is the number of rule bodies of the line that are open around it.

Braces are matched as they stand: a closing brace closes the last brace that is still open, whatever
that brace opens. Which braces open bodies is up to the splitter, and how many of them are open in
front of a statement can be read off the text.

Owns:
- `Splitter.after`, the state in which a part of a line leaves the splitter, and `step_braces`, all
  that one character does to the open braces;
- `StaysOpen`, what does not close the brace in front of it, and `openBodies`, which counts bodies;
- `Splitter.depth_after`: the bodies on the stack are those that are open;
- `Splitter.countedPieces`, the statements with the depth counted up and down instead of read off the
  stack, and `Splitter.countedPieces_eq`: it never has to go below zero;
- `splitStatements_exact`, all that is known of the statements of a line.

Does not own: what the statements leave out (`StyleSense.Proofs.Statement.Coverage`).
-/

namespace StyleSense

open Text

/-! ## One character -/

namespace Splitter

/-- A brace outside quotes opens or closes; nothing else changes which braces are open. -/
theorem step_braces
    (s : Splitter)
    (index : Nat)
    (c : Char)
    (following : List Char) :
    (s.step index c following).1.braces =
      if s.quote = none ∧ c = '\x7b' then s.opensBody following :: s.braces
      else if s.quote = none ∧ c = '\x7d' then s.braces.tail
      else s.braces := by
  unfold step
  cases quoted : s.quote with
  | some sign =>
    simp only
    split <;> simp [keep]
  | none =>
    by_cases isOpening : c = '\x7b'
    · subst isOpening
      cases s.opensBody following <;> simp [keep, cut]
    · by_cases isClosing : c = '\x7d'
      · subst isClosing
        cases stack : s.braces with
        | nil => simp [cut, stack]
        | cons flag outer => cases flag <;> simp [keep, cut]
      · simp only [isOpening, isClosing, and_false, if_false, beq_iff_eq]
        repeat' split
        all_goals rfl

/-- A character that is kept opens and closes no body. -/
theorem step_depth_of_kept
    {s : Splitter}
    {index : Nat}
    {c : Char}
    {following : List Char}
    (kept : (s.step index c following).2 = false) :
    (s.step index c following).1.depth = s.depth := by
  unfold step at kept ⊢
  split
  · split <;> rfl
  · repeat' split
    all_goals simp_all [depth, keep, cut]

/-! ## A part of a line -/

/-- The state after the part `read` of a line, in front of what is left of it. -/
def after (s : Splitter) (index : Nat) : (read left : List Char) → Splitter
  | [], _ => s
  | c :: cs, left => (s.step index c (cs ++ left)).1.after (index + c.utf8Size) cs left

theorem after_append
    (s : Splitter)
    (index : Nat)
    (first second left : List Char) :
    s.after index (first ++ second) left =
      (s.after index first (second ++ left)).after (index + width first) second left := by
  induction first generalizing s index with
  | nil => rfl
  | cons c rest inductionHypothesis =>
    rw [List.cons_append, after, after, inductionHypothesis, List.append_assoc, width_cons,
      Nat.add_assoc]

end Splitter

/-! ## Braces that are closed -/

/-- The braces that one character opens. -/
def braceChange (quote : Option Char) (c : Char) : Int :=
  if quote = none ∧ c = '\x7b' then 1 else if quote = none ∧ c = '\x7d' then -1 else 0

/-- Braces opened less braces closed, outside quotes. -/
def braceBalance (quote : Option Char) : List Char → Int
  | [] => 0
  | c :: cs => braceChange quote c + braceBalance (nextQuote quote c) cs

/-- A brace in front of the text is not closed in it: nowhere in it more braces are closed than
opened. -/
def StaysOpen (inside : List Char) : Prop :=
  ∀ part, part <+: inside → 0 ≤ braceBalance none part

/-- The closing braces of a text that close no brace of it. -/
def looseClosers (quote : Option Char) : List Char → Nat
  | [] => 0
  | c :: cs =>
    if quote = none ∧ c = '\x7b' then looseClosers (nextQuote quote c) cs - 1
    else if quote = none ∧ c = '\x7d' then looseClosers (nextQuote quote c) cs + 1
    else looseClosers (nextQuote quote c) cs

theorem looseClosers_le_iff
    (quote : Option Char)
    (cs : List Char)
    (n : Nat) :
    looseClosers quote cs ≤ n ↔ ∀ part, part <+: cs → 0 ≤ n + braceBalance quote part := by
  induction cs generalizing quote n with
  | nil => simp [looseClosers, List.prefix_nil, braceBalance]
  | cons c rest inductionHypothesis =>
    have longer : (∀ part, part <+: c :: rest → 0 ≤ n + braceBalance quote part) ↔
        ∀ part, part <+: rest →
          0 ≤ n + braceChange quote c + braceBalance (nextQuote quote c) part := by
      constructor
      · intro kept part isStart
        have here := kept (c :: part) (List.cons_prefix_cons.mpr ⟨rfl, isStart⟩)
        rw [braceBalance] at here
        omega
      · intro kept part isStart
        rcases List.prefix_cons_iff.mp isStart with rfl | ⟨part', rfl, isStart'⟩
        · simp [braceBalance]
        · have here := kept part' isStart'
          rw [braceBalance]
          omega
    rw [longer, looseClosers, braceChange]
    split
    · rw [Nat.sub_le_iff_le_add, inductionHypothesis]
      push_cast
      rfl
    · split
      · cases n with
        | zero =>
          refine iff_of_false (Nat.not_succ_le_zero _) fun kept => ?_
          have here := kept [] List.nil_prefix
          simp [braceBalance] at here
        | succ n =>
          rw [Nat.add_le_add_iff_right, inductionHypothesis]
          simp only [Int.natCast_succ, Int.add_neg_cancel_right]
      · simp only [inductionHypothesis, Int.add_zero]

theorem staysOpen_iff (inside : List Char) : StaysOpen inside ↔ looseClosers none inside = 0 := by
  rw [← Nat.le_zero, looseClosers_le_iff, StaysOpen]
  simp

instance : DecidablePred StaysOpen := fun inside => decidable_of_iff _ (staysOpen_iff inside).symm

/-! ## Open bodies -/

namespace Splitter

/-- A brace between `front` and `back` opens a body. -/
def OpensBody (front back : List Char) : Prop :=
  let s := initial.after 0 front ('\x7b' :: back)
  s.quote = none ∧ s.opensBody back = true

instance (front back : List Char) : Decidable (OpensBody front back) :=
  inferInstanceAs (Decidable (_ ∧ _))

/-- How many braces of `read` open a body that is still open in front of `left`. The text before
`read` is `front`. -/
def openBodies (front : List Char) : (read left : List Char) → Nat
  | [], _ => 0
  | c :: cs, left =>
    (if c = '\x7b' ∧ OpensBody front (cs ++ left) ∧ StaysOpen cs then 1 else 0) +
      openBodies (front ++ [c]) cs left

theorem after_concat
    (front : List Char)
    (c : Char)
    (left : List Char) :
    initial.after 0 (front ++ [c]) left =
      ((initial.after 0 front (c :: left)).step (width front) c left).1 := by
  rw [after_append, Nat.zero_add]
  rfl

/-- The bodies below the innermost `n` braces, before and after a step. -/
theorem count_drop_step
    (s : Splitter)
    (index : Nat)
    (c : Char)
    (following : List Char)
    (n : Nat) :
    ((s.step index c following).1.braces.drop n).count true =
      (if c = '\x7b' ∧ (s.quote = none ∧ s.opensBody following = true) ∧ n = 0 then 1 else 0) +
        (s.braces.drop (if s.quote = none ∧ c = '\x7b' then n - 1
          else if s.quote = none ∧ c = '\x7d' then n + 1 else n)).count true := by
  rw [step_braces]
  by_cases isOpening : s.quote = none ∧ c = '\x7b'
  · obtain ⟨unquoted, rfl⟩ := isOpening
    simp only [unquoted, and_self, true_and, if_true]
    cases n with
    | zero => cases s.opensBody following <;> simp [Nat.add_comm]
    | succ n => simp
  · have opensNone : ¬(c = '\x7b' ∧ (s.quote = none ∧ s.opensBody following = true) ∧ n = 0) :=
      fun opens => isOpening ⟨opens.2.1.1, opens.1⟩
    rw [if_neg isOpening, if_neg isOpening, if_neg opensNone, Nat.zero_add]
    split
    · rw [List.drop_tail]
    · rfl

/-- The bodies on the stack are those of the text read since, and those below that stay open. -/
theorem depth_after_append
    (front read left : List Char) :
    (initial.after 0 (front ++ read) left).depth =
      openBodies front read left +
        ((initial.after 0 front (read ++ left)).braces.drop
          (looseClosers (initial.after 0 front (read ++ left)).quote read)).count true := by
  induction read generalizing front with
  | nil => simp [openBodies, looseClosers, depth]
  | cons c rest inductionHypothesis =>
    have later := inductionHypothesis (front ++ [c])
    rw [List.append_assoc, List.singleton_append, after_concat, step_quote, count_drop_step] at later
    rw [later, List.cons_append, openBodies, looseClosers]
    generalize state : initial.after 0 front (c :: (rest ++ left)) = s
    have sameBrace : (c = '\x7b' ∧ OpensBody front (rest ++ left) ∧ StaysOpen rest) ↔
        c = '\x7b' ∧ (s.quote = none ∧ s.opensBody (rest ++ left) = true) ∧
          looseClosers (nextQuote s.quote c) rest = 0 := by
      refine and_congr_right ?_
      rintro rfl
      rw [OpensBody, state]
      refine and_congr_right fun opens => ?_
      rw [opens.1, staysOpen_iff]
      rfl
    rw [if_congr sameBrace rfl rfl]
    omega

/-- The bodies that are open at a place of a line. -/
theorem depth_after (before rest : List Char) :
    (initial.after 0 before rest).depth = openBodies [] before rest := by
  have onStack := depth_after_append [] before rest
  have noneBelow : (initial.after 0 [] (before ++ rest)).braces = [] := rfl
  rwa [noneBelow, List.drop_nil, List.count_nil, Nat.add_zero] at onStack

/-! ## Depths that are counted -/

/-- One less than zero. -/
structure Underflow

/-- The depth after the character `c`, counted up at a brace that opens a body and down at the brace
that closes one. -/
def countStep
    (s : Splitter)
    (depth : Nat)
    (c : Char)
    (following : List Char) : Except Underflow Nat :=
  if s.quote = none ∧ c = '\x7b' then
    .ok (if s.opensBody following then depth + 1 else depth)
  else if s.quote = none ∧ c = '\x7d' ∧ s.braces.head? = some true then
    if depth = 0 then .error ⟨⟩ else .ok (depth - 1)
  else .ok depth

/-- The depth after the part `read` of a line, counted. -/
def countedDepth (s : Splitter) (depth index : Nat) : (read left : List Char) → Except Underflow Nat
  | [], _ => .ok depth
  | c :: cs, left => do
    let following := cs ++ left
    let deeper ← s.countStep depth c following
    (s.step index c following).1.countedDepth deeper (index + c.utf8Size) cs left

/-- The pieces of what is left of a line from byte `index` on, with the depth counted. -/
def countedPieces (s : Splitter) (depth index : Nat) : List Char → Except Underflow (List Piece)
  | [] => .ok (Piece.ofStretch? depth s.start s.stretch.reverse).toList
  | c :: cs => do
    let (next, ended) := s.step index c cs
    let deeper ← s.countStep depth c cs
    let rest ← next.countedPieces deeper (index + c.utf8Size) cs
    .ok (if ended then (Piece.ofStretch? depth s.start s.stretch.reverse).toList ++ rest else rest)

/-- A body that is closed has been counted. -/
theorem countStep_eq
    (s : Splitter)
    (index : Nat)
    (c : Char)
    (following : List Char) :
    s.countStep s.depth c following = .ok (s.step index c following).1.depth := by
  rw [countStep, depth, depth, step_braces]
  split
  · cases s.opensBody following <;> simp
  · by_cases isClosing : s.quote = none ∧ c = '\x7d'
    · obtain ⟨unquoted, rfl⟩ := isClosing
      cases s.braces with
      | nil => simp
      | cons flag outer => cases flag <;> simp [unquoted]
    · rw [if_neg isClosing, if_neg fun closes => isClosing ⟨closes.1, closes.2.1⟩]

theorem countedDepth_eq
    (s : Splitter)
    (index : Nat)
    (read left : List Char) :
    s.countedDepth s.depth index read left = .ok (s.after index read left).depth := by
  induction read generalizing s index with
  | nil => rfl
  | cons c rest inductionHypothesis =>
    simp only [countedDepth, countStep_eq s index, bind, Except.bind, after]
    exact inductionHypothesis _ _

theorem countedPieces_eq
    (s : Splitter)
    (index : Nat)
    (cs : List Char) :
    s.countedPieces s.depth index cs = .ok (s.pieces index cs) := by
  induction cs generalizing s index with
  | nil => rfl
  | cons c rest inductionHypothesis =>
    simp only [countedPieces, countStep_eq s index, bind, Except.bind, inductionHypothesis, pieces]
    rfl

end Splitter

/-! ## Where a statement stands -/

/-- A statement of a line: a text without blanks around it, which is in the line at the offset, as
deep as bodies are open there. -/
structure Piece.IsStatementOf (line : List Char) (piece : Piece) : Prop where
  nonempty : piece.text ≠ []
  trimmed : trim piece.text = piece.text
  stands : ∃ before after, line = before ++ piece.text ++ after ∧ width before = piece.offset ∧
    piece.depth = Splitter.openBodies [] before (piece.text ++ after)

theorem Piece.exists_of_ofStretch?
    {depth start : Nat}
    {stretch : List Char}
    {piece : Piece}
    (isPiece : piece ∈ (Piece.ofStretch? depth start stretch).toList) :
    piece.text ≠ [] ∧ trim piece.text = piece.text ∧ piece.depth = depth ∧
      ∃ gap tail, stretch = gap ++ (piece.text ++ tail) ∧ piece.offset = start + width gap := by
  have nonempty := (Piece.solid_of_mem isPiece).1
  obtain ⟨tail, _, whole⟩ := exists_trim_append stretch
  rw [List.append_assoc] at whole
  simp only [ofStretch?] at isPiece
  split at isPiece
  · cases isPiece
  · rw [Option.toList_some, List.mem_singleton] at isPiece
    subst isPiece
    exact ⟨nonempty, trim_trim stretch, rfl, _, tail, whole, rfl⟩

namespace Splitter

/-- What is known of a state that has read `opened` and the present stretch, in front of `left`: the
stretch starts after `opened`, and no body is opened or closed in it. -/
structure Level (s : Splitter) (opened left : List Char) : Prop where
  starts : width opened = s.start
  reached : initial.after 0 (opened ++ s.stretch.reverse) left = s
  level : ∀ gap rest, s.stretch.reverse = gap ++ rest →
    (initial.after 0 (opened ++ gap) (rest ++ left)).depth = s.depth

namespace Level

variable {s : Splitter} {opened left : List Char} {c : Char}

theorem isStatement
    (level : s.Level opened left)
    {piece : Piece}
    (isPiece : piece ∈ s.piece?.toList) :
    piece.IsStatementOf (opened ++ s.stretch.reverse ++ left) := by
  obtain ⟨nonempty, trimmed, sameDepth, gap, tail, whole, offset⟩ := Piece.exists_of_ofStretch? isPiece
  refine ⟨nonempty, trimmed, opened ++ gap, tail ++ left, ?_, ?_, ?_⟩
  · rw [whole]
    simp only [List.append_assoc]
  · rw [offset, width_append, level.starts]
  · rw [sameDepth, ← depth_after, ← level.level gap _ whole, List.append_assoc]

/-- The state after one more character is reached by reading it. -/
theorem reached_step (level : s.Level opened (c :: left)) :
    initial.after 0 (opened ++ s.stretch.reverse ++ [c]) left =
      (s.step (width (opened ++ s.stretch.reverse)) c left).1 := by
  rw [after_concat, level.reached]

/-- A character that is kept makes the stretch longer, which stays as deep. -/
theorem keep
    (level : s.Level opened (c :: left))
    (kept : (s.step (width (opened ++ s.stretch.reverse)) c left).2 = false) :
    let next := (s.step (width (opened ++ s.stretch.reverse)) c left).1
    next.stretch = c :: s.stretch ∧ next.Level opened left := by
  intro next
  have reached := level.reached_step
  have sameDepth : next.depth = s.depth := step_depth_of_kept kept
  obtain ⟨t, sameStart, sameStretch, keeps | cuts⟩ :=
    step_cases s (width (opened ++ s.stretch.reverse)) c left
  · have longer : next.stretch = c :: s.stretch := by simp only [next, keeps, Splitter.keep, sameStretch]
    have start : next.start = s.start := by simp only [next, keeps, Splitter.keep, sameStart]
    refine ⟨longer, level.starts.trans start.symm, ?_, fun gap rest split => ?_⟩
    · rw [longer, List.reverse_cons, ← List.append_assoc]
      exact reached
    · rw [longer, List.reverse_cons] at split
      rcases List.eq_nil_or_concat' rest with rfl | ⟨inner, d, rfl⟩
      · rw [List.append_nil] at split
        rw [← split, ← List.append_assoc, List.nil_append, reached]
      · rw [← List.append_assoc] at split
        obtain ⟨inStretch, isLast⟩ := List.append_inj' split rfl
        obtain rfl := (List.cons.inj isLast).1
        rw [List.append_assoc, List.singleton_append, level.level gap inner inStretch, sameDepth]
  · rw [cuts] at kept
    cases kept

/-- A separator starts a stretch after it. -/
theorem cut
    (level : s.Level opened (c :: left))
    (ended : (s.step (width (opened ++ s.stretch.reverse)) c left).2 = true) :
    let next := (s.step (width (opened ++ s.stretch.reverse)) c left).1
    next.stretch = [] ∧ next.Level (opened ++ s.stretch.reverse ++ [c]) left := by
  intro next
  have reached := level.reached_step
  obtain ⟨t, sameStart, sameStretch, keeps | cuts⟩ :=
    step_cases s (width (opened ++ s.stretch.reverse)) c left
  · rw [keeps] at ended
    cases ended
  · have shorter : next.stretch = [] := by simp only [next, cuts, Splitter.cut]
    have start : next.start = width (opened ++ s.stretch.reverse) + c.utf8Size := by
      simp only [next, cuts, Splitter.cut]
    refine ⟨shorter, ?_, ?_, fun gap rest split => ?_⟩
    · rw [start, width_append _ [c]]
      rfl
    · rw [shorter, List.reverse_nil, List.append_nil, reached]
    · rw [shorter, List.reverse_nil] at split
      obtain ⟨rfl, rfl⟩ := List.append_eq_nil_iff.mp split.symm
      rw [List.append_nil, List.nil_append, reached]

/-- Every piece of what is left of a line is a statement of the line. -/
theorem pieces
    (level : s.Level opened left) :
    ∀ piece ∈ s.pieces (width (opened ++ s.stretch.reverse)) left,
      piece.IsStatementOf (opened ++ s.stretch.reverse ++ left) := by
  induction left generalizing s opened with
  | nil => exact fun piece isPiece => level.isStatement isPiece
  | cons c rest inductionHypothesis =>
    intro piece isPiece
    have index : width (opened ++ s.stretch.reverse) + c.utf8Size =
        width (opened ++ s.stretch.reverse ++ [c]) := by
      rw [width_append _ [c]]
      rfl
    rw [Splitter.pieces, index] at isPiece
    cases ends : (s.step (width (opened ++ s.stretch.reverse)) c rest).2 with
    | true =>
      obtain ⟨shorter, next⟩ := level.cut ends
      have later := inductionHypothesis next
      rw [shorter, List.reverse_nil, List.append_nil, List.append_assoc _ [c]] at later
      simp only [ends, if_true] at isPiece
      rcases List.mem_append.mp isPiece with isHere | isLater
      · exact level.isStatement isHere
      · exact later piece isLater
    | false =>
      obtain ⟨longer, next⟩ := level.keep ends
      have later := inductionHypothesis next
      rw [longer, List.reverse_cons, ← List.append_assoc, List.append_assoc _ [c]] at later
      simp only [ends, Bool.false_eq_true, if_false] at isPiece
      exact later piece isPiece

end Level

theorem initial_level (line : List Char) : initial.Level [] line := by
  refine ⟨rfl, rfl, fun gap rest split => ?_⟩
  obtain ⟨rfl, rfl⟩ := List.append_eq_nil_iff.mp split.symm
  rfl

end Splitter

/-! ## Lines -/

/-- The statements of a line are exact: counting their depth never goes below zero and agrees with the
open bodies on the stack everywhere in the line, they are in order and do not overlap, every character
of the line that is in none of them is a blank, a semicolon or a brace, and each of them is a text
without blanks around it that is in the line at its offset, as deep as bodies are open there. -/
theorem splitStatements_exact (line : List Char) :
    let pieces := splitStatements line
    Splitter.initial.countedPieces 0 0 line = .ok pieces ∧
    (∀ read left, line = read ++ left → Splitter.initial.countedDepth 0 0 read left =
      .ok ((Splitter.initial.after 0 read left).braces.count true)) ∧
    (pieces.Pairwise fun left right => left.offset + width left.text ≤ right.offset) ∧
    (∀ before c after, line = before ++ c :: after →
      (∃ piece ∈ pieces, piece.offset ≤ width before ∧
        width before < piece.offset + width piece.text) ∨
      isBlank c = true ∨ c = ';' ∨ c = '\x7b' ∨ c = '\x7d') ∧
    ∀ piece ∈ pieces, piece.IsStatementOf line := by
  refine ⟨Splitter.countedPieces_eq Splitter.initial 0 line, fun read left _ =>
    Splitter.countedDepth_eq Splitter.initial 0 read left, Splitter.pieces_ordered rfl line, ?_,
    (Splitter.initial_level line).pieces⟩
  intro before c after split
  have covered := splitStatements_covered line before c after split
  rw [Nat.zero_add] at covered
  exact covered

/-- A statement in two bodies, after an interpolation and a statement of the outer body, and the
closing brace after it. -/
theorem splitStatements_exact_nested :
    let line := "a \x7b b: #\x7bc\x7d; d \x7b é \x7d e \x7d".toList
    let before := "a \x7b b: #\x7bc\x7d; d \x7b ".toList
    let after := " \x7d e \x7d".toList
    (⟨2, 17, "é".toList⟩ : Piece).IsStatementOf line ∧
    Splitter.openBodies [] before ("é".toList ++ after) = 2 ∧
    Splitter.initial.countedDepth 0 0 before ("é".toList ++ after) = .ok 2 := by
  intro line before after
  obtain ⟨_, counted, _, _, exact⟩ := splitStatements_exact line
  have isPiece : (⟨2, 17, "é".toList⟩ : Piece) ∈ splitStatements line := by decide
  have onStack : (Splitter.initial.after 0 before ("é".toList ++ after)).braces.count true = 2 := by
    decide
  have counter := counted before ("é".toList ++ after) (by decide)
  rw [onStack] at counter
  exact ⟨exact _ isPiece, by decide, counter⟩

end StyleSense
