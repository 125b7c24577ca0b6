import StyleSense.Proofs.Expression.Step

/-!
Contract: readers of several terms read them one after the other.

Owns:
- `unary_suffix`, `operand_suffix` and `term_suffix`: a reader leaves an end of its tokens over;
- `TermRun`, terms that are read one after the other from some tokens, and the tokens after them;
- for a branch of a `? :`, for the value of an entry and for the arguments of a call: the terms that
  are read are a run up to the stop (`..._run`), and a run up to a stop is read (`..._of_run`);
- `object_run`, one step of the reader of entries.

Does not own: what a single term is (`StyleSense.Proofs.Expression.Derivation`).
-/

namespace StyleSense.Expression

variable {last : SourcePos} {tokens mid rest : List Token} {node : Node} {nodes : List Node}
  {least : Nat}

/-! ## The tokens that are left over -/

theorem Yields.suffix
    {good : SourcePos → Prop}
    {α : Type}
    {meaning : List Token → α → Prop}
    {bound : Nat}
    {result : Except ParseError (Read α bound)}
    {value : α}
    (yields : Yields good meaning tokens result)
    (read : Gives result value rest) :
    rest <:+ tokens := by
  obtain ⟨shorter, rfl⟩ := read
  obtain ⟨taken, split, _⟩ := yields
  exact ⟨taken, split.symm⟩

/-- Nothing has to be known of tokens that can stand at any place. -/
theorem known_of_trivial
    (last : SourcePos)
    (tokens : List Token) :
    Known (fun _ => True) False last tokens :=
  ⟨fun _ _ => trivial, False.elim⟩

theorem unary_suffix (read : Gives (unary last tokens) node rest) : rest <:+ tokens :=
  (unary_yields trivial (termsYield trivial _) (Nat.le_refl _) (known_of_trivial last tokens)).suffix
    read

theorem operand_suffix (read : Gives (operand last least tokens) node rest) : rest <:+ tokens :=
  (operand_yields trivial (termsYield trivial _) least (Nat.le_refl _)
    (known_of_trivial last tokens)).suffix read

theorem term_suffix (read : Gives (term last tokens) node rest) : rest <:+ tokens :=
  (termsYield trivial _ (Nat.lt_succ_self _) (known_of_trivial last tokens)).suffix read

/-! ## Terms one after the other -/

/-- No term starts at a boundary or at a colon. -/
theorem branchEnds_of_term
    (read : Gives (term last tokens) node rest)
    (untilColon : Bool) :
    branchEnds untilColon tokens = false := by
  obtain ⟨shorter, read⟩ := read
  cases tokens with
  | nil => simp [term, operand, unary, primary] at read
  | cons token following =>
    obtain ⟨kind, pos, spaced⟩ := token
    have notEnd : kind ≠ .comma ∧ (∀ bracket, kind ≠ .closing bracket) ∧ kind ≠ .op .colon := by
      refine ⟨?_, ?_, ?_⟩
      · rintro rfl
        simp [term, operand, unary, primary, Token.isOp, Token.isName] at read
      · rintro bracket rfl
        simp [term, operand, unary, primary, Token.isOp, Token.isName] at read
      · rintro rfl
        simp [term, operand, unary, primary, Token.isOp, Token.isName] at read
    have notBoundary : atBoundary (⟨kind, pos, spaced⟩ :: following) = false := by
      unfold atBoundary
      dsimp only
      split
      · exact absurd rfl notEnd.1
      · exact absurd rfl (notEnd.2.1 _)
      · rfl
    simp [branchEnds, notBoundary, nextIs, Token.isOp, notEnd.2.2]

theorem atBoundary_of_term (read : Gives (term last tokens) node rest) :
    atBoundary tokens = false := by
  simpa [branchEnds] using branchEnds_of_term read false

/-- The terms are read one after the other; the tokens after them are left. -/
inductive TermRun (last : SourcePos) : List Token → List Node → List Token → Prop
  | nil (tokens : List Token) : TermRun last tokens [] tokens
  | cons {tokens mid rest : List Token} {node : Node} {nodes : List Node}
      (first : Gives (term last tokens) node mid)
      (others : TermRun last mid nodes rest) :
      TermRun last tokens (node :: nodes) rest

theorem TermRun.suffix (run : TermRun last tokens nodes rest) : rest <:+ tokens := by
  induction run with
  | nil => exact List.suffix_refl _
  | cons first others inductionHypothesis => exact inductionHypothesis.trans (term_suffix first)

/-- At a boundary a run is over. -/
theorem TermRun.of_atBoundary
    (run : TermRun last tokens nodes rest)
    (ends : atBoundary tokens = true) :
    nodes = [] ∧ rest = tokens := by
  cases run with
  | nil => exact ⟨rfl, rfl⟩
  | cons first others =>
    rw [atBoundary_of_term first] at ends
    cases ends

/-! ## Branches -/

theorem branchTerms_run
    {tokens rest : List Token}
    {nodes : List Node}
    {untilColon : Bool}
    (read : Gives (branchTerms last untilColon tokens) nodes rest) :
    TermRun last tokens nodes rest ∧ branchEnds untilColon rest = true := by
  obtain ⟨shorter, read⟩ := read
  rw [branchTerms] at read
  split at read
  · rename_i ends
    cases read
    exact ⟨.nil _, ends⟩
  · split at read
    · cases read
    · rename_i node mid shorterMid first
      split at read
      · cases read
      · rename_i others after shorterAfter later
        cases read
        obtain ⟨run, ends⟩ := branchTerms_run ⟨shorterAfter, later⟩
        exact ⟨.cons ⟨shorterMid, first⟩ run, ends⟩
termination_by tokens.length

theorem branchTerms_of_run
    {untilColon : Bool}
    (run : TermRun last tokens nodes rest)
    (ends : branchEnds untilColon rest = true) :
    Gives (branchTerms last untilColon tokens) nodes rest := by
  induction run with
  | nil =>
    rw [branchTerms, if_pos ends]
    exact ⟨_, rfl⟩
  | cons first others inductionHypothesis =>
    have notEnd := branchEnds_of_term first untilColon
    obtain ⟨shorter, first⟩ := first
    obtain ⟨shorterAfter, later⟩ := inductionHypothesis ends
    rw [branchTerms, if_neg (by simp [notEnd]), first]
    simp only [later]
    exact ⟨_, rfl⟩

theorem branch_run
    {untilColon : Bool}
    {value : Expression}
    (read : Gives (branch last untilColon tokens) value rest) :
    TermRun last tokens value.terms rest ∧ value.terms ≠ [] ∧ branchEnds untilColon rest = true := by
  obtain ⟨shorter, read⟩ := read
  rw [branch] at read
  split at read
  · cases read
  · split at read
    · cases read
    · rename_i node mid shorterMid first
      split at read
      · cases read
      · rename_i others after shorterAfter later
        cases read
        obtain ⟨run, ends⟩ := branchTerms_run ⟨shorterAfter, later⟩
        exact ⟨.cons ⟨shorterMid, first⟩ run, List.cons_ne_nil _ _, ends⟩

theorem branch_of_run
    {untilColon : Bool}
    (run : TermRun last tokens nodes rest)
    (nonempty : nodes ≠ [])
    (ends : branchEnds untilColon rest = true) :
    ∃ pos, Gives (branch last untilColon tokens) ⟨nodes, pos⟩ rest := by
  cases run with
  | nil => exact absurd rfl nonempty
  | cons first others =>
    have notEnd := branchEnds_of_term first untilColon
    obtain ⟨shorter, first⟩ := first
    obtain ⟨shorterAfter, later⟩ := branchTerms_of_run others ends
    rw [branch, if_neg (by simp [notEnd]), first]
    simp only [later]
    exact ⟨_, _, rfl⟩

/-! ## Values of entries -/

theorem entryTerms_run
    {tokens rest : List Token}
    {nodes : List Node}
    {previous : Option Nat}
    (read : Gives (entryTerms last previous tokens) nodes rest) :
    TermRun last tokens nodes rest := by
  obtain ⟨shorter, read⟩ := read
  rw [entryTerms] at read
  split at read
  · cases read
    exact .nil _
  · split at read
    · cases read
    · rename_i node mid shorterMid first
      split at read
      · cases read
      · rename_i others after shorterAfter later
        cases read
        exact .cons ⟨shorterMid, first⟩ (entryTerms_run ⟨shorterAfter, later⟩)
termination_by tokens.length

/-- Where some tokens before others stand on one line, the last of them does. -/
theorem lineBefore_eq
    {front rest : List Token}
    (nonempty : front ≠ [])
    {line : Nat}
    (onLine : ∀ token ∈ front, token.pos.line = line) :
    lineBefore (front ++ rest) rest = line := by
  have taken : (front ++ rest).take ((front ++ rest).length - rest.length) = front := by
    rw [List.length_append, Nat.add_sub_cancel, List.take_left]
  rw [lineBefore, taken, List.getLast?_eq_some_getLast nonempty]
  exact onLine _ (List.getLast_mem nonempty)

theorem entryTerms_of_run
    {front : List Token}
    (run : TermRun last (front ++ rest) nodes rest)
    (ends : atBoundary rest = true)
    {line : Nat}
    (onLine : ∀ token ∈ front, token.pos.line = line)
    {previous : Option Nat}
    (same : ∀ before ∈ previous, before = line) :
    Gives (entryTerms last previous (front ++ rest)) nodes rest := by
  generalize whole : front ++ rest = tokens at run
  induction run generalizing front previous with
  | nil =>
    rw [entryTerms, if_pos (by simp [ends])]
    exact ⟨_, rfl⟩
  | @cons tokens mid rest node nodes first others inductionHypothesis =>
    subst whole
    have notEnd := atBoundary_of_term first
    obtain ⟨back, isBack⟩ := others.suffix
    obtain ⟨taken, isTaken⟩ := term_suffix first
    obtain ⟨shorter, read⟩ := first
    have split : front = taken ++ back := by
      rw [← isBack, ← List.append_assoc] at isTaken
      exact (List.append_cancel_right isTaken).symm
    have takenNonempty : taken ≠ [] := by
      rintro rfl
      rw [List.nil_append] at isTaken
      rw [isTaken] at shorter
      exact absurd shorter (Nat.lt_irrefl _)
    have onTaken : ∀ token ∈ taken, token.pos.line = line := fun token isIn =>
      onLine token (split ▸ List.mem_append_left _ isIn)
    have lineHere : (placeOf .unknown (front ++ rest)).line = line := by
      obtain ⟨token, others, rfl⟩ := List.exists_cons_of_ne_nil takenNonempty
      rw [← isTaken]
      exact onTaken token (List.mem_cons_self ..)
    have notNext : ¬(atBoundary (front ++ rest) || previous.any (· != line)) = true := by
      rw [notEnd, Bool.false_or, Option.any_eq_true]
      rintro ⟨before, isBefore, different⟩
      simp [same before isBefore] at different
    have lineThere : lineBefore (front ++ rest) mid = line := by
      rw [← isTaken]
      exact lineBefore_eq takenNonempty onTaken
    have onBack : ∀ token ∈ back, token.pos.line = line := fun token isIn =>
      onLine token (split ▸ List.mem_append_right _ isIn)
    have later : Gives (entryTerms last (some line) mid) nodes rest :=
      inductionHypothesis ends onBack (by simp) isBack
    obtain ⟨shorterAfter, later⟩ := later
    rw [entryTerms]
    simp only [lineHere, if_neg notNext, read, lineThere]
    simp only [later]
    exact ⟨_, rfl⟩

/-! ## Entries -/

/-- What the reader of entries does with its first token: it ends, passes over a comma, or reads a key
with the terms after its colon. -/
theorem object_run
    {opened : SourcePos}
    {before entries : List (String × Node)}
    (read : Gives (object last opened before tokens) entries rest) :
    ∃ token following, tokens = token :: following ∧
      (token.kind = .closing .curly ∧ entries = before ∧ rest = following ∨
        token.kind = .comma ∧ Gives (object last opened before following) entries rest ∨
        ∃ key colon others nodes unread, (token.kind = .name key ∨ token.kind = .string key) ∧
          following = colon :: others ∧ colon.kind = .op .colon ∧ TermRun last others nodes unread ∧
          Gives (object last opened (Node.setEntry key (.expression ⟨nodes, token.pos⟩) before) unread)
            entries rest) := by
  obtain ⟨shorter, read⟩ := read
  cases tokens with
  | nil =>
    rw [object] at read
    cases read
  | cons token following =>
    refine ⟨token, following, rfl, ?_⟩
    rw [object] at read
    split at read
    · rename_i isClosing
      cases read
      exact .inl ⟨eq_of_beq isClosing, rfl, rfl⟩
    · split at read
      · rename_i isComma
        split at read
        · cases read
        · rename_i members after shorterAfter later
          cases read
          exact .inr (.inl ⟨eq_of_beq isComma, shorterAfter, later⟩)
      · split at read
        · cases read
        · rename_i key isKey
          cases following with
          | nil => cases read
          | cons colon others =>
            dsimp only at read
            split at read
            · rename_i isColon
              split at read
              · cases read
              · rename_i nodes unread shorterUnread values
                split at read
                · cases read
                · rename_i members after shorterAfter later
                  cases read
                  have keyed : token.kind = .name key ∨ token.kind = .string key := by
                    split at isKey
                    · rename_i isName
                      cases isKey
                      exact .inl isName
                    · rename_i isString
                      cases isKey
                      exact .inr isString
                    · cases isKey
                  exact .inr (.inr ⟨key, colon, others, nodes, unread, keyed, rfl, eq_of_beq isColon,
                    entryTerms_run ⟨shorterUnread, values⟩, shorterAfter, later⟩)
            · cases read

/-! ## Arguments -/

/-- Terms that are added to the argument being read. -/
inductive Collects : Option Expression → List Node → Option Expression → Prop
  | nil (current : Option Expression) : Collects current [] current
  | cons {current result : Option Expression} {node : Node} {nodes : List Node} (pos : SourcePos)
      (later : Collects (some (extendArgument current node pos)) nodes result) :
      Collects current (node :: nodes) result

theorem Collects.of_some
    {current : Expression}
    {result : Option Expression}
    (collects : Collects (some current) nodes result) :
    result = some ⟨current.terms ++ nodes, current.pos⟩ := by
  induction nodes generalizing current with
  | nil =>
    cases collects
    obtain ⟨terms, pos⟩ := current
    simp
  | cons node nodes inductionHypothesis =>
    cases collects with
    | cons pos later =>
      rw [inductionHypothesis later]
      simp [extendArgument]

/-- An argument has the terms that were read for it. -/
theorem Collects.of_none
    {result : Option Expression}
    (collects : Collects none nodes result) :
    (result.getD ⟨[], .unknown⟩).terms = nodes ∧ (result = none ↔ nodes = []) := by
  cases collects with
  | nil => exact ⟨rfl, by simp⟩
  | cons pos later =>
    rw [later.of_some]
    simp [extendArgument]

section Arguments

variable {opened : SourcePos} {current : Option Expression} {args : List Node}

/-- The terms up to a comma or to the closing parenthesis are one argument. -/
theorem arguments_run
    {tokens rest : List Token}
    {current : Option Expression}
    {args : List Node}
    (read : Gives (arguments last opened current tokens) args rest) :
    ∃ nodes result stop following, TermRun last tokens nodes (stop :: following) ∧
      Collects current nodes result ∧
        (stop.kind = .closing .round ∧ args = result.toList.map .expression ∧ rest = following ∨
          stop.kind = .comma ∧ ∃ others, Gives (arguments last opened none following) others rest ∧
            args = .expression (result.getD ⟨[], .unknown⟩) :: others) := by
  obtain ⟨shorter, read⟩ := read
  cases tokens with
  | nil =>
    rw [arguments] at read
    cases read
  | cons token following =>
    rw [arguments] at read
    split at read
    · rename_i isClosing
      cases read
      exact ⟨[], current, token, _, .nil _, .nil _, .inl ⟨eq_of_beq isClosing, rfl, rfl⟩⟩
    · split at read
      · rename_i isComma
        split at read
        · cases read
        · rename_i others after shorterAfter later
          cases read
          exact ⟨[], current, token, _, .nil _, .nil _,
            .inr ⟨eq_of_beq isComma, others, ⟨shorterAfter, later⟩, rfl⟩⟩
      · split at read
        · cases read
        · rename_i node mid shorterMid first
          split at read
          · cases read
          · rename_i others after shorterAfter later
            cases read
            obtain ⟨nodes, result, stop, following, run, collects, ends⟩ :=
              arguments_run ⟨shorterAfter, later⟩
            exact ⟨node :: nodes, result, stop, following, .cons ⟨shorterMid, first⟩ run,
              .cons _ collects, ends⟩
termination_by tokens.length

theorem arguments_of_run
    (run : TermRun last tokens nodes mid)
    (current : Option Expression) :
    ∃ result, Collects current nodes result ∧ ∀ {args rest},
      Gives (arguments last opened result mid) args rest →
        Gives (arguments last opened current tokens) args rest := by
  induction run generalizing current with
  | nil => exact ⟨current, .nil _, id⟩
  | @cons tokens mid rest node nodes first others inductionHypothesis =>
    have notEnd := atBoundary_of_term first
    cases tokens with
    | nil => cases notEnd
    | cons token following =>
      have notStop : token.kind ≠ .closing .round ∧ token.kind ≠ .comma := by
        constructor <;> intro isStop <;> simp [atBoundary, isStop] at notEnd
      obtain ⟨result, collects, reads⟩ :=
        inductionHypothesis (some (extendArgument current node token.pos))
      exact ⟨result, .cons token.pos collects, fun read =>
        arguments_term notStop.1 notStop.2 first (reads read)⟩

end Arguments

end StyleSense.Expression
