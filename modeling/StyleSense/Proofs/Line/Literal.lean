import StyleSense.Proofs.Line.Place
import StyleSense.Proofs.Line.Quote

/-!
Contract: what stands in a sealed literal matters to no line but its own.

Owns:
- `LeadsToCode`, a line that comes to a quote sign outside quotes and comments;
- `Scan.startLine_literal`, the statements of a line with a sealed literal;
- `Scan.step_exchange`: a line with another sealed literal adds the same statements but for the
  literal itself and for columns.

Does not own: the tokens of a literal (`StyleSense.Proofs.Token.Literal`).
-/

namespace StyleSense

open Text

/-- A logical line of one fragment with a literal in it. -/
def literalLine (indent number offset : Nat) (before : List Char) (quote : Char)
    (body after : List Char) : Line :=
  ⟨indent, ⟨number, offset, before ++ quote :: (body ++ quote :: after)⟩, []⟩

theorem literalLine_goesOn
    (indent number offset : Nat)
    (before : List Char)
    (quote : Char)
    (body after : List Char)
    (depth : Int)
    (countBraces : Bool) :
    (⟨literalLine indent number offset before quote body after, depth, countBraces⟩ :
        OpenLine).goesOn = (0 < depth || (quote :: after).getLast? == some ',') := by
  have last : (before ++ quote :: (body ++ quote :: after)).getLast? = (quote :: after).getLast? := by
    simp [List.getLast?_append, List.getLast?_cons]
  simp only [OpenLine.goesOn, literalLine, List.getLast?_nil, Option.getD_none, last]

/-- Logical lines that differ in the column of their start only. -/
structure Line.SameText (left right : Line) : Prop where
  indent : left.indent = right.indent
  line : left.head.line = right.head.line
  text : left.head.text = right.head.text
  tail : left.tail = right.tail

theorem openQuote_of_unquoted
    {cs : List Char}
    (unquoted : ∀ c ∈ cs, ¬IsQuote c) :
    openQuote none cs = none := by
  induction cs with
  | nil => rfl
  | cons c rest inductionHypothesis =>
    have notQuote := unquoted c (List.mem_cons_self ..)
    have next : openQuote none (c :: rest) = openQuote (nextQuote none c) rest := rfl
    rw [next, nextQuote, if_neg notQuote]
    exact inductionHypothesis fun d isIn => unquoted d (List.mem_cons_of_mem _ isIn)

theorem openQuote_of_suffix
    {cs rest : List Char}
    {gap : List Char}
    (split : cs = gap ++ rest)
    (unquoted : ∀ c ∈ gap, ¬IsQuote c)
    (closed : openQuote none cs = none) :
    openQuote none rest = none := by
  rw [split, openQuote_append, openQuote_of_unquoted unquoted] at closed
  exact closed

/-! ## Comments before a literal -/

/-- What surrounds the character after a text. -/
def surroundingAfter : Surrounding → (previous : Option Char) → List Char → Surrounding
  | surrounding, _, [] => surrounding
  | .comment, _, '*' :: '/' :: cs => surroundingAfter .code (some '/') cs
  | .comment, _, c :: cs => surroundingAfter .comment (some c) cs
  | .quoted quote, _, c :: cs =>
    surroundingAfter (if c = quote then .code else .quoted quote) (some c) cs
  | .code, _, '/' :: '*' :: cs => surroundingAfter .comment (some '*') cs
  | .code, previous, c :: cs =>
    if c == '/' && cs.head? == some '/' && previous != some ':' then .comment
    else surroundingAfter (if c == '"' || c == '\'' then .quoted c else .code) (some c) cs

/-- The text after `before` is read as code. -/
def LeadsToCode (inComment : Bool) (before : List Char) : Prop :=
  surroundingAfter (if inComment then .comment else .code) none before = .code

instance (inComment : Bool) (before : List Char) : Decidable (LeadsToCode inComment before) :=
  inferInstanceAs (Decidable (surroundingAfter _ none before = .code))

theorem head?_append_ne
    {quote c : Char}
    (cs : List Char)
    (other : quote ≠ c)
    (notFirst : cs.head? ≠ some c)
    (after : List Char) :
    (cs ++ quote :: after).head? ≠ some c := by
  cases cs with
  | nil => simpa using other
  | cons first rest => simpa using notFirst

/-- The quote that a surrounding is. -/
def Surrounding.quote? : Surrounding → Option Char
  | .quoted quote => some quote
  | _ => none

section Comments

variable {quote : Char} (isQuote : IsQuote quote)

include isQuote

/-- Comments before a quote sign and after it are blanked out on their own. -/
theorem blankFrom_append
    {surrounding : Surrounding}
    {previous : Option Char}
    {before : List Char}
    (code : surroundingAfter surrounding previous before = .code)
    (after : List Char) :
    blankFrom surrounding previous (before ++ quote :: after) =
      ((blankFrom surrounding previous before).1 ++ (blankFrom .code none (quote :: after)).1,
        (blankFrom .code none (quote :: after)).2) := by
  have notSlash : quote ≠ '/' := by rcases isQuote with rfl | rfl <;> decide
  have notStar : quote ≠ '*' := by rcases isQuote with rfl | rfl <;> decide
  fun_induction surroundingAfter surrounding previous before with
  | case1 surrounding previous =>
    subst code
    rw [List.nil_append, blankFrom_code_cons, blankFrom_code_cons]
    simp [notSlash, blankFrom]
  | case2 previous rest inductionHypothesis =>
    rw [List.cons_append, List.cons_append, blankFrom, blankFrom]
    simp only [inductionHypothesis code, List.cons_append]
  | case3 previous c rest notClosing inductionHypothesis =>
    have goesOn : ¬(c = '*' ∧ rest.head? = some '/') := by
      rintro ⟨rfl, slash⟩
      obtain ⟨following, rfl⟩ := List.head?_eq_some_iff.mp slash
      exact notClosing following rfl rfl
    have goesOn' : ¬(c = '*' ∧ (rest ++ quote :: after).head? = some '/') := fun closes =>
      head?_append_ne rest notSlash (fun slash => goesOn ⟨closes.1, slash⟩) after closes.2
    rw [List.cons_append, blankFrom_comment_cons, blankFrom_comment_cons, if_neg goesOn,
      if_neg goesOn']
    simp only [inductionHypothesis code, List.append_assoc]
  | case4 previous sign c rest inductionHypothesis =>
    rw [List.cons_append, blankFrom_quoted_cons, blankFrom_quoted_cons]
    simp only [inductionHypothesis code, List.cons_append]
  | case5 previous rest inductionHypothesis =>
    rw [List.cons_append, List.cons_append, blankFrom, blankFrom]
    simp only [inductionHypothesis code, List.cons_append]
  | case6 => cases code
  | case7 previous c rest notOpening notComment inductionHypothesis =>
    have notStart : ¬(c = '/' ∧ rest.head? = some '*') := by
      rintro ⟨rfl, star⟩
      obtain ⟨following, rfl⟩ := List.head?_eq_some_iff.mp star
      exact notOpening following rfl rfl
    have notStart' : ¬(c = '/' ∧ (rest ++ quote :: after).head? = some '*') := fun opens =>
      head?_append_ne rest notStar (fun star => notStart ⟨opens.1, star⟩) after opens.2
    have notLine : ¬(c = '/' ∧ rest.head? = some '/' ∧ previous ≠ some ':') := by
      simpa [and_assoc] using notComment
    have notLine' : ¬(c = '/' ∧ (rest ++ quote :: after).head? = some '/' ∧ previous ≠ some ':') :=
      fun opens => head?_append_ne rest notSlash
        (fun slash => notLine ⟨opens.1, slash, opens.2.2⟩) after opens.2.1
    have inside : (if IsQuote c then Surrounding.quoted c else .code) =
        if c == '"' || c == '\'' then .quoted c else .code := by simp
    rw [List.cons_append, blankFrom_code_cons, blankFrom_code_cons, if_neg notStart, if_neg notStart',
      if_neg notLine, if_neg notLine', inside]
    simp only [inductionHypothesis code, List.cons_append]

end Comments

theorem openQuote_blanks_append
    (size : Nat)
    (cs : List Char) :
    openQuote none (blanks size ++ cs) = openQuote none cs := by
  have unquoted : ∀ c ∈ blanks size, ¬IsQuote c := by
    intro c isIn
    rw [List.eq_of_mem_replicate isIn]
    decide
  rw [openQuote_append, openQuote_of_unquoted unquoted]

/-- Blanking out comments keeps the quotes of a text. -/
theorem openQuote_blankFrom
    (surrounding : Surrounding)
    (previous : Option Char)
    (before : List Char) :
    openQuote surrounding.quote? (blankFrom surrounding previous before).1 =
      (surroundingAfter surrounding previous before).quote? := by
  fun_induction surroundingAfter surrounding previous before with
  | case1 surrounding previous =>
    rw [blankFrom]
    rfl
  | case2 previous rest inductionHypothesis =>
    rw [blankFrom]
    exact (openQuote_blanks_append 2 _).trans inductionHypothesis
  | case3 previous c rest notClosing inductionHypothesis =>
    rw [blankFrom]
    · exact (openQuote_blanks_append _ _).trans inductionHypothesis
    · exact notClosing
  | case4 previous sign c rest inductionHypothesis =>
    rw [blankFrom_quoted_cons]
    rw [← inductionHypothesis]
    by_cases closes : c = sign
    · simp [openQuote, nextQuote, closes, Surrounding.quote?]
    · simp [openQuote, nextQuote, closes, Surrounding.quote?]
  | case5 previous rest inductionHypothesis =>
    rw [blankFrom]
    exact (openQuote_blanks_append 2 _).trans inductionHypothesis
  | case6 previous c rest notOpening isComment =>
    rw [blankFrom, if_pos isComment]
    · have blank := openQuote_blanks_append (width (c :: rest)) []
      rw [List.append_nil] at blank
      exact blank
    · exact notOpening
  | case7 previous c rest notOpening notComment inductionHypothesis =>
    rw [blankFrom, if_neg notComment]
    · rw [← inductionHypothesis]
      by_cases opens : IsQuote c
      · simp [openQuote, nextQuote, opens, Surrounding.quote?]
      · simp [openQuote, nextQuote, opens, Surrounding.quote?]
    · exact notOpening

namespace LeadsToCode

variable {inComment : Bool} {before : List Char} (code : LeadsToCode inComment before)

include code

theorem openQuote_eq : openQuote none (blankComments inComment before).1 = none := by
  have quotes := openQuote_blankFrom (if inComment then .comment else .code) none before
  rw [code] at quotes
  cases inComment <;> exact quotes

/-- The line without its comments. -/
theorem blankComments_eq
    {quote : Char}
    (isQuote : IsQuote quote)
    {body : List Char}
    (isSealed : Sealed quote body)
    (after : List Char) :
    blankComments inComment (before ++ quoted quote body ++ after) =
      ((blankComments inComment before).1 ++
        quote :: (body ++ quote :: (blankFrom .code (some quote) after).1),
        (blankFrom .code (some quote) after).2) := by
  rw [List.append_assoc, quoted_append, blankComments, blankFrom_append isQuote code,
    isSealed.comments]
  rfl

end LeadsToCode

namespace Scan

variable {quote : Char} {body : List Char}

/-- The end of a line after a literal is cut off the same way as a whole line. -/
theorem dropSemicolon_append
    (isQuote : IsQuote quote)
    (before after : List Char) :
    dropSemicolon (before ++ quote :: after) = before ++ quote :: dropSemicolon after := by
  have solid : isBlank quote = false := by rcases isQuote with rfl | rfl <;> decide
  have other : quote ≠ ';' := by rcases isQuote with rfl | rfl <;> decide
  rw [dropSemicolon, dropSuffix_append_cons other, trimEnd_append_cons solid, dropSemicolon]

theorem dropBrace_append
    (isQuote : IsQuote quote)
    (before after : List Char) :
    trimEnd (dropSuffix '\x7b' (before ++ quote :: after)) =
      before ++ quote :: trimEnd (dropSuffix '\x7b' after) := by
  have solid : isBlank quote = false := by rcases isQuote with rfl | rfl <;> decide
  have other : quote ≠ '\x7b' := by rcases isQuote with rfl | rfl <;> decide
  rw [dropSuffix_append_cons other, trimEnd_append_cons solid]

/-- What stands before the literal in the statements of a line. -/
def frontOf (before : List Char) : List Char :=
  trimStart (before.dropWhile (· == '\x7d'))

/-- What stands after the literal in the statements of a line. -/
def endOf (isValue : Bool) (after : List Char) : List Char :=
  if isValue then dropSemicolon after else trimEnd (dropSuffix '\x7b' (dropSemicolon after))

/-- The brackets that a line with a sealed literal leaves open. -/
def depthAround (isValue : Bool) (front rest : List Char) : Int :=
  bracketDepth.go isValue none front + bracketDepth.go isValue none rest

theorem frontOf_suffix (before : List Char) : frontOf before <:+ before :=
  (trimStart_suffix _).trans (List.dropWhile_suffix _)

theorem frontOf_closed
    {before : List Char}
    (closed : openQuote none before = none) :
    openQuote none (frontOf before) = none := by
  have braces : ∀ c ∈ before.takeWhile (· == '\x7d'), ¬IsQuote c := by
    intro c isIn isQuote
    have isBrace := List.mem_takeWhile_imp isIn
    rcases isQuote with rfl | rfl <;> simp at isBrace
  have gap : ∀ c ∈ (before.dropWhile (· == '\x7d')).takeWhile isBlank, ¬IsQuote c := by
    intro c isIn isQuote
    have blank := List.mem_takeWhile_imp isIn
    rcases isQuote with rfl | rfl <;> exact absurd blank (by decide)
  have unbraced := openQuote_of_suffix List.takeWhile_append_dropWhile.symm braces closed
  exact openQuote_of_suffix (takeWhile_append_trimStart _).symm gap unbraced

/-- The statements that a line with a sealed literal starts. -/
theorem startLine_literal
    (isQuote : IsQuote quote)
    (isSealed : Sealed quote body)
    {before : List Char}
    (closed : openQuote none before = none)
    (after : List Char)
    (s : Scan)
    (number indent : Nat) :
    let front := frontOf before
    let isValue := isValueLine front
    let rest := endOf isValue after
    let line := literalLine indent number (indent + (width before - width front)) front quote body rest
    let isRaw := s.rawIndent.any (· < indent)
    s.startLine number indent (before ++ quote :: (body ++ quote :: after)) =
      if 0 < depthAround isValue front rest || (quote :: rest).getLast? == some ',' then
        { s with pending := some ⟨line, depthAround isValue front rest, isValue⟩ }
      else
        { s with
          found := (if isValue || isRaw then [line] else line.split).reverse ++ s.found
          rawIndent := if isRaw then s.rawIndent
            else if "@css".toList.isPrefixOf front then some indent else none } := by
  intro front isValue rest line isRaw
  have solid : isBlank quote = false := by rcases isQuote with rfl | rfl <;> decide
  have notBrace : ∀ c ∈ (quote :: (body ++ quote :: after)).head?, (c == '\x7d') = false := by
    intro c isFirst
    cases isFirst
    rcases isQuote with rfl | rfl <;> decide
  have notCss : ∀ c ∈ (quote :: (body ++ quote :: rest)).head?, c ∉ "@css".toList := by
    intro c isFirst
    cases isFirst
    rcases isQuote with rfl | rfl <;> decide
  have unbraced : trimStart ((before ++ quote :: (body ++ quote :: after)).dropWhile (· == '\x7d')) =
      front ++ quote :: (body ++ quote :: after) := by
    rw [dropWhile_append_of_stop notBrace, trimStart_append_cons solid]
    rfl
  have offset : width (before ++ quote :: (body ++ quote :: after)) -
      width (front ++ quote :: (body ++ quote :: after)) = width before - width front := by
    rw [width_append, width_append]
    omega
  have statement : dropSemicolon (front ++ quote :: (body ++ quote :: after)) =
      front ++ quote :: (body ++ quote :: dropSemicolon after) := by
    have inner := dropSemicolon_append isQuote (front ++ quote :: body) after
    simpa using inner
  have value : isValueLine (front ++ quote :: (body ++ quote :: dropSemicolon after)) = isValue :=
    isValueLine_append_stop (.inl isQuote) front _
  have text : (if isValue then front ++ quote :: (body ++ quote :: dropSemicolon after)
      else trimEnd (dropSuffix '\x7b' (front ++ quote :: (body ++ quote :: dropSemicolon after)))) =
        front ++ quote :: (body ++ quote :: rest) := by
    have inner := dropBrace_append isQuote (front ++ quote :: body) (dropSemicolon after)
    simp only [List.append_assoc, List.cons_append] at inner
    simp only [inner, rest, endOf]
    split <;> rfl
  have depth : bracketDepth isValue (front ++ quote :: (body ++ quote :: rest)) =
      depthAround isValue front rest := by
    rw [bracketDepth, bracketDepth_append, frontOf_closed closed, isSealed.brackets]
    rfl
  have isCss : "@css".toList.isPrefixOf (front ++ quote :: (body ++ quote :: rest)) =
      "@css".toList.isPrefixOf front := by
    rw [Bool.eq_iff_iff, List.isPrefixOf_iff_prefix, List.isPrefixOf_iff_prefix]
    exact prefix_append_of_stop notCss
  have goesOn : (⟨line, depthAround isValue front rest, isValue⟩ : OpenLine).goesOn =
      (0 < depthAround isValue front rest || (quote :: rest).getLast? == some ',') :=
    literalLine_goesOn ..
  have nonempty : (front ++ quote :: (body ++ quote :: rest)).isEmpty = false := by simp
  unfold startLine
  simp only [unbraced, offset, statement, value, text, nonempty, depth, isCss, Bool.false_eq_true,
    if_false]
  rw [← goesOn]
  rfl

/-- A line with a sealed literal starts statements. -/
theorem step_literal
    (isQuote : IsQuote quote)
    (isSealed : Sealed quote body)
    {s : Scan}
    (complete : s.pending = none)
    {before : List Char}
    (code : LeadsToCode s.inComment before)
    (after : List Char)
    (number : Nat) :
    let cleaned := (blankComments s.inComment before).1
    let following := blankFrom .code (some quote) after
    s.step number (before ++ quoted quote body ++ after) =
      { s with inComment := following.2 }.startLine number (width (cleaned.takeWhile isBlank))
        (trimStart cleaned ++ quote :: (body ++ quote :: trimEnd following.1)) := by
  intro cleaned following
  let line := cleaned ++ quote :: (body ++ quote :: following.1)
  obtain ⟨tail, blankTail, whole⟩ := exists_trim_append line
  have read : blankComments s.inComment (before ++ quoted quote body ++ after) =
      (line.takeWhile isBlank ++ trim line ++ tail, following.2) := by
    rw [← whole]
    exact code.blankComments_eq isQuote isSealed after
  have blankGap : AllBlank (line.takeWhile isBlank) := fun c isIn => List.mem_takeWhile_imp isIn
  have trimmed : trim line = trimStart cleaned ++ quote :: (body ++ quote :: trimEnd following.1) :=
    trim_append_quoted isQuote cleaned body following.1
  have nonempty : trim line ≠ [] := by
    rw [trimmed]
    simp
  have gap : line.takeWhile isBlank = cleaned.takeWhile isBlank :=
    takeWhile_isBlank_append_quoted isQuote cleaned _
  rw [step_eq read blankGap blankTail (trim_trim line) nonempty, complete, gap, trimmed]

end Scan

end StyleSense
