import StyleSense.Proofs.Token.Spelling

/-!
Contract: a token does not depend on what follows it, if that stops it.

Names, numbers and operators end before the first character that they cannot go on with; strings,
comments and `url()` end with a sign of their own. So a token that ends before a stop is the same
token whatever comes after, and it is the same at the end of the text.

Owns:
- `Stops`, a character that no name, number or operator goes on with, and `Stopping`, a text that
  starts with one or is empty;
- for each kind of token, that it does not depend on what follows it;
- `lexeme_append`, the same for all kinds, and `skipGap_append_stopping`, for the gap before one.

Does not own: the tokens of a whole text (`StyleSense.Proofs.Token.Cut`).
-/

namespace StyleSense.Token

open Text

/-! ## Tokens with an end of their own -/

theorem afterComment?_cons
    (c : Char)
    (cs : List Char) :
    afterComment? (c :: cs) =
      if c = '*' ∧ cs.head? = some '/' then some cs.tail else afterComment? cs := by
  by_cases closes : c = '*' ∧ cs.head? = some '/'
  · obtain ⟨rfl, slash⟩ := closes
    obtain ⟨rest, rfl⟩ := List.head?_eq_some_iff.mp slash
    rfl
  · rw [if_neg closes, afterComment?]
    rintro rest rfl rfl
    exact closes ⟨rfl, rfl⟩

/-- What follows a comment is not looked at. -/
theorem afterComment?_append
    {cs rest after : List Char}
    (closed : afterComment? (cs ++ after) = some (rest ++ after))
    (after' : List Char) :
    afterComment? (cs ++ after') = some (rest ++ after') := by
  induction cs with
  | nil =>
    have shorter := afterComment?_length_lt closed
    simp only [List.nil_append, List.length_append] at shorter
    omega
  | cons c following inductionHypothesis =>
    rw [List.cons_append, afterComment?_cons] at closed ⊢
    cases following with
    | nil =>
      -- The sign that closes the comment would be part of what follows it.
      have shorter : (rest ++ after).length < after.length := by
        rw [List.nil_append] at closed
        split at closed
        · rename_i closes
          obtain ⟨others, rfl⟩ := List.head?_eq_some_iff.mp closes.2
          rw [← Option.some.inj closed]
          simp
        · exact afterComment?_length_lt closed
      simp only [List.length_append] at shorter
      omega
    | cons d others =>
      rw [List.cons_append, List.head?_cons, List.tail_cons] at closed ⊢
      split
      · rename_i closes
        rw [if_pos closes] at closed
        rw [List.append_cancel_right (Option.some.inj closed)]
      · rename_i goesOn
        rw [if_neg goesOn] at closed
        exact inductionHypothesis closed

theorem stringBody?_cons
    (quote c : Char)
    (cs : List Char) :
    stringBody? quote (c :: cs) =
      if c = '\\' then
        match cs with
        | [] => none
        | d :: rest => (stringBody? quote rest).map fun parts => (d :: parts.1, parts.2)
      else if c = quote then some ([], cs)
      else (stringBody? quote cs).map fun parts => (c :: parts.1, parts.2) := by
  split
  · rename_i isEscape
    subst isEscape
    cases cs <;> rw [stringBody?]
  · rename_i notEscape
    rw [stringBody?]
    · exact fun isEscape _ => notEscape isEscape
    · exact fun _ _ isEscape _ => notEscape isEscape

theorem stringBody?_length_lt
    {quote : Char}
    {cs value rest : List Char}
    (closed : stringBody? quote cs = some (value, rest)) :
    rest.length < cs.length := by
  cases cs with
  | nil => cases closed
  | cons c following =>
    rw [stringBody?_cons] at closed
    split at closed
    · split at closed
      · cases closed
      · obtain ⟨parts, inner, equal⟩ := Option.map_eq_some_iff.mp closed
        have shorter := stringBody?_length_le inner
        cases equal
        simp only [List.length_cons]
        omega
    · split at closed
      · cases closed
        simp
      · obtain ⟨parts, inner, equal⟩ := Option.map_eq_some_iff.mp closed
        have shorter := stringBody?_length_le inner
        cases equal
        simp only [List.length_cons]
        omega

/-- What follows a literal is not looked at. -/
theorem stringBody?_append
    {quote : Char}
    {cs value rest after : List Char}
    (closed : stringBody? quote (cs ++ after) = some (value, rest ++ after))
    (after' : List Char) :
    stringBody? quote (cs ++ after') = some (value, rest ++ after') := by
  have whole := stringBody?_length_lt closed
  cases cs with
  | nil =>
    simp only [List.nil_append, List.length_append] at whole
    omega
  | cons c following =>
    rw [List.cons_append, stringBody?_cons] at closed ⊢
    split
    · rename_i isEscape
      rw [if_pos isEscape] at closed
      cases following with
      | nil =>
        -- The escaped character would be part of what follows the literal.
        rw [List.nil_append] at closed
        split at closed
        · cases closed
        · obtain ⟨parts, inner, equal⟩ := Option.map_eq_some_iff.mp closed
          have shorter := stringBody?_length_lt inner
          have remaining := congrArg (fun pair => pair.2.length) equal
          simp only [List.length_append, List.length_cons] at remaining
          omega
      | cons d others =>
        obtain ⟨⟨inner, left⟩, read, equal⟩ := Option.map_eq_some_iff.mp closed
        obtain ⟨rfl, rfl⟩ := Prod.mk.inj equal
        simp only [List.cons_append, stringBody?_append read after', Option.map_some]
    · rename_i notEscape
      rw [if_neg notEscape] at closed
      split
      · rename_i isQuote
        rw [if_pos isQuote] at closed
        obtain ⟨rfl, same⟩ := Prod.mk.inj (Option.some.inj closed)
        rw [List.append_cancel_right same]
      · rename_i notQuote
        rw [if_neg notQuote] at closed
        obtain ⟨⟨inner, left⟩, read, equal⟩ := Option.map_eq_some_iff.mp closed
        obtain ⟨rfl, rfl⟩ := Prod.mk.inj equal
        simp only [stringBody?_append read after', Option.map_some]
termination_by cs.length

/-! ## Stops -/

/-- No name, number or operator goes on with the character, and `url` takes no body from it. -/
structure Stops (c : Char) : Prop where
  notName : isNameChar c = false
  notLetter : isLetter c = false
  notDigit : c.isDigit = false
  notSign : ∀ op : Operator, c ∉ op.spelling.toList
  notRound : c ≠ '('

theorem stops_of_isBlank
    {c : Char}
    (blank : isBlank c = true) :
    Stops c := by
  have notSpelled := isAlphanumeric_of_isBlank blank
  refine ⟨isNameChar_of_isBlank blank, ?_, ?_, ?_, ?_⟩
  · rw [Bool.eq_false_iff]
    intro letter
    rw [isAlphanumeric_of_isLetter letter] at notSpelled
    cases notSpelled
  · have noDigit : ∀ code ∈ blankCodes, (Char.ofNat code).isDigit = false := by decide
    have known := noDigit _ (toNat_mem_blankCodes blank)
    rwa [Char.ofNat_toNat] at known
  · intro op isIn
    have noneBlank : ∀ op ∈ Operator.all, ∀ d ∈ op.spelling.toList, isBlank d = false := by decide
    have solid := noneBlank op (Operator.mem_all op) c isIn
    rw [blank] at solid
    cases solid
  · rintro rfl
    exact absurd blank (by decide)

theorem stops_opening_curly : Stops '\x7b' := by
  refine ⟨by decide, by decide, by decide, fun op => ?_, by decide⟩
  cases op <;> decide

/-- A text that starts with a stop, or is empty. -/
def Stopping (text : List Char) : Prop :=
  ∀ c ∈ text.head?, Stops c

theorem stopping_nil : Stopping [] :=
  fun _ isFirst => nomatch isFirst

theorem stopping_cons
    {c : Char}
    (stops : Stops c)
    (rest : List Char) :
    Stopping (c :: rest) := by
  rintro d ⟨⟩
  exact stops

section Following

variable {after after' : List Char}

/-- A token that ends before a stop, whatever follows. -/
theorem taken_of_map
    {take : List Char → Taken}
    {cs : List Char}
    (stops : ∀ {after}, Stopping after → take (cs ++ after) =
      (take cs).map fun taken => (taken.1, taken.2 ++ after))
    (stopping : Stopping after)
    (stopping' : Stopping after')
    {kind : Kind}
    {rest : List Char}
    (taken : take (cs ++ after) = .ok (kind, rest ++ after)) :
    take (cs ++ after') = .ok (kind, rest ++ after') := by
  rw [stops stopping] at taken
  rw [stops stopping']
  cases alone : take cs with
  | error error =>
    rw [alone] at taken
    cases taken
  | ok result =>
    rw [alone] at taken
    obtain ⟨rfl, same⟩ := Prod.mk.inj (Except.ok.inj taken)
    rw [← List.append_cancel_right same]
    rfl

theorem takeString_append
    {quote : Char}
    {cs rest : List Char}
    {kind : Kind}
    (taken : takeString quote (cs ++ after) = .ok (kind, rest ++ after))
    (after' : List Char) :
    takeString quote (cs ++ after') = .ok (kind, rest ++ after') := by
  unfold takeString at taken
  split at taken
  · rename_i value remaining closed
    obtain ⟨rfl, rfl⟩ := Prod.mk.inj (Except.ok.inj taken)
    rw [takeString, stringBody?_append closed after']
  · cases taken

/-- A test that fails on stops has one answer whatever follows. -/
theorem any_head?_append
    {test : Char → Bool}
    (fails : ∀ {c}, Stops c → test c = false)
    (stopping : Stopping after)
    (cs : List Char) :
    (cs ++ after).head?.any test = cs.head?.any test := by
  cases cs with
  | cons c rest => rfl
  | nil =>
    cases after with
    | nil => rfl
    | cons c rest => exact fails (stopping c rfl)

theorem isNameStart_of_stops
    {c : Char}
    (stops : Stops c) :
    isNameStart c = false := by
  have notName := stops.notName
  simp only [isNameChar, Bool.or_eq_false_iff] at notName
  simp [isNameStart, stops.notLetter, notName]

theorem ne_of_stops
    {c d : Char}
    (stops : Stops c)
    {op : Operator}
    (isSign : d ∈ op.spelling.toList) :
    c ≠ d := by
  rintro rfl
  exact stops.notSign op isSign

theorem takeName_append
    (stopping : Stopping after)
    (lead : Char)
    (cs : List Char) :
    takeName lead (cs ++ after) = (takeName lead cs).map fun taken => (taken.1, taken.2 ++ after) := by
  have stops : ∀ c ∈ after.head?, isNameChar c = false := fun c isFirst => (stopping c isFirst).notName
  rw [takeName, takeWhile_append_of_stop stops, dropWhile_append_of_stop stops]
  rfl

theorem takeHash_append
    (stopping : Stopping after)
    (cs : List Char) :
    takeHash (cs ++ after) = (takeHash cs).map fun taken => (taken.1, taken.2 ++ after) := by
  have stops : ∀ c ∈ after.head?, isNameChar c = false := fun c isFirst => (stopping c isFirst).notName
  rw [takeHash, takeWhile_append_of_stop stops, dropWhile_append_of_stop stops]
  rfl

theorem numeral_append
    (stopping : Stopping after)
    (lead : Char)
    (cs : List Char) :
    numeral lead (cs ++ after) = ((numeral lead cs).1, (numeral lead cs).2 ++ after) := by
  have stops : ∀ c ∈ after.head?, c.isDigit = false := fun c isFirst => (stopping c isFirst).notDigit
  have notDot : ∀ c ∈ after.head?, c ≠ '.' := fun c isFirst =>
    ne_of_stops (stopping c isFirst) (show '.' ∈ Operator.dot.spelling.toList by decide)
  unfold numeral
  rw [takeWhile_append_of_stop stops, dropWhile_append_of_stop stops]
  generalize cs.dropWhile Char.isDigit = left
  match left with
  | [] =>
    cases after with
    | nil => rfl
    | cons c rest => simp [notDot c rfl]
  | [c] =>
    by_cases isDot : c = '.'
    · subst isDot
      cases after with
      | nil => rfl
      | cons d rest => simp [stops d rfl]
    · simp [isDot]
  | c :: d :: rest =>
    by_cases isDot : c = '.'
    · subst isDot
      simp only [List.cons_append]
      split
      · simp only [takeWhile_append_of_stop stops, dropWhile_append_of_stop stops]
      · rfl
    · simp [isDot]

theorem suffix_append
    (stopping : Stopping after)
    (cs : List Char) :
    suffix (cs ++ after) = ((suffix cs).1, (suffix cs).2 ++ after) := by
  have stops : ∀ c ∈ after.head?, isLetter c = false := fun c isFirst => (stopping c isFirst).notLetter
  cases cs with
  | nil =>
    cases after with
    | nil => rfl
    | cons c rest =>
      have notPercent : c ≠ '%' :=
        ne_of_stops (stopping c rfl) (show '%' ∈ Operator.percent.spelling.toList by decide)
      rw [List.nil_append, suffix]
      · rw [if_neg (by simp [stops c rfl])]
        rfl
      · exact notPercent
  | cons c rest =>
    rw [List.cons_append]
    by_cases isPercent : c = '%'
    · subst isPercent
      rfl
    · have letters := takeWhile_append_of_stop stops (c :: rest)
      have others := dropWhile_append_of_stop stops (c :: rest)
      rw [List.cons_append] at letters others
      simp only [suffix, letters, others]
      split <;> simp

theorem takeNumber_append
    (stopping : Stopping after)
    (lead : Char)
    (cs : List Char) :
    takeNumber lead (cs ++ after) =
      (takeNumber lead cs).map fun taken => (taken.1, taken.2 ++ after) := by
  simp only [takeNumber, numeral_append stopping, suffix_append stopping]
  split <;> rfl

theorem takeOperator_append
    (stopping : Stopping after)
    (lead : Char)
    (cs : List Char) :
    takeOperator lead (cs ++ after) =
      (takeOperator lead cs).map fun taken => (taken.1, taken.2 ++ after) := by
  have sameOp : Operator.all.find? (fun op => op.spelling.toList.isPrefixOf (lead :: cs ++ after)) =
      Operator.all.find? (fun op => op.spelling.toList.isPrefixOf (lead :: cs)) := by
    congr 1
    funext op
    rw [Bool.eq_iff_iff, List.isPrefixOf_iff_prefix, List.isPrefixOf_iff_prefix]
    exact prefix_append_of_stop fun c isFirst => (stopping c isFirst).notSign op
  unfold takeOperator Operator.read?
  rw [← List.cons_append, sameOp]
  cases found : Operator.all.find? (fun op => op.spelling.toList.isPrefixOf (lead :: cs)) with
  | none => rfl
  | some op =>
    have spelled := List.find?_some found
    have short := (List.isPrefixOf_iff_prefix.mp spelled).length_le
    simp only [Option.map_some, List.drop_append_of_le_length short]
    rfl

theorem takeUrl_append
    {inside rest : List Char}
    {kind : Kind}
    (taken : takeUrl (inside ++ after) = .ok (kind, rest ++ after))
    (after' : List Char) :
    takeUrl (inside ++ after') = .ok (kind, rest ++ after') := by
  cases closes : inside.dropWhile (· != ')') with
  | nil =>
    -- The parenthesis would be part of what follows the token.
    have beyond : (inside ++ after).dropWhile (· != ')') = after.dropWhile (· != ')') := by
      rw [List.dropWhile_append, closes]
      rfl
    have shorter := length_dropWhile_le_length (· != ')') after
    unfold takeUrl at taken
    rw [beyond] at taken
    split at taken
    · rename_i read
      rw [read] at shorter
      obtain ⟨_, same⟩ := Prod.mk.inj (Except.ok.inj taken)
      have remaining := congrArg List.length same
      simp only [List.length_append, List.length_cons] at shorter remaining
      omega
    · cases taken
  | cons c others =>
    have inner : ∀ after, (inside ++ after).dropWhile (· != ')') = c :: (others ++ after) := by
      intro after
      rw [List.dropWhile_append, closes]
      rfl
    have short : (inside.takeWhile (· != ')')).length ≠ inside.length := by
      have whole := congrArg List.length
        (List.takeWhile_append_dropWhile (p := (· != ')')) (l := inside))
      rw [closes, List.length_append, List.length_cons] at whole
      omega
    have body : ∀ after, (inside ++ after).takeWhile (· != ')') = inside.takeWhile (· != ')') := by
      intro after
      rw [List.takeWhile_append, if_neg short]
    unfold takeUrl at taken ⊢
    rw [inner, body] at taken ⊢
    obtain ⟨rfl, same⟩ := Prod.mk.inj (Except.ok.inj taken)
    rw [List.append_cancel_right same]

theorem takeWord_append
    (stopping : Stopping after)
    (stopping' : Stopping after')
    {lead : Char}
    {cs rest : List Char}
    {kind : Kind}
    (taken : takeWord lead (cs ++ after) = .ok (kind, rest ++ after)) :
    takeWord lead (cs ++ after') = .ok (kind, rest ++ after') := by
  have named : takeName lead (cs ++ after) = .ok (kind, rest ++ after) →
      takeName lead (cs ++ after') = .ok (kind, rest ++ after') :=
    taken_of_map (takeName_append · lead cs) stopping stopping'
  have noBody {after : List Char} (stopping : Stopping after) (inside : List Char) :
      after ≠ '(' :: inside := by
    rintro rfl
    exact (stopping '(' rfl).notRound rfl
  unfold takeWord at taken ⊢
  rw [takeWhile_append_of_stop fun c isFirst => (stopping c isFirst).notName,
    dropWhile_append_of_stop fun c isFirst => (stopping c isFirst).notName] at taken
  rw [takeWhile_append_of_stop fun c isFirst => (stopping' c isFirst).notName,
    dropWhile_append_of_stop fun c isFirst => (stopping' c isFirst).notName]
  split
  · rename_i isUrl
    rw [if_pos isUrl] at taken
    generalize cs.dropWhile isNameChar = left at taken ⊢
    cases left with
    | nil =>
      simp only [List.nil_append] at taken ⊢
      split at taken
      · exact absurd rfl (noBody stopping _)
      · split
        · exact absurd rfl (noBody stopping' _)
        · exact named taken
    | cons c following =>
      by_cases opens : c = '('
      · subst opens
        exact takeUrl_append taken after'
      · simp only [List.cons_append] at taken ⊢
        split at taken
        · rename_i isOpening
          exact absurd (List.cons.inj isOpening).1 opens
        · split
          · rename_i isOpening
            exact absurd (List.cons.inj isOpening).1 opens
          · exact named taken
  · rename_i notUrl
    rw [if_neg notUrl] at taken
    exact named taken

/-- A token that ends before a stop does not depend on what follows. -/
theorem lexeme_append
    (stopping : Stopping after)
    (stopping' : Stopping after')
    {c : Char}
    {cs rest : List Char}
    {kind : Kind}
    (taken : lexeme c (cs ++ after) = .ok (kind, rest ++ after)) :
    lexeme c (cs ++ after') = .ok (kind, rest ++ after') := by
  have sameHead {test : Char → Bool} (fails : ∀ {c}, Stops c → test c = false) :
      (cs ++ after').head?.any test = (cs ++ after).head?.any test := by
    rw [any_head?_append fails stopping, any_head?_append fails stopping']
  have sameStart := sameHead isNameStart_of_stops
  have sameLetter := sameHead Stops.notLetter
  have sameDigit := sameHead Stops.notDigit
  have sameHyphen : (cs ++ after').head?.any (fun d => isNameStart d || d == '-') =
      (cs ++ after).head?.any fun d => isNameStart d || d == '-' := by
    refine sameHead fun stops => ?_
    rw [isNameStart_of_stops stops, Bool.false_or, beq_eq_false_iff_ne]
    exact ne_of_stops stops (show '-' ∈ Operator.minus.spelling.toList by decide)
  have name : takeName c (cs ++ after) = .ok (kind, rest ++ after) →
      takeName c (cs ++ after') = .ok (kind, rest ++ after') :=
    taken_of_map (takeName_append · c cs) stopping stopping'
  have number : takeNumber c (cs ++ after) = .ok (kind, rest ++ after) →
      takeNumber c (cs ++ after') = .ok (kind, rest ++ after') :=
    taken_of_map (takeNumber_append · c cs) stopping stopping'
  unfold lexeme at taken ⊢
  split at taken
  · rename_i mark
    obtain ⟨rfl, same⟩ := Prod.mk.inj (Except.ok.inj taken)
    simp only [List.append_cancel_right same]
  · rename_i noMark
    simp only [sameStart, sameLetter, sameDigit, sameHyphen]
    simp only at taken
    split at taken <;> rename_i isString
    · rw [if_pos isString]
      exact takeString_append taken after'
    rw [if_neg isString]
    split at taken <;> rename_i isHash
    · rw [if_pos isHash]
      exact taken_of_map (takeHash_append · cs) stopping stopping' taken
    rw [if_neg isHash]
    split at taken <;> rename_i isKeyword
    · rw [if_pos isKeyword]
      exact name taken
    rw [if_neg isKeyword]
    split at taken <;> rename_i isFlag
    · rw [if_pos isFlag]
      exact name taken
    rw [if_neg isFlag]
    split at taken <;> rename_i isHyphenated
    · rw [if_pos isHyphenated]
      exact name taken
    rw [if_neg isHyphenated]
    split at taken <;> rename_i isNumber
    · rw [if_pos isNumber]
      exact number taken
    rw [if_neg isNumber]
    split at taken <;> rename_i isFraction
    · rw [if_pos isFraction]
      exact number taken
    rw [if_neg isFraction]
    split at taken <;> rename_i isWord
    · rw [if_pos isWord]
      exact takeWord_append stopping stopping' taken
    rw [if_neg isWord]
    exact taken_of_map (takeOperator_append · c cs) stopping stopping' taken

/-! ## Gaps -/

/-- A closed comment is passed over, whatever follows the text it stands in. -/
theorem skipGap_comment_append
    {spaced : Bool}
    {c : Char}
    {cs remaining : List Char}
    (notBlank : ¬isBlank c = true)
    (opens : (c == '/' && cs.head? == some '*') = true)
    (closed : afterComment? cs = some remaining)
    (after : List Char) :
    skipGap spaced (c :: cs ++ after) = skipGap true (remaining ++ after) := by
  have isOpening : (c == '/' && (cs ++ after).head? == some '*') = true := by
    simp only [Bool.and_eq_true, beq_iff_eq] at opens ⊢
    exact ⟨opens.1, by rw [List.head?_append, opens.2]; rfl⟩
  have closed' : afterComment? (cs ++ after) = some (remaining ++ after) := by
    have alone : afterComment? (cs ++ []) = some (remaining ++ []) := by
      rw [List.append_nil, List.append_nil]
      exact closed
    exact afterComment?_append alone after
  rw [List.cons_append, skipGap_cons, if_neg notBlank, if_pos isOpening]
  split
  · rename_i same
    cases closed'.symm.trans same
    rfl
  · rename_i unclosed
    cases closed'.symm.trans unclosed

/-- A gap that ends before a token of a text is the same whatever follows the text. -/
theorem skipGap_append_stopping
    (stopping : Stopping after)
    {spaced spacedAfter : Bool}
    {cs rest : List Char}
    {c : Char}
    (passed : skipGap spaced cs = .ok (c :: rest, spacedAfter)) :
    skipGap spaced (cs ++ after) = .ok (c :: rest ++ after, spacedAfter) := by
  fun_induction skipGap spaced cs with
  | case1 => cases passed
  | case2 spaced d cs blank inductionHypothesis =>
    rw [List.cons_append, skipGap_cons, if_pos blank]
    exact inductionHypothesis passed
  | case3 spaced d cs notBlank opens remaining closed inductionHypothesis =>
    rw [skipGap_comment_append notBlank opens closed]
    exact inductionHypothesis passed
  | case4 => cases passed
  | case5 spaced d cs notBlank notOpening =>
    obtain ⟨same, rfl⟩ := Prod.mk.inj (Except.ok.inj passed)
    obtain ⟨rfl, rfl⟩ := List.cons.inj same
    have notComment : ¬(d == '/' && (cs ++ after).head? == some '*') = true := by
      simp only [Bool.and_eq_true, beq_iff_eq] at notOpening ⊢
      rintro ⟨isSlash, isStar⟩
      cases cs with
      | cons e others => exact notOpening ⟨isSlash, isStar⟩
      | nil =>
        have isSign : '*' ∈ Operator.times.spelling.toList := by decide
        exact (stopping '*' isStar).notSign .times isSign
    rw [List.cons_append, skipGap_cons, if_neg notBlank, if_neg notComment]

/-- After a text that is a gap itself, the gap goes on. -/
theorem skipGap_append_gap
    {spaced spacedAfter : Bool}
    {cs : List Char}
    (passed : skipGap spaced cs = .ok ([], spacedAfter))
    (after : List Char) :
    skipGap spaced (cs ++ after) = skipGap spacedAfter after := by
  fun_induction skipGap spaced cs with
  | case1 =>
    cases passed
    rfl
  | case2 spaced d cs blank inductionHypothesis =>
    rw [List.cons_append, skipGap_cons, if_pos blank]
    exact inductionHypothesis passed
  | case3 spaced d cs notBlank opens remaining closed inductionHypothesis =>
    rw [skipGap_comment_append notBlank opens closed]
    exact inductionHypothesis passed
  | case4 => cases passed
  | case5 => cases passed

end Following

end StyleSense.Token
