import StyleSense.Line.Scan
import StyleSense.Proofs.Line.Comment

/-!
Contract: the parts of a line that a shape names.

Owns:
- that the value of an assignment or a property is an end of the line, and its name a start of it;
- `Pattern.assignment?_append`: text that cannot be part of an assignment sign belongs to the value;
- `Pattern.IsStop`, the quotes and brackets before which names, signs and keywords end, and
  `Pattern.property?_local`: what follows one in a value does not change the name of a property;
- `isValueLine_append_of_trailing`: trailing text does not change whether a line is an assignment of
  a value.

Does not own: what a line of some shape means (`StyleSense.Proofs.Statement.Matching`).
-/

namespace StyleSense

open Text

namespace Pattern

theorem isNameChar_of_isBlank
    {c : Char}
    (blank : isBlank c = true) :
    isNameChar c = false := by
  have notWord := isWordChar_of_isBlank blank
  have notDollar : c ≠ '$' := by
    rintro rfl
    simp [isBlank] at blank
  have notHyphen : c ≠ '-' := by
    rintro rfl
    simp [isBlank] at blank
  simp [isNameChar, notWord, notDollar, notHyphen]

/-- A name at the start of a text has no blanks in it. -/
theorem solid_name
    {text : List Char}
    (nonempty : (text.takeWhile isNameChar).isEmpty = false) :
    Solid (text.takeWhile isNameChar) := by
  refine ⟨by simpa using nonempty, fun c isIn => ?_⟩
  by_contra blank
  have named := List.mem_takeWhile_imp isIn
  rw [isNameChar_of_isBlank (by simpa using blank)] at named
  cases named

theorem functionHead?_name
    {text name params : List Char}
    (found : functionHead? text = some (name, params)) :
    name <+: text ∧ Solid name := by
  unfold functionHead? at found
  split at found
  · simp only at found
    split at found
    · rename_i closed
      cases found
      simp only [Bool.and_eq_true, Bool.not_eq_true'] at closed
      exact ⟨List.takeWhile_prefix _, solid_name closed.1⟩
    · cases found
  · cases found

/-! ## Assignments -/

theorem afterAssign?_suffix
    {cs value : List Char}
    (found : afterAssign? cs = some value) :
    value <:+ cs := by
  have kept : ∀ rest : List Char, afterAssign?.notEqual rest = some value → value = rest := by
    intro rest known
    unfold afterAssign?.notEqual at known
    split at known <;> simp_all
  unfold afterAssign? at found
  split at found
  · rw [kept _ found]
    exact List.suffix_append ['?', '='] _
  · rw [kept _ found]
    exact List.suffix_append [':', '='] _
  · rw [kept _ found]
    exact List.suffix_cons _ _
  · cases found

/-- The value of an assignment is an end of it. -/
theorem assignment?_suffix
    {text name value : List Char}
    (found : assignment? text = some (name, value)) :
    value <:+ text := by
  simp only [assignment?] at found
  split at found
  · cases found
  · obtain ⟨after, read, equal⟩ := Option.map_eq_some_iff.mp found
    cases equal
    exact ((afterAssign?_suffix read).trans (List.dropWhile_suffix _)).trans
      (List.dropWhile_suffix _)

/-- The name of an assignment is a start of it. -/
theorem assignment?_name
    {text name value : List Char}
    (found : assignment? text = some (name, value)) :
    name <+: text ∧ Solid name := by
  simp only [assignment?] at found
  split at found
  · cases found
  · rename_i nonempty
    obtain ⟨after, read, equal⟩ := Option.map_eq_some_iff.mp found
    cases equal
    exact ⟨List.takeWhile_prefix _, solid_name (by simpa using nonempty)⟩

/-- An assignment starts with a name, so it is no at-rule. -/
theorem assignment?_head
    {text name value : List Char}
    (found : assignment? text = some (name, value)) :
    text.head? ≠ some '@' := by
  intro isAt
  obtain ⟨rest, rfl⟩ := List.head?_eq_some_iff.mp isAt
  have noName : isNameChar '@' = false := by decide
  simp [assignment?, noName] at found

theorem notEqual_append
    {after : List Char}
    (noSign : after.head? ≠ some '=')
    (cs : List Char) :
    afterAssign?.notEqual (cs ++ after) = (afterAssign?.notEqual cs).map (· ++ after) := by
  cases cs with
  | nil => simp [afterAssign?.notEqual, noSign]
  | cons c rest =>
    by_cases isSign : c = '='
    · simp [afterAssign?.notEqual, isSign]
    · simp [afterAssign?.notEqual, isSign]

/-- An assignment sign is an equals sign, or a question mark or a colon in front of one. -/
theorem afterAssign?_cons
    (c : Char)
    (cs : List Char) :
    afterAssign? (c :: cs) =
      if c = '=' then afterAssign?.notEqual cs
      else if (c = '?' ∨ c = ':') ∧ cs.head? = some '=' then afterAssign?.notEqual cs.tail
      else none := by
  unfold afterAssign?
  split
  · simp_all
  · simp_all
  · simp_all
  · rename_i notDefault notColon notPlain
    have notSign : c ≠ '=' := fun equal => notPlain cs (by rw [equal])
    rw [if_neg notSign, if_neg]
    rintro ⟨lead, sign⟩
    obtain ⟨rest, rfl⟩ := List.head?_eq_some_iff.mp sign
    rcases lead with rfl | rfl
    · exact notDefault rest rfl
    · exact notColon rest rfl

theorem afterAssign?_append
    {cs after : List Char}
    (nonempty : cs ≠ [])
    (noSign : after.head? ≠ some '=') :
    afterAssign? (cs ++ after) = (afterAssign? cs).map (· ++ after) := by
  obtain ⟨c, rest, rfl⟩ := List.exists_cons_of_ne_nil nonempty
  rw [List.cons_append, afterAssign?_cons, afterAssign?_cons]
  by_cases plain : c = '='
  · rw [if_pos plain, if_pos plain, notEqual_append noSign]
  · rw [if_neg plain, if_neg plain]
    cases rest with
    | nil => simp [noSign]
    | cons d following =>
      by_cases sign : (c = '?' ∨ c = ':') ∧ d = '='
      · simp [sign, notEqual_append noSign]
      · simp [sign]

/-- A text that follows an assignment without being part of its name or sign: after blanks it goes
on with a character that is neither. -/
structure Trailing (after : List Char) : Prop where
  opens : ∀ c ∈ after.head?, isNameChar c = false ∧ c ≠ '='
  goesOn : afterAssign? (trimStart after) = none

/-- Trailing text belongs to the value of an assignment. -/
theorem assignment?_append
    {after : List Char}
    (trailing : Trailing after)
    (text : List Char) :
    assignment? (text ++ after) =
      (assignment? text).map fun parts => (parts.1, parts.2 ++ after) := by
  have noSign : after.head? ≠ some '=' := fun sign => (trailing.opens '=' sign).2 rfl
  have nameEq := takeWhile_append_of_stop (fun c first => (trailing.opens c first).1) text
  have restEq := dropWhile_append_of_stop (fun c first => (trailing.opens c first).1) text
  simp only [assignment?, nameEq, restEq]
  split
  · rfl
  · by_cases blank : trimStart (text.dropWhile isNameChar) = []
    · have gone := trimStart_append_of_allBlank (trimStart_eq_nil.mp blank) after
      rw [gone, trailing.goesOn, blank]
      rfl
    · rw [trimStart_append blank, afterAssign?_append blank noSign, Option.map_map, Option.map_map]
      rfl

/-- After blanks, a semicolon or a brace is part of neither a name nor an assignment sign. -/
theorem trailing_of_stop
    {gap : List Char}
    (blank : AllBlank gap)
    {c : Char}
    (stop : c = ';' ∨ c = '\x7b')
    (rest : List Char) :
    Trailing (gap ++ c :: rest) := by
  refine ⟨fun d isFirst => ?_, ?_⟩
  · cases gap with
    | nil =>
      obtain rfl : c = d := by simpa using isFirst
      rcases stop with rfl | rfl <;> decide
    | cons first others =>
      obtain rfl : first = d := by simpa using isFirst
      have isBlankFirst := blank first (List.mem_cons_self ..)
      refine ⟨isNameChar_of_isBlank isBlankFirst, ?_⟩
      rintro rfl
      exact absurd isBlankFirst (by decide)
  · rw [trimStart_append_of_allBlank blank]
    rcases stop with rfl | rfl <;> rfl

/-! ## Interpolations and properties -/

theorem interpolation?_eq
    {text inside : List Char}
    (found : interpolation? text = some inside) :
    text = '\x7b' :: inside ++ ['\x7d'] := by
  unfold interpolation? at found
  split at found
  · rename_i rest
    simp only at found
    split at found
    · rename_i closed
      cases found
      simp only [Bool.and_eq_true, beq_iff_eq] at closed
      rw [List.cons_append, ← closed.2]
      congr 1
      exact (List.prefix_iff_eq_append.mp (List.takeWhile_prefix _)).symm
    · cases found
  · cases found

theorem braced?_append
    {cs inside rest : List Char}
    (closed : braced? cs = some (inside, rest)) :
    cs = inside ++ rest := by
  fun_induction braced? cs generalizing inside with
  | case1 => cases closed
  | case2 rest =>
    cases closed
    rfl
  | case3 => cases closed
  | case4 c following _ _ inductionHypothesis =>
    obtain ⟨⟨inner, after⟩, innerClosed, equal⟩ := Option.map_eq_some_iff.mp closed
    cases equal
    rw [inductionHypothesis innerClosed]
    rfl

/-- A property name and what follows it make up the text. -/
theorem propertyName_append (text : List Char) :
    (propertyName text).1 ++ (propertyName text).2 = text := by
  fun_induction propertyName text with
  | case1 => rfl
  | case2 c cs _ name rest split inductionHypothesis =>
    rw [split] at inductionHypothesis
    rw [List.cons_append, inductionHypothesis]
  | case3 c cs _ _ inside following closed name rest split inductionHypothesis =>
    rw [split] at inductionHypothesis
    rw [braced?_append closed, ← inductionHypothesis]
    simp
  | case4 => rfl
  | case5 => rfl

/-- A property is its name, one character that is a colon or a blank, more blanks and its value. -/
theorem property?_eq
    {text name value : List Char}
    (found : property? text = some (name, value)) :
    ∃ c gap, (c = ':' ∨ isBlank c = true) ∧ AllBlank gap ∧
      propertyName text = (name, c :: gap ++ value) ∧ text = name ++ c :: gap ++ value := by
  have whole := propertyName_append text
  simp only [property?] at found
  generalize read : propertyName text = parts at found whole
  obtain ⟨start, rest⟩ := parts
  cases rest with
  | nil => cases found
  | cons c following =>
    simp only at found whole
    by_cases opens : (c == ':' || isBlank c) = true
    · rw [if_pos opens] at found
      simp only at found
      split at found
      · cases found
      · cases found
        refine ⟨c, following.takeWhile isBlank, by simpa using opens, ?_, ?_, ?_⟩
        · exact fun c isIn => List.mem_takeWhile_imp isIn
        · rw [List.cons_append, takeWhile_append_trimStart]
        · rw [List.append_assoc, List.cons_append, takeWhile_append_trimStart, whole]
    · rw [if_neg opens] at found
      cases found

theorem property?_suffix
    {text name value : List Char}
    (found : property? text = some (name, value)) :
    value <:+ text := by
  obtain ⟨c, gap, _, _, _, whole⟩ := property?_eq found
  exact ⟨name ++ c :: gap, whole.symm⟩

theorem property?_name
    {text name value : List Char}
    (found : property? text = some (name, value)) :
    name <+: text := by
  obtain ⟨c, gap, _, _, _, whole⟩ := property?_eq found
  exact ⟨c :: gap ++ value, by rw [whole, List.append_assoc]⟩

theorem braced?_local
    {cs inside rest : List Char}
    (closed : braced? cs = some (inside, rest))
    (rest' : List Char) :
    braced? (inside ++ rest') = some (inside, rest') := by
  fun_induction braced? cs generalizing inside with
  | case1 => cases closed
  | case2 rest =>
    cases closed
    rfl
  | case3 => cases closed
  | case4 c following notClosing notOpening inductionHypothesis =>
    obtain ⟨⟨inner, after⟩, innerClosed, equal⟩ := Option.map_eq_some_iff.mp closed
    obtain ⟨rfl, rfl⟩ := Prod.mk.inj equal
    rw [List.cons_append, braced?, inductionHypothesis innerClosed]
    · rfl
    · exact fun isClosing => notClosing isClosing
    · exact fun isOpening => notOpening isOpening

/-- A property name does not depend on what follows the character after it. -/
theorem propertyName_local
    {c : Char}
    (stops : c = ':' ∨ isBlank c = true)
    {text name rest : List Char}
    (read : propertyName text = (name, c :: rest))
    (rest' : List Char) :
    propertyName (name ++ c :: rest') = (name, c :: rest') := by
  have notBrace : c ≠ '\x7b' := by
    rintro rfl
    simp [isBlank] at stops
  fun_induction propertyName text generalizing name with
  | case1 => cases read
  | case2 d cs isName inner after split inductionHypothesis =>
    cases read
    rw [List.cons_append, propertyName, if_pos isName, inductionHypothesis split]
  | case3 d cs notName isBrace inside following closed inner after split inductionHypothesis =>
    cases read
    have closed' := braced?_local closed (inner ++ c :: rest')
    rw [List.append_assoc, List.cons_append, propertyName, if_neg notName, if_pos isBrace]
    split
    · rename_i same
      cases closed'.symm.trans same
      rw [inductionHypothesis split]
    · rename_i unclosed
      cases closed'.symm.trans unclosed
  | case4 d cs notName isBrace unclosed =>
    cases read
    exact absurd (beq_iff_eq.mp isBrace) notBrace
  | case5 d cs notName notOpening =>
    cases read
    rw [List.nil_append, propertyName, if_neg notName, if_neg notOpening]


/-- What makes a name and a value a property. -/
structure IsPair (name value : List Char) : Prop where
  named : name ≠ []
  valued : value ≠ []
  trimmed : trimStart value = value
  complete : continuesExpression value = false

theorem property?_isPair
    {text name value : List Char}
    (found : property? text = some (name, value)) :
    IsPair name value := by
  simp only [property?] at found
  generalize propertyName text = parts at found
  obtain ⟨start, rest⟩ := parts
  cases rest with
  | nil => cases found
  | cons c following =>
    simp only at found
    by_cases opens : (c == ':' || isBlank c) = true
    · rw [if_pos opens] at found
      simp only at found
      split at found
      · cases found
      · rename_i kept
        cases found
        simp only [Bool.or_eq_true, List.isEmpty_iff, not_or, Bool.not_eq_true] at kept
        exact ⟨kept.1.1, kept.1.2, trimStart_eq_self fun _ first => trimStart_head first, kept.2⟩
    · rw [if_neg opens] at found
      cases found

theorem property?_of_isPair
    {text name gap value : List Char}
    {c : Char}
    (stops : c = ':' ∨ isBlank c = true)
    (blank : AllBlank gap)
    (read : propertyName text = (name, c :: gap ++ value))
    (pair : IsPair name value) :
    property? text = some (name, value) := by
  have opens : (c == ':' || isBlank c) = true := by simpa using stops
  have front : trimStart (gap ++ value) = value := by
    rw [trimStart_append_of_allBlank blank, pair.trimmed]
  have kept : ¬(name.isEmpty || value.isEmpty || continuesExpression value) = true := by
    simp [pair.named, pair.valued, pair.complete]
  simp only [property?, read, List.cons_append, if_pos opens, front, if_neg kept]

/-- A property starts with a character of its name. -/
theorem property?_head
    {text name value : List Char}
    (found : property? text = some (name, value)) :
    ∃ c, text.head? = some c ∧ (isWordChar c = true ∨ c = '-' ∨ c = '\x7b') := by
  obtain ⟨_, _, _, _, read, _⟩ := property?_eq found
  have named := (property?_isPair found).named
  cases text with
  | nil =>
    rw [propertyName] at read
    cases read
  | cons c cs =>
    refine ⟨c, rfl, ?_⟩
    by_contra other
    simp only [not_or] at other
    rw [propertyName, if_neg (by simp [other]), if_neg (by simp [other])] at read
    exact named (Prod.mk.inj read).1.symm

theorem interpolation?_plain
    {text inside : List Char}
    (found : interpolation? text = some inside) :
    ∀ c ∈ inside, c ≠ '\x7b' ∧ c ≠ '\x7d' := by
  unfold interpolation? at found
  split at found
  · simp only at found
    split at found
    · cases found
      intro c isIn
      simpa using List.mem_takeWhile_imp isIn
    · cases found
  · cases found

theorem braced?_plain
    {cs : List Char}
    (plain : ∀ c ∈ cs, c ≠ '\x7b' ∧ c ≠ '\x7d') :
    braced? (cs ++ ['\x7d']) = some (cs ++ ['\x7d'], []) := by
  induction cs with
  | nil => rfl
  | cons c rest inductionHypothesis =>
    obtain ⟨notOpening, notClosing⟩ := plain c (List.mem_cons_self ..)
    have inner := inductionHypothesis fun d isIn => plain d (List.mem_cons_of_mem _ isIn)
    rw [List.cons_append, braced?, inner]
    · rfl
    · exact notClosing
    · exact notOpening

/-- A property is more than an interpolation. -/
theorem interpolation?_of_property?
    {text name value : List Char}
    (found : property? text = some (name, value)) :
    interpolation? text = none := by
  cases isWhole : interpolation? text with
  | none => rfl
  | some inside =>
    obtain ⟨c, gap, _, _, read, _⟩ := property?_eq found
    have closed := braced?_plain (interpolation?_plain isWhole)
    rw [interpolation?_eq isWhole, List.cons_append, propertyName, if_neg (by decide),
      if_pos (beq_self_eq_true _)] at read
    split at read
    · rename_i same
      cases closed.symm.trans same
      rw [propertyName] at read
      cases read
    · rename_i unclosed
      cases closed.symm.trans unclosed

/-- A sign that is part of no name, no assignment sign, no keyword and no sign of an expression: a
quote, or a bracket that opens a group or a subscript. -/
abbrev IsStop (c : Char) : Prop :=
  IsQuote c ∨ c = '(' ∨ c = '['

theorem isBlank_of_isStop
    {q : Char}
    (isStop : IsStop q) :
    isBlank q = false := by
  rcases isStop with (rfl | rfl) | rfl | rfl <;> decide

section BeforeStop

variable {q : Char} (isStop : IsStop q)

include isStop

/-- The first word of a text ends before such a sign or has the sign in it. -/
theorem firstWord_append
    {word : List Char}
    (plain : q ∉ word)
    {before after : List Char}
    (starts : firstWord (before ++ q :: after) = word)
    (after' : List Char) :
    firstWord (before ++ q :: after') = word := by
  have solid := isBlank_of_isStop isStop
  have stops : ∀ after : List Char, ∀ c ∈ (q :: after).head?, isBlank c = false := by
    simpa using solid
  unfold firstWord at starts ⊢
  rw [trimStart, dropWhile_append_of_stop (stops _), List.takeWhile_append] at starts ⊢
  split at starts
  · rw [List.takeWhile_cons_of_pos (by simp [solid])] at starts
    exact absurd (starts ▸ List.mem_append_right _ (List.mem_cons_self ..)) plain
  · rename_i blankInside
    rw [if_neg blankInside]
    exact starts

theorem continuesExpression_append
    (before after after' : List Char) :
    continuesExpression (before ++ q :: after) = continuesExpression (before ++ q :: after') := by
  have plainSigns : ∀ sign ∈ continuationSigns, q ∉ sign.toList := by
    rcases isStop with (rfl | rfl) | rfl | rfl <;> decide
  have plainWords : ∀ word ∈ continuationWords, q ∉ word.toList := by
    rcases isStop with (rfl | rfl) | rfl | rfl <;> decide
  have sameSigns : ∀ sign ∈ continuationSigns, ∀ after : List Char,
      sign.toList.isPrefixOf (before ++ q :: after) = sign.toList.isPrefixOf before := by
    intro sign isSign after
    rw [Bool.eq_iff_iff, List.isPrefixOf_iff_prefix, List.isPrefixOf_iff_prefix]
    exact prefix_append_of_stop (by simpa using plainSigns sign isSign)
  have sameWord : ∀ first second : List Char,
      continuationWords.contains (String.ofList (firstWord (before ++ q :: first))) = true →
        continuationWords.contains (String.ofList (firstWord (before ++ q :: second))) = true := by
    intro first second isWord
    rw [List.contains_iff_mem] at isWord ⊢
    have plain := plainWords _ isWord
    rw [String.toList_ofList] at plain
    rw [firstWord_append isStop plain rfl second]
    exact isWord
  unfold continuesExpression
  congr 1
  · rw [Bool.eq_iff_iff, List.any_eq_true, List.any_eq_true]
    refine exists_congr fun sign => and_congr_right fun isSign => ?_
    rw [sameSigns sign isSign, sameSigns sign isSign]
  · rw [Bool.eq_iff_iff]
    exact ⟨sameWord after after', sameWord after' after⟩

theorem property?_local
    {before name value after : List Char}
    (found : property? (before ++ q :: after) = some (name, value ++ q :: after))
    (after' : List Char) :
    property? (before ++ q :: after') = some (name, value ++ q :: after') := by
  have solid := isBlank_of_isStop isStop
  obtain ⟨c, gap, stops, blank, read, whole⟩ := property?_eq found
  rw [← List.append_assoc] at whole
  obtain rfl : before = name ++ c :: gap ++ value := List.append_cancel_right whole
  have pair := property?_isPair found
  have read' := propertyName_local stops read (gap ++ (value ++ q :: after'))
  have firstSolid : ∀ d ∈ (value ++ q :: after').head?, isBlank d = false := by
    intro d isFirst
    cases value with
    | nil =>
      cases isFirst
      exact solid
    | cons first others =>
      cases isFirst
      have kept : (trimStart (d :: others ++ q :: after)).head? = some d := by
        rw [pair.trimmed]
        rfl
      exact trimStart_head kept
  have pair' : IsPair name (value ++ q :: after') := by
    refine ⟨pair.named, by simp, trimStart_eq_self firstSolid, ?_⟩
    rw [← continuesExpression_append isStop value after after']
    exact pair.complete
  refine property?_of_isPair stops blank ?_ pair'
  simpa using read'

end BeforeStop

theorem trailing_of_isStop
    {q : Char}
    (isStop : IsStop q)
    (rest : List Char) :
    Trailing (q :: rest) := by
  refine ⟨fun d isFirst => ?_, ?_⟩
  · cases isFirst
    rcases isStop with (rfl | rfl) | rfl | rfl <;> decide
  · rcases isStop with (rfl | rfl) | rfl | rfl <;> rfl

end Pattern

/-- Trailing text does not change whether a line is an assignment of a value. -/
theorem isValueLine_append_of_trailing
    {after : List Char}
    (trailing : Pattern.Trailing after)
    (apart : ∀ c ∈ after.head?, c ∉ "@block".toList)
    (notBlock : ¬"@block".toList <+: trimStart after)
    (text : List Char) :
    isValueLine (text ++ after) = isValueLine text := by
  unfold isValueLine
  rw [Pattern.assignment?_append trailing]
  cases Pattern.assignment? text with
  | none => rfl
  | some parts =>
    obtain ⟨name, value⟩ := parts
    simp only [Option.map_some]
    congr 1
    rw [Bool.eq_iff_iff, List.isPrefixOf_iff_prefix, List.isPrefixOf_iff_prefix]
    by_cases nothing : trimStart value = []
    · rw [trimStart_append_of_allBlank (trimStart_eq_nil.mp nothing), nothing]
      refine ⟨fun starts => absurd starts notBlock, fun starts => ?_⟩
      exact absurd (List.prefix_nil.mp starts) (by decide)
    · rw [trimStart_append nothing]
      exact prefix_append_of_stop apart

/-- What follows a semicolon or a brace does not change whether a line is an assignment of a
value. -/
theorem isValueLine_append
    {gap : List Char}
    (blank : AllBlank gap)
    {c : Char}
    (stop : c = ';' ∨ c = '\x7b')
    (text rest : List Char) :
    isValueLine (text ++ (gap ++ c :: rest)) = isValueLine text := by
  have notBlock : ∀ d ∈ (gap ++ c :: rest).head?, d ∉ "@block".toList := by
    intro d isFirst isIn
    have notBlank : ∀ d ∈ "@block".toList, isBlank d = false := by decide
    cases gap with
    | nil =>
      obtain rfl : c = d := by simpa using isFirst
      rcases stop with rfl | rfl <;> exact absurd isIn (by decide)
    | cons first others =>
      obtain rfl : first = d := by simpa using isFirst
      have isBlankFirst := blank first (List.mem_cons_self ..)
      rw [notBlank first isIn] at isBlankFirst
      cases isBlankFirst
  refine isValueLine_append_of_trailing (Pattern.trailing_of_stop blank stop rest) notBlock ?_ text
  rw [trimStart_append_of_allBlank blank]
  intro starts
  rcases stop with rfl | rfl <;> exact absurd (List.cons_prefix_cons.mp starts).1 (by decide)

/-- What follows a quote or an opening bracket does not change whether a line is an assignment of a
value. -/
theorem isValueLine_append_stop
    {q : Char}
    (isStop : Pattern.IsStop q)
    (text rest : List Char) :
    isValueLine (text ++ q :: rest) = isValueLine text := by
  refine isValueLine_append_of_trailing (Pattern.trailing_of_isStop isStop rest) ?_ ?_ text
  · intro d isFirst
    cases isFirst
    rcases isStop with (rfl | rfl) | rfl | rfl <;> decide
  · intro starts
    rcases isStop with (rfl | rfl) | rfl | rfl <;>
      exact absurd (List.cons_prefix_cons.mp starts).1 (by decide)

end StyleSense
