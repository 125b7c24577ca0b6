import StyleSense.Proofs.Line.Quote

/-!
Contract: brackets that match.

The scanner of lines only counts brackets. Here they are read with a stack, so that each closing one
closes the last that was opened. The braces of an interpolation then keep no bracket open, and a line
whose value is cut off within a bracket has the shape of the whole line.

Owns:
- `openBrackets?`, the brackets that are open after a text, and `Leaves`, the texts that leave certain
  ones open and no quote;
- `Leaves.bracketDepth_eq`: what the scanner counts is their number;
- `Leaves.interpolation?_eq_none` and `Leaves.property?_eq_none`: a text that is cut off within a
  bracket is no interpolation, and is a property only if the whole text is one.

Does not own: lines that are cut off (`StyleSense.Proofs.Line.Continuation`).
-/

namespace StyleSense

open Text

/-- The bracket that a closing bracket closes. -/
def opener? (c : Char) : Option Char :=
  if c = ')' then some '('
  else if c = ']' then some '['
  else if c = '\x7d' then some '\x7b'
  else none

/-- An opening bracket. -/
abbrev IsOpening (c : Char) : Prop :=
  c = '(' ∨ c = '[' ∨ c = '\x7b'

/-- The open brackets, innermost first, after one more character; none if it closes another bracket
than the innermost. -/
def nextBrackets? (quote : Option Char) (brackets : List Char) (c : Char) : Option (List Char) :=
  if quote.isSome then some brackets
  else if IsOpening c then some (c :: brackets)
  else
    match opener? c with
    | none => some brackets
    | some opening => if brackets.head? = some opening then some brackets.tail else none

/-- The brackets that are open after a text, innermost first, if all that it closes match. -/
def openBrackets? (quote : Option Char) (brackets : List Char) : List Char → Option (List Char)
  | [] => some brackets
  | c :: cs =>
    (nextBrackets? quote brackets c).bind fun next => openBrackets? (nextQuote quote c) next cs

/-- The signs that open or close something. -/
def bracketSigns : List Char :=
  ['(', '[', '\x7b', ')', ']', '\x7d', '"', '\'']

/-- Any other character leaves open what is open. -/
theorem nextBrackets?_of_apart
    {c : Char}
    (apart : ∀ d ∈ bracketSigns, c ≠ d)
    (quote : Option Char)
    (brackets : List Char) :
    nextBrackets? quote brackets c = some brackets ∧ ¬IsQuote c := by
  simp only [bracketSigns, List.forall_mem_cons, List.not_mem_nil, false_implies, implies_true,
    and_true] at apart
  simp [nextBrackets?, opener?, apart]

theorem openBrackets?_append
    (quote : Option Char)
    (brackets left right : List Char) :
    openBrackets? quote brackets (left ++ right) =
      (openBrackets? quote brackets left).bind fun next =>
        openBrackets? (openQuote quote left) next right := by
  induction left generalizing quote brackets with
  | nil => rfl
  | cons c rest inductionHypothesis =>
    rw [List.cons_append, openBrackets?, openBrackets?, Option.bind_assoc]
    exact congrArg (Option.bind _) (funext fun next => inductionHypothesis _ next)

theorem openBrackets?_cons_eq_some
    {quote : Option Char}
    {brackets after : List Char}
    {c : Char}
    {cs : List Char}
    (read : openBrackets? quote brackets (c :: cs) = some after) :
    ∃ next, nextBrackets? quote brackets c = some next ∧
      openBrackets? (nextQuote quote c) next cs = some after :=
  Option.bind_eq_some_iff.mp read

/-- What one character does to the open brackets outside quotes. -/
theorem nextBrackets?_cases
    {brackets next : List Char}
    {c : Char}
    (read : nextBrackets? none brackets c = some next) :
    (IsOpening c ∧ next = c :: brackets) ∨
      (¬IsOpening c ∧ opener? c = none ∧ next = brackets) ∨
      ∃ opening, ¬IsOpening c ∧ opener? c = some opening ∧ brackets = opening :: next := by
  simp only [nextBrackets?, Option.isSome_none, Bool.false_eq_true, if_false] at read
  by_cases opens : IsOpening c
  · rw [if_pos opens] at read
    exact .inl ⟨opens, (Option.some.inj read).symm⟩
  · rw [if_neg opens] at read
    cases closes : opener? c with
    | none =>
      rw [closes] at read
      exact .inr (.inl ⟨opens, rfl, (Option.some.inj read).symm⟩)
    | some opening =>
      simp only [closes] at read
      split at read
      · rename_i isLast
        obtain ⟨outer, rfl⟩ := List.head?_eq_some_iff.mp isLast
        cases read
        exact .inr (.inr ⟨opening, opens, rfl, rfl⟩)
      · cases read

/-! ## What the scanner counts -/

/-- The open brackets that the scanner counts: braces only when `countBraces`. -/
def openCount (countBraces : Bool) (brackets : List Char) : Int :=
  (brackets.countP fun c => countBraces || c ≠ '\x7b' : Nat)

theorem openCount_cons
    (countBraces : Bool)
    (c : Char)
    (brackets : List Char) :
    openCount countBraces (c :: brackets) =
      openCount countBraces brackets + if !countBraces && c = '\x7b' then 0 else 1 := by
  cases countBraces <;> by_cases brace : c = '\x7b' <;> simp [openCount, brace]

/-- The open brackets without the braces, which the scanner does not count in such lines. -/
def groupCount (brackets : List Char) : Int :=
  (brackets.countP (· ≠ '\x7b') : Nat)

theorem groupCount_eq (brackets : List Char) : groupCount brackets = openCount false brackets := by
  simp only [groupCount, openCount, Bool.false_or]

theorem groupCount_cons
    (c : Char)
    (brackets : List Char) :
    groupCount (c :: brackets) = groupCount brackets + if c = '\x7b' then 0 else 1 := by
  simpa [groupCount_eq] using openCount_cons false c brackets

theorem opener?_eq_some
    {c opening : Char}
    (closes : opener? c = some opening) :
    (c = ')' ∧ opening = '(') ∨ (c = ']' ∧ opening = '[') ∨ (c = '\x7d' ∧ opening = '\x7b') := by
  simp only [opener?] at closes
  split at closes
  · exact .inl ⟨‹_›, (Option.some.inj closes).symm⟩
  · split at closes
    · exact .inr (.inl ⟨‹_›, (Option.some.inj closes).symm⟩)
    · split at closes
      · exact .inr (.inr ⟨‹_›, (Option.some.inj closes).symm⟩)
      · cases closes

theorem opener?_eq_none
    {c : Char}
    (closesNone : opener? c = none) :
    c ≠ ')' ∧ c ≠ ']' ∧ c ≠ '\x7d' := by
  refine ⟨?_, ?_, ?_⟩ <;>
  · rintro rfl
    exact absurd closesNone (by decide)

theorem bracketWeight_of_nextBrackets?
    (countBraces : Bool)
    {quote : Option Char}
    {brackets next : List Char}
    {c : Char}
    (read : nextBrackets? quote brackets c = some next) :
    bracketWeight countBraces quote c + openCount countBraces brackets =
      openCount countBraces next := by
  cases quote with
  | some sign =>
    cases read
    simp [bracketWeight]
  | none =>
    rcases nextBrackets?_cases read with ⟨opens, rfl⟩ | ⟨opensNone, closesNone, rfl⟩ |
      ⟨opening, opensNone, closes, rfl⟩
    · rw [openCount_cons, Int.add_comm]
      rcases opens with rfl | rfl | rfl <;> cases countBraces <;> rfl
    · have other := opener?_eq_none closesNone
      simp only [not_or] at opensNone
      simp [bracketWeight, other, opensNone]
    · -- A closing sign takes away what its bracket counted.
      have weight : bracketWeight countBraces none c +
          (if !countBraces && opening = '\x7b' then 0 else 1) = 0 := by
        rcases opener?_eq_some closes with ⟨rfl, rfl⟩ | ⟨rfl, rfl⟩ | ⟨rfl, rfl⟩ <;>
          cases countBraces <;> rfl
      rw [openCount_cons]
      omega

/-- Brackets that match are as many as the scanner counts. -/
theorem bracketDepth_eq_openCount
    (countBraces : Bool)
    {quote : Option Char}
    {brackets after text : List Char}
    (read : openBrackets? quote brackets text = some after) :
    bracketDepth.go countBraces quote text =
      openCount countBraces after - openCount countBraces brackets := by
  induction text generalizing quote brackets with
  | nil =>
    cases read
    simp [bracketDepth.go]
  | cons c rest inductionHypothesis =>
    obtain ⟨next, here, later⟩ := openBrackets?_cons_eq_some read
    have weight := bracketWeight_of_nextBrackets? countBraces here
    rw [bracketDepth_cons, inductionHypothesis later]
    omega

theorem bracketDepth_of_openBrackets?
    {quote : Option Char}
    {brackets after text : List Char}
    (read : openBrackets? quote brackets text = some after) :
    bracketDepth.go false quote text = groupCount after - groupCount brackets := by
  rw [groupCount_eq, groupCount_eq]
  exact bracketDepth_eq_openCount false read

/-! ## Texts that leave brackets open -/

/-- The text leaves these brackets open, innermost first, and no quote. -/
structure Leaves (text brackets : List Char) : Prop where
  unquoted : openQuote none text = none
  opened : openBrackets? none [] text = some brackets

instance (text brackets : List Char) : Decidable (Leaves text brackets) :=
  decidable_of_iff (openQuote none text = none ∧ openBrackets? none [] text = some brackets)
    ⟨fun both => ⟨both.1, both.2⟩, fun leaves => ⟨leaves.unquoted, leaves.opened⟩⟩

namespace Leaves

variable {text brackets : List Char}

/-- After a text that leaves nothing open, another text leaves open what it leaves open alone. -/
theorem append_of_balanced
    {lead : List Char}
    (balanced : Leaves lead [])
    (leaves : Leaves text brackets) :
    Leaves (lead ++ text) brackets := by
  refine ⟨?_, ?_⟩
  · rw [openQuote_append, balanced.unquoted, leaves.unquoted]
  · rw [openBrackets?_append, balanced.opened, balanced.unquoted]
    exact leaves.opened

theorem bracketDepth_eq (leaves : Leaves text brackets) :
    bracketDepth false text = groupCount brackets := by
  have counted := bracketDepth_of_openBrackets? leaves.opened
  rw [show groupCount [] = 0 from rfl, Int.sub_zero] at counted
  exact counted

/-- A text that leaves nothing open counts for nothing. -/
theorem bracketDepth_eq_zero
    (leaves : Leaves text [])
    (countBraces : Bool) :
    bracketDepth countBraces text = 0 :=
  bracketDepth_eq_openCount countBraces leaves.opened

/-- The brackets that a further part of a text opens, less those that it closes. -/
theorem bracketDepth_append
    {after brackets' : List Char}
    (leaves : Leaves text brackets)
    (longer : Leaves (text ++ after) brackets') :
    bracketDepth false after = groupCount brackets' - groupCount brackets := by
  have read := longer.opened
  rw [openBrackets?_append, leaves.opened, leaves.unquoted, Option.bind_some] at read
  exact bracketDepth_of_openBrackets? read

theorem not_closing (leaves : Leaves text brackets) : text.head? ≠ some '\x7d' := by
  intro isFirst
  obtain ⟨rest, rfl⟩ := List.head?_eq_some_iff.mp isFirst
  cases leaves.opened

end Leaves

/-! ## Quotes -/

/-- The sign of an open quote is a quote. -/
theorem isQuote_of_openQuote
    {quote : Option Char}
    (known : ∀ sign ∈ quote, IsQuote sign)
    (text : List Char) :
    ∀ sign ∈ openQuote quote text, IsQuote sign := by
  induction text generalizing quote with
  | nil => exact known
  | cons c rest inductionHypothesis =>
    apply inductionHypothesis
    intro sign isOpen
    unfold nextQuote at isOpen
    cases quote with
    | none =>
      simp only [Option.mem_def, Option.ite_none_right_eq_some, Option.some.injEq] at isOpen
      exact isOpen.2 ▸ isOpen.1
    | some open_ =>
      simp only [Option.mem_def, Option.ite_none_left_eq_some, Option.some.injEq] at isOpen
      exact known sign (congrArg some isOpen.2)

theorem nextQuote_of_plain
    {quote : Option Char}
    (known : ∀ sign ∈ quote, IsQuote sign)
    {c : Char}
    (plain : ¬IsQuote c) :
    nextQuote quote c = quote := by
  unfold nextQuote
  cases quote with
  | none => exact if_neg plain
  | some sign =>
    have other : c ≠ sign := by
      rintro rfl
      exact plain (known c rfl)
    exact if_neg other

theorem openQuote_of_plain
    {quote : Option Char}
    (known : ∀ sign ∈ quote, IsQuote sign)
    {text : List Char}
    (plain : ∀ c ∈ text, ¬IsQuote c) :
    openQuote quote text = quote := by
  induction text with
  | nil => rfl
  | cons c rest inductionHypothesis =>
    obtain ⟨notHere, notLater⟩ := List.forall_mem_cons.mp plain
    have stays := nextQuote_of_plain known notHere
    exact (congrArg (openQuote · rest) stays).trans (inductionHypothesis notLater)

/-- Blanks open and close nothing. -/
theorem openBrackets?_of_allBlank
    {gap : List Char}
    (blank : AllBlank gap)
    (quote : Option Char)
    (brackets : List Char) :
    (∀ c ∈ gap, ¬IsQuote c) ∧ openBrackets? quote brackets gap = some brackets := by
  induction gap generalizing quote with
  | nil => exact ⟨by simp, rfl⟩
  | cons c rest inductionHypothesis =>
    obtain ⟨blankHere, blankLater⟩ := List.forall_mem_cons.mp blank
    have solid : ∀ d ∈ bracketSigns, isBlank d = false := by decide
    have apart : ∀ d ∈ bracketSigns, c ≠ d := by
      rintro d isSign rfl
      rw [solid c isSign] at blankHere
      cases blankHere
    obtain ⟨same, notQuote⟩ := nextBrackets?_of_apart apart quote brackets
    refine ⟨List.forall_mem_cons.mpr ⟨notQuote, (inductionHypothesis blankLater none).1⟩, ?_⟩
    rw [openBrackets?, same]
    exact (inductionHypothesis blankLater _).2

namespace Leaves

variable {text brackets : List Char}

/-- A text with an end without quotes: what the text leaves open, the end goes on with. -/
theorem of_append
    {after : List Char}
    (unquotedAfter : ∀ c ∈ after, ¬IsQuote c)
    (leaves : Leaves (text ++ after) brackets) :
    ∃ middle, Leaves text middle ∧ openBrackets? none middle after = some brackets := by
  have unquoted := leaves.unquoted
  have read := leaves.opened
  have known : ∀ sign ∈ openQuote none text, IsQuote sign := isQuote_of_openQuote (by simp) text
  rw [openQuote_append, openQuote_of_plain known unquotedAfter] at unquoted
  rw [openBrackets?_append, unquoted] at read
  obtain ⟨middle, here, later⟩ := Option.bind_eq_some_iff.mp read
  exact ⟨middle, ⟨unquoted, here⟩, later⟩

theorem of_append_blank
    {gap : List Char}
    (blank : AllBlank gap)
    (leaves : Leaves (text ++ gap) brackets) :
    Leaves text brackets := by
  obtain ⟨middle, here, later⟩ := leaves.of_append (openBrackets?_of_allBlank blank none []).1
  cases (openBrackets?_of_allBlank blank none middle).2.symm.trans later
  exact here

theorem of_append_brace (leaves : Leaves (text ++ ['\x7b']) brackets) :
    ∃ outer, brackets = '\x7b' :: outer ∧ Leaves text outer := by
  obtain ⟨middle, here, later⟩ := leaves.of_append (by simp)
  cases later
  exact ⟨middle, rfl, here⟩

/-- A text that leaves nothing open does not end with an opening brace. -/
theorem not_opening (leaves : Leaves text []) : text.getLast? ≠ some '\x7b' := by
  intro isLast
  obtain ⟨before, rfl⟩ := List.getLast?_eq_some_iff.mp isLast
  obtain ⟨_, isOpen, _⟩ := leaves.of_append_brace
  cases isOpen

/-- Without the brace at its end, a text leaves as many groups open. -/
theorem exists_dropSuffix (leaves : Leaves text brackets) :
    ∃ outer, groupCount outer = groupCount brackets ∧ Leaves (trimEnd (dropSuffix '\x7b' text)) outer := by
  by_cases isLast : text.getLast? = some '\x7b'
  · obtain ⟨before, rfl⟩ := List.getLast?_eq_some_iff.mp isLast
    obtain ⟨outer, rfl, opened⟩ := leaves.of_append_brace
    obtain ⟨gap, blank, whole⟩ := exists_trimEnd_append before
    rw [dropSuffix_append_singleton]
    refine ⟨outer, by simp [groupCount_cons], ?_⟩
    exact of_append_blank blank (whole ▸ opened)
  · obtain ⟨gap, blank, whole⟩ := exists_trimEnd_append text
    rw [dropSuffix_of_getLast?_ne isLast]
    exact ⟨brackets, rfl, of_append_blank blank (whole ▸ leaves)⟩

end Leaves

/-! ## Interpolations -/

/-- What can be open where an interpolation of a name starts or ends: nothing, or a quote that was
opened in one of them. -/
inductive AtName : Option Char → List Char → Prop
  | outside : AtName none []
  | quoted {sign : Char} {groups : List Char}
      (isQuote : IsQuote sign)
      (noBrace : '\x7b' ∉ groups) :
      AtName (some sign) (groups ++ ['\x7b'])

theorem AtName.known
    {quote : Option Char}
    {brackets : List Char}
    (atName : AtName quote brackets) :
    ∀ sign ∈ quote, IsQuote sign := by
  cases atName with
  | outside =>
    intro sign isOpen
    cases isOpen
  | quoted isQuote _ =>
    intro sign isOpen
    cases isOpen
    exact isQuote

/-- Without further braces, a brace stays the outermost bracket and the only brace. -/
theorem openBrackets?_inside
    {quote : Option Char}
    {groups after text : List Char}
    (noBrace : '\x7b' ∉ groups)
    (plain : ∀ c ∈ text, c ≠ '\x7b' ∧ c ≠ '\x7d')
    (read : openBrackets? quote (groups ++ ['\x7b']) text = some after) :
    ∃ groups', after = groups' ++ ['\x7b'] ∧ '\x7b' ∉ groups' := by
  induction text generalizing quote groups with
  | nil =>
    cases read
    exact ⟨groups, rfl, noBrace⟩
  | cons c rest inductionHypothesis =>
    obtain ⟨⟨notOpening, notClosing⟩, others⟩ := List.forall_mem_cons.mp plain
    obtain ⟨next, here, later⟩ := openBrackets?_cons_eq_some read
    suffices stays : ∃ groups', next = groups' ++ ['\x7b'] ∧ '\x7b' ∉ groups' by
      obtain ⟨groups', rfl, noBrace'⟩ := stays
      exact inductionHypothesis noBrace' others later
    cases quote with
    | some sign =>
      cases here
      exact ⟨groups, rfl, noBrace⟩
    | none =>
      rcases nextBrackets?_cases here with ⟨_, rfl⟩ | ⟨_, _, rfl⟩ | ⟨opening, _, closes, last⟩
      · exact ⟨c :: groups, rfl, by simpa [Ne.symm notOpening] using noBrace⟩
      · exact ⟨groups, rfl, noBrace⟩
      · cases groups with
        | nil =>
          obtain ⟨rfl, _⟩ := List.cons.inj last
          rcases opener?_eq_some closes with ⟨_, isGroup⟩ | ⟨_, isGroup⟩ | ⟨isClosing, _⟩
          · exact absurd isGroup (by decide)
          · exact absurd isGroup (by decide)
          · exact absurd isClosing notClosing
        | cons first groups =>
          obtain ⟨_, rfl⟩ := List.cons.inj last
          exact ⟨groups, rfl, fun isIn => noBrace (List.mem_cons_of_mem _ isIn)⟩

/-- An interpolation leaves open what was open before it, but for quotes. -/
theorem AtName.interpolation
    {quote : Option Char}
    {brackets after inside : List Char}
    (atName : AtName quote brackets)
    (plain : ∀ c ∈ inside, c ≠ '\x7b' ∧ c ≠ '\x7d')
    (read : openBrackets? quote brackets ('\x7b' :: (inside ++ ['\x7d'])) = some after) :
    AtName (openQuote quote ('\x7b' :: (inside ++ ['\x7d']))) after := by
  obtain ⟨opened, here, later⟩ := openBrackets?_cons_eq_some read
  -- Whether or not the opening brace is quoted, a brace is the outermost bracket after it.
  obtain ⟨groups, rfl, noBrace⟩ : ∃ groups, opened = groups ++ ['\x7b'] ∧ '\x7b' ∉ groups := by
    cases atName with
    | outside =>
      cases here
      exact ⟨[], rfl, List.not_mem_nil⟩
    | @quoted sign groups _ noBrace =>
      cases here
      exact ⟨groups, rfl, noBrace⟩
  have stays : nextQuote quote '\x7b' = quote :=
    nextQuote_of_plain atName.known (by decide)
  rw [stays, openBrackets?_append] at later
  obtain ⟨closed, readInside, readClosing⟩ := Option.bind_eq_some_iff.mp later
  obtain ⟨groups', rfl, noBrace'⟩ := openBrackets?_inside noBrace plain readInside
  obtain ⟨_, closes, isAfter⟩ := openBrackets?_cons_eq_some readClosing
  cases isAfter
  have known := isQuote_of_openQuote atName.known inside
  have quoteAfter : openQuote quote ('\x7b' :: (inside ++ ['\x7d'])) = openQuote quote inside := by
    have start : openQuote quote ('\x7b' :: (inside ++ ['\x7d'])) =
        openQuote (nextQuote quote '\x7b') (inside ++ ['\x7d']) := rfl
    rw [start, stays, openQuote_append]
    exact openQuote_of_plain known (by simp)
  rw [quoteAfter]
  cases isOpen : openQuote quote inside with
  | some sign =>
    rw [isOpen] at closes known
    cases closes
    exact .quoted (known sign rfl) noBrace'
  | none =>
    rw [isOpen] at closes
    rcases nextBrackets?_cases closes with ⟨opens, _⟩ | ⟨_, closesNone, _⟩ | ⟨opening, _, isBrace, last⟩
    · exact absurd opens (by decide)
    · exact absurd closesNone (by decide)
    · cases isBrace
      cases groups' with
      | nil =>
        obtain ⟨_, rfl⟩ := List.cons.inj last
        exact .outside
      | cons first groups' =>
        obtain ⟨rfl, _⟩ := List.cons.inj last
        exact absurd (List.mem_cons_self ..) noBrace'

theorem braced?_eq_some
    {cs inside rest : List Char}
    (closed : Pattern.braced? cs = some (inside, rest)) :
    ∃ plain, inside = plain ++ ['\x7d'] ∧ ∀ c ∈ plain, c ≠ '\x7b' ∧ c ≠ '\x7d' := by
  fun_induction Pattern.braced? cs generalizing inside with
  | case1 => cases closed
  | case2 rest =>
    cases closed
    exact ⟨[], rfl, fun _ isIn => absurd isIn List.not_mem_nil⟩
  | case3 => cases closed
  | case4 c following notClosing notOpening inductionHypothesis =>
    obtain ⟨⟨inner, after⟩, innerClosed, equal⟩ := Option.map_eq_some_iff.mp closed
    obtain ⟨rfl, rfl⟩ := Prod.mk.inj equal
    obtain ⟨plain, rfl, noBraces⟩ := inductionHypothesis innerClosed
    have notBrace : c ≠ '\x7b' ∧ c ≠ '\x7d' :=
      ⟨fun isOpening => notOpening isOpening, fun isClosing => notClosing isClosing⟩
    exact ⟨c :: plain, rfl, List.forall_mem_cons.mpr ⟨notBrace, noBraces⟩⟩

/-- Characters of words are no brackets and no quotes. -/
theorem nextBrackets?_word
    {c : Char}
    (isName : (isWordChar c || c == '-') = true)
    (quote : Option Char)
    (brackets : List Char) :
    nextBrackets? quote brackets c = some brackets ∧ ¬IsQuote c := by
  have apart : ∀ d ∈ bracketSigns, c ≠ d := by
    rintro d isIn rfl
    simp only [bracketSigns, List.mem_cons, List.not_mem_nil, or_false] at isIn
    rcases isIn with rfl | rfl | rfl | rfl | rfl | rfl | rfl | rfl <;> exact absurd isName (by decide)
  exact nextBrackets?_of_apart apart quote brackets

/-- A name leaves no bracket open, unless a quote is open in one of its interpolations. -/
theorem AtName.name
    {text name rest : List Char}
    (isName : Pattern.propertyName text = (name, rest))
    {quote : Option Char}
    {brackets after : List Char}
    (atName : AtName quote brackets)
    (read : openBrackets? quote brackets name = some after) :
    AtName (openQuote quote name) after := by
  fun_induction Pattern.propertyName text generalizing name quote brackets with
  | case1 =>
    cases isName
    cases read
    exact atName
  | case2 c cs isWord inner following split inductionHypothesis =>
    cases isName
    obtain ⟨next, here, later⟩ := openBrackets?_cons_eq_some read
    obtain ⟨same, notQuote⟩ := nextBrackets?_word isWord quote brackets
    cases here.symm.trans same
    have stays := nextQuote_of_plain atName.known notQuote
    have start : openQuote quote (c :: inner) = openQuote (nextQuote quote c) inner := rfl
    rw [stays] at later start
    rw [start]
    exact inductionHypothesis split atName later
  | case3 c cs notWord isBrace inside following closed inner after split inductionHypothesis =>
    cases isName
    obtain rfl : c = '\x7b' := beq_iff_eq.mp isBrace
    obtain ⟨plain, rfl, noBraces⟩ := braced?_eq_some closed
    rw [List.cons_append, ← List.cons_append, openBrackets?_append] at read
    obtain ⟨middle, here, later⟩ := Option.bind_eq_some_iff.mp read
    rw [List.cons_append, ← List.cons_append, openQuote_append]
    exact inductionHypothesis split (atName.interpolation noBraces here) later
  | case4 =>
    cases isName
    cases read
    exact atName
  | case5 =>
    cases isName
    cases read
    exact atName

/-! ## Lines that are cut off within a bracket -/

theorem exists_stop_or_plain (text : List Char) :
    (∃ before sign after, text = before ++ sign :: after ∧ Pattern.IsStop sign) ∨
      ∀ c ∈ text, ¬Pattern.IsStop c := by
  by_cases stops : ∃ sign ∈ text, Pattern.IsStop sign
  · obtain ⟨sign, isIn, isStop⟩ := stops
    obtain ⟨before, after, whole⟩ := List.append_of_mem isIn
    exact .inl ⟨before, sign, after, whole, isStop⟩
  · exact .inr fun c isIn isStop => stops ⟨c, isIn, isStop⟩

/-- Without quotes and brackets that open groups, no groups are opened. -/
theorem groupCount_of_plain
    {brackets after text : List Char}
    (plain : ∀ c ∈ text, ¬Pattern.IsStop c)
    (read : openBrackets? none brackets text = some after) :
    groupCount after ≤ groupCount brackets := by
  induction text generalizing brackets with
  | nil =>
    cases read
    exact Int.le_refl _
  | cons c rest inductionHypothesis =>
    obtain ⟨notStop, others⟩ := List.forall_mem_cons.mp plain
    obtain ⟨next, here, later⟩ := openBrackets?_cons_eq_some read
    simp only [Pattern.IsStop, not_or] at notStop
    have stays : nextQuote none c = none := if_neg (by simpa [not_or] using notStop.1)
    rw [stays] at later
    have rests := inductionHypothesis others later
    have weight := bracketWeight_of_nextBrackets? false here
    rw [← groupCount_eq, ← groupCount_eq] at weight
    have notPositive : bracketWeight false none c ≤ 0 := by
      simp only [bracketWeight, Option.isSome_none, Bool.false_eq_true, if_false, Bool.false_and,
        Bool.or_false, Bool.or_eq_true, beq_iff_eq, notStop.2, or_self]
      split <;> omega
    omega

namespace Leaves

variable {text brackets : List Char} (leaves : Leaves text brackets) (inside : 0 < groupCount brackets)

include leaves inside

/-- Such a text has a sign in it at which names and keywords end. -/
theorem exists_stop : ∃ before sign after, text = before ++ sign :: after ∧ Pattern.IsStop sign := by
  apply (exists_stop_or_plain text).resolve_right
  intro plain
  have fewer := groupCount_of_plain plain leaves.opened
  have nothing : groupCount [] = 0 := rfl
  omega

/-- It is no interpolation. -/
theorem interpolation?_eq_none : Pattern.interpolation? text = none := by
  cases isWhole : Pattern.interpolation? text with
  | none => rfl
  | some inner =>
    have read := leaves.opened
    have unquoted := leaves.unquoted
    rw [Pattern.interpolation?_eq isWhole, List.cons_append] at read unquoted
    have atName := AtName.outside.interpolation (Pattern.interpolation?_plain isWhole) read
    rw [unquoted] at atName
    cases atName
    exact absurd inside (by decide)

/-- If it is a property, its value has such a sign in it. -/
theorem exists_stop_of_property?
    {name value : List Char}
    (found : Pattern.property? text = some (name, value)) :
    ∃ before sign after, value = before ++ sign :: after ∧ Pattern.IsStop sign := by
  apply (exists_stop_or_plain value).resolve_right
  intro plainValue
  obtain ⟨c, gap, stops, blank, isName, whole⟩ := Pattern.property?_eq found
  have notStop : ∀ d, d = ':' ∨ isBlank d = true → ¬Pattern.IsStop d := by
    rintro d (rfl | isBlank) isStop
    · exact absurd isStop (by decide)
    · rw [Pattern.isBlank_of_isStop isStop] at isBlank
      cases isBlank
  have plain : ∀ d ∈ c :: gap ++ value, ¬Pattern.IsStop d := by
    intro d isIn
    rcases List.mem_append.mp isIn with isGap | isValue
    · rcases List.mem_cons.mp isGap with rfl | isGap
      · exact notStop d stops
      · exact notStop d (.inr (blank d isGap))
    · exact plainValue d isValue
  have read := leaves.opened
  have unquoted := leaves.unquoted
  rw [whole, List.append_assoc] at read unquoted
  rw [openBrackets?_append] at read
  obtain ⟨middle, readName, readValue⟩ := Option.bind_eq_some_iff.mp read
  have atName := AtName.outside.name isName readName
  have plainQuotes : ∀ d ∈ c :: gap ++ value, ¬IsQuote d := fun d isIn isQuote =>
    plain d isIn (.inl isQuote)
  rw [openQuote_append, openQuote_of_plain atName.known plainQuotes] at unquoted
  rw [unquoted] at atName readValue
  cases atName
  have fewer := groupCount_of_plain plain readValue
  have nothing : groupCount [] = 0 := rfl
  omega

/-- It is no property if a longer text is none. -/
theorem property?_eq_none
    {rest : List Char}
    (notProperty : Pattern.property? (text ++ rest) = none) :
    Pattern.property? text = none := by
  cases found : Pattern.property? text with
  | none => rfl
  | some parts =>
    obtain ⟨name, value⟩ := parts
    obtain ⟨before, sign, after, rfl, isStop⟩ := leaves.exists_stop_of_property? inside found
    obtain ⟨c, gap, _, _, _, whole⟩ := Pattern.property?_eq found
    rw [whole, ← List.append_assoc] at found notProperty
    have longer := Pattern.property?_local isStop found (after ++ rest)
    rw [List.append_assoc, List.cons_append, longer] at notProperty
    cases notProperty

end Leaves

end StyleSense
