import StyleSense.Number.Decimal
import StyleSense.Text.Blank
import StyleSense.Text.Letter
import StyleSense.Text.Offset
import StyleSense.Token.Basic

/-!
Contract: cutting a fragment of one line into tokens.

Owns:
- `Token.skipGap`, which passes over white space and closed comments;
- `Token.lexeme`, which takes one token off a text that starts with it;
- `tokenize`, the tokens of a fragment with their places.

Does not own: comments that start with `//` or run over several lines, which are blanked out before
a fragment gets here (`StyleSense.Line.Comment`).
-/

namespace StyleSense

open Text

namespace Token

/-- A character that can start a name. -/
def isNameStart (c : Char) : Bool :=
  isLetter c || c == '_' || c == '$'

/-- A character that can continue a name. -/
def isNameChar (c : Char) : Bool :=
  isAlphanumeric c || c == '_' || c == '-' || c == '$'

/-- What follows the first `*/`. -/
def afterComment? : List Char → Option (List Char)
  | [] => none
  | '*' :: '/' :: rest => some rest
  | _ :: rest => afterComment? rest

theorem afterComment?_length_lt
    {cs rest : List Char}
    (closed : afterComment? cs = some rest) :
    rest.length < cs.length := by
  fun_induction afterComment? cs with
  | case1 => simp at closed
  | case2 =>
    cases closed
    simp only [List.length_cons]
    omega
  | case3 _ _ _ inductionHypothesis =>
    have := inductionHypothesis closed
    simp
    omega

/-- Pass over white space and comments. The flag says whether anything was passed over; an unclosed
comment is returned as the text that starts with it. -/
def skipGap (spaced : Bool) : List Char → Except (List Char) (List Char × Bool)
  | [] => .ok ([], spaced)
  | c :: cs =>
    if isBlank c then skipGap true cs
    else if c == '/' && cs.head? == some '*' then
      match _closed : afterComment? cs with
      | some rest => skipGap true rest
      | none => .error (c :: cs)
    else .ok (c :: cs, spaced)
termination_by cs => cs.length
decreasing_by
  · simp
  · have := afterComment?_length_lt _closed
    simp
    omega

theorem skipGap_length_le
    {spaced spacedAfter : Bool}
    {cs rest : List Char}
    (passed : skipGap spaced cs = .ok (rest, spacedAfter)) :
    rest.length ≤ cs.length := by
  fun_induction skipGap spaced cs with
  | case1 => simp_all
  | case2 _ _ _ _ inductionHypothesis =>
    have := inductionHypothesis passed
    simp
    omega
  | case3 _ _ _ _ _ _ closed inductionHypothesis =>
    have := inductionHypothesis passed
    have := afterComment?_length_lt closed
    simp
    omega
  | case4 => simp at passed
  | case5 => simp_all

/-- The value of a string after its opening quote, and what follows its closing one. A backslash
takes the next character as it is. -/
def stringBody? (quote : Char) : List Char → Option (List Char × List Char)
  | [] => none
  | '\\' :: [] => none
  | '\\' :: c :: rest => (stringBody? quote rest).map fun parts => (c :: parts.1, parts.2)
  | c :: rest =>
    if c = quote then some ([], rest)
    else (stringBody? quote rest).map fun parts => (c :: parts.1, parts.2)

/-- A number that starts with `lead`, a digit or the point of a fraction: its digits and what
follows them. A point belongs to it when a digit follows. -/
def numeral (lead : Char) (cs : List Char) : List Char × List Char :=
  let whole := lead :: cs.takeWhile Char.isDigit
  match cs.dropWhile Char.isDigit with
  | '.' :: d :: rest =>
    if d.isDigit then
      (whole ++ '.' :: d :: rest.takeWhile Char.isDigit, rest.dropWhile Char.isDigit)
    else (whole, '.' :: d :: rest)
  | rest => (whole, rest)

/-- The value of the digits of a number, which may have one point. -/
def numeralValue? (digits : List Char) : Option Float :=
  let whole := digits.takeWhile Char.isDigit
  let value (ds : List Char) : Nat := ds.foldl (fun n d => n * 10 + (d.toNat - '0'.toNat)) 0
  match digits.dropWhile Char.isDigit with
  | [] => some (Number.Decimal.nearest false ⟨value whole, 0⟩)
  | _ :: fraction =>
    if fraction.all Char.isDigit then
      some (Number.Decimal.nearest false ⟨value (whole ++ fraction), -(fraction.length : Int)⟩)
    else none

/-- The suffix of a number: a percent sign or letters. -/
def suffix (cs : List Char) : Option String × List Char :=
  match cs with
  | '%' :: rest => (some "%", rest)
  | c :: _ =>
    if isLetter c then (some (String.ofList (cs.takeWhile isLetter)), cs.dropWhile isLetter)
    else (none, cs)
  | [] => (none, [])

/-- The body of `url()` without the blanks and quotes around it. -/
def urlBody (cs : List Char) : String :=
  let isQuote (c : Char) : Bool := c == '"' || c == '\''
  String.ofList ((((trim cs).dropWhile isQuote).reverse.dropWhile isQuote).reverse)

/-- The result of taking one token off a text. A fault comes with the number of bytes between the
start of the token and the place of the fault. -/
abbrev Taken := Except (Fault × Nat) (Kind × List Char)

/-- Brackets and the comma. -/
def punctuation? : Char → Option Kind
  | '(' => some (.opening .round)
  | ')' => some (.closing .round)
  | '[' => some (.opening .square)
  | ']' => some (.closing .square)
  | '\x7b' => some (.opening .curly)
  | '\x7d' => some (.closing .curly)
  | ',' => some .comma
  | _ => none

/-- The string that `quote` opens. -/
def takeString (quote : Char) (cs : List Char) : Taken :=
  match stringBody? quote cs with
  | some (value, rest) => .ok (.string (String.ofList value), rest)
  | none => .error (.unterminatedString, 0)

/-- The hash sign and the name characters after it. -/
def takeHash (cs : List Char) : Taken :=
  .ok (.hash (String.ofList ('#' :: cs.takeWhile isNameChar)), cs.dropWhile isNameChar)

/-- The name that starts with `lead`. -/
def takeName (lead : Char) (cs : List Char) : Taken :=
  .ok (.name (String.ofList (lead :: cs.takeWhile isNameChar)), cs.dropWhile isNameChar)

/-- The number that starts with `lead`, a digit or a point. -/
def takeNumber (lead : Char) (cs : List Char) : Taken :=
  let (digits, rest) := numeral lead cs
  match numeralValue? digits with
  | some value => .ok (.number value (suffix rest).1, (suffix rest).2)
  | none => .error (.invalidNumber (String.ofList digits), 0)

/-- What stands between the parentheses of `url()`, after the opening one. -/
def takeUrl (inside : List Char) : Taken :=
  match inside.dropWhile (· != ')') with
  | _ :: rest => .ok (.url (urlBody (inside.takeWhile (· != ')'))), rest)
  | [] => .error (.unclosedUrl, 3)

/-- A name, or `url()` with its body. -/
def takeWord (lead : Char) (cs : List Char) : Taken :=
  if lead :: cs.takeWhile isNameChar = ['u', 'r', 'l'] then
    match cs.dropWhile isNameChar with
    | '(' :: inside => takeUrl inside
    | _ => takeName lead cs
  else takeName lead cs

/-- The operator that starts with `lead`. -/
def takeOperator (lead : Char) (cs : List Char) : Taken :=
  match Operator.read? (lead :: cs) with
  | some (op, rest) => .ok (.op op, rest)
  | none => .error (.unexpectedCharacter lead, 0)

/-- Take one token off a text that starts with `c`. -/
def lexeme (c : Char) (cs : List Char) : Taken :=
  let nextIs (p : Char → Bool) : Bool := cs.head?.any p
  match punctuation? c with
  | some kind => .ok (kind, cs)
  | none =>
    if c == '"' || c == '\'' then takeString c cs
    else if c == '#' then takeHash cs
    else if c == '@' && nextIs isNameStart then takeName c cs
    else if c == '!' && nextIs isLetter then takeName c cs
    else if c == '-' && nextIs (fun d => isNameStart d || d == '-') then takeName c cs
    else if c.isDigit then takeNumber c cs
    else if c == '.' && nextIs Char.isDigit then takeNumber c cs
    else if isNameStart c then takeWord c cs
    else takeOperator c cs

theorem length_dropWhile_le_length
    (p : Char → Bool)
    (cs : List Char) :
    (cs.dropWhile p).length ≤ cs.length :=
  (List.dropWhile_sublist p).length_le

theorem stringBody?_length_le
    {quote : Char}
    {cs value rest : List Char}
    (closed : stringBody? quote cs = some (value, rest)) :
    rest.length ≤ cs.length := by
  fun_induction stringBody? quote cs generalizing value with
  | case1 => simp at closed
  | case2 => simp at closed
  | case3 _ _ inductionHypothesis =>
    simp only [Option.map_eq_some_iff, Prod.mk.injEq, Prod.exists] at closed
    obtain ⟨_, _, inner, _, rfl⟩ := closed
    have := inductionHypothesis inner
    simp
    omega
  | case4 => simp_all
  | case5 _ _ _ _ _ inductionHypothesis =>
    simp only [Option.map_eq_some_iff, Prod.mk.injEq, Prod.exists] at closed
    obtain ⟨_, _, inner, _, rfl⟩ := closed
    have := inductionHypothesis inner
    simp
    omega

theorem numeral_length_le
    (lead : Char)
    (cs : List Char) :
    (numeral lead cs).2.length ≤ cs.length := by
  have bound := length_dropWhile_le_length Char.isDigit cs
  unfold numeral
  split
  · rename_i d rest split
    rw [split] at bound
    simp only [List.length_cons] at bound
    split
    · have := length_dropWhile_le_length Char.isDigit rest
      simp only
      omega
    · simp only [List.length_cons]
      omega
  · exact bound

theorem suffix_length_le (cs : List Char) : (suffix cs).2.length ≤ cs.length := by
  unfold suffix
  split
  · simp
  · split
    · exact length_dropWhile_le_length _ _
    · exact Nat.le_refl _
  · exact Nat.le_refl _

theorem takeString_length_le
    {quote : Char}
    {cs rest : List Char}
    {kind : Kind}
    (taken : takeString quote cs = .ok (kind, rest)) :
    rest.length ≤ cs.length := by
  unfold takeString at taken
  split at taken
  · rename_i closed
    simp only [Except.ok.injEq, Prod.mk.injEq] at taken
    exact taken.2 ▸ stringBody?_length_le closed
  · simp at taken

theorem takeName_length_le
    {lead : Char}
    {cs rest : List Char}
    {kind : Kind}
    (taken : takeName lead cs = .ok (kind, rest)) :
    rest.length ≤ cs.length := by
  simp only [takeName, Except.ok.injEq, Prod.mk.injEq] at taken
  exact taken.2 ▸ length_dropWhile_le_length isNameChar cs

theorem takeHash_length_le
    {cs rest : List Char}
    {kind : Kind}
    (taken : takeHash cs = .ok (kind, rest)) :
    rest.length ≤ cs.length := by
  simp only [takeHash, Except.ok.injEq, Prod.mk.injEq] at taken
  exact taken.2 ▸ length_dropWhile_le_length isNameChar cs

theorem takeNumber_length_le
    {lead : Char}
    {cs rest : List Char}
    {kind : Kind}
    (taken : takeNumber lead cs = .ok (kind, rest)) :
    rest.length ≤ cs.length := by
  simp only [takeNumber] at taken
  split at taken
  · simp only [Except.ok.injEq, Prod.mk.injEq] at taken
    exact taken.2 ▸ Nat.le_trans (suffix_length_le _) (numeral_length_le lead cs)
  · simp at taken

theorem takeUrl_length_lt
    {inside rest : List Char}
    {kind : Kind}
    (taken : takeUrl inside = .ok (kind, rest)) :
    rest.length < inside.length := by
  have bound := length_dropWhile_le_length (· != ')') inside
  unfold takeUrl at taken
  split at taken
  · rename_i split
    simp only [Except.ok.injEq, Prod.mk.injEq] at taken
    rw [split, List.length_cons, taken.2] at bound
    omega
  · simp at taken

theorem takeWord_length_le
    {lead : Char}
    {cs rest : List Char}
    {kind : Kind}
    (taken : takeWord lead cs = .ok (kind, rest)) :
    rest.length ≤ cs.length := by
  have bound := length_dropWhile_le_length isNameChar cs
  unfold takeWord at taken
  split at taken
  · split at taken
    · rename_i split
      have := takeUrl_length_lt taken
      rw [split, List.length_cons] at bound
      omega
    · exact takeName_length_le taken
  · exact takeName_length_le taken

theorem takeOperator_length_le
    {lead : Char}
    {cs rest : List Char}
    {kind : Kind}
    (taken : takeOperator lead cs = .ok (kind, rest)) :
    rest.length ≤ cs.length := by
  unfold takeOperator at taken
  split at taken
  · rename_i found
    simp only [Except.ok.injEq, Prod.mk.injEq] at taken
    have := Operator.read?_length_lt found
    rw [taken.2, List.length_cons] at this
    omega
  · simp at taken

/-- A token takes at least its first character. -/
theorem lexeme_length_le
    {c : Char}
    {cs rest : List Char}
    {kind : Kind}
    (taken : lexeme c cs = .ok (kind, rest)) :
    rest.length ≤ cs.length := by
  unfold lexeme at taken
  split at taken
  · simp_all
  · simp only at taken
    repeat' split at taken
    · exact takeString_length_le taken
    · exact takeHash_length_le taken
    · exact takeName_length_le taken
    · exact takeName_length_le taken
    · exact takeName_length_le taken
    · exact takeNumber_length_le taken
    · exact takeNumber_length_le taken
    · exact takeWord_length_le taken
    · exact takeOperator_length_le taken

end Token

/-- The tokens of what is left of a fragment: the fragment stands on `line` from byte `offset` on
and is `total` bytes wide. -/
def tokenizeFrom (line offset total : Nat) (cs : List Char) :
    Except ParseError (List Token) :=
  let place (rest : List Char) : SourcePos := ⟨line, offset + (total - width rest) + 1⟩
  match _passed : Token.skipGap false cs with
  | .error comment => .error ⟨.unclosedComment, place comment⟩
  | .ok ([], _) => .ok []
  | .ok (c :: following, spaced) =>
    let start := place (c :: following)
    match _taken : Token.lexeme c following with
    | .error (fault, distance) => .error ⟨fault, { start with column := start.column + distance }⟩
    | .ok (kind, rest) =>
      match tokenizeFrom line offset total rest with
      | .error error => .error error
      | .ok tokens => .ok (⟨kind, start, spaced⟩ :: tokens)
termination_by cs.length
decreasing_by
  have := Token.skipGap_length_le _passed
  have := Token.lexeme_length_le _taken
  simp only [List.length_cons] at *
  omega

/-- The tokens of a fragment of line `line` that starts at byte `offset` of it. -/
def tokenize (fragment : List Char) (line offset : Nat) : Except ParseError (List Token) :=
  tokenizeFrom line offset (width fragment) fragment

end StyleSense
