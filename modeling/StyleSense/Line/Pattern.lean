import StyleSense.Text.Blank
import StyleSense.Text.Letter
import StyleSense.Text.Offset

/-!
Contract: the shapes by which statements are told apart.

Owns:
- `assignment?`: a name, an assignment sign, and no second `=` after it;
- `functionHead?`: a name and parameters in parentheses, and nothing else;
- `interpolation?`: braces around a text without braces;
- `property?`: a name and a value after a colon or blanks, where the value does not start like the
  rest of an expression.

Does not own: what is done with a statement of such a shape (`StyleSense.Statement.Basic`).
-/

namespace StyleSense.Pattern

open Text

/-- A character of the name of a variable or a function. -/
def isNameChar (c : Char) : Bool :=
  isWordChar c || c == '$' || c == '-'

/-- What follows an assignment sign, `?=`, `:=` or `=`, unless it starts with another `=`. -/
def afterAssign? : List Char → Option (List Char)
  | '?' :: '=' :: rest => notEqual rest
  | ':' :: '=' :: rest => notEqual rest
  | '=' :: rest => notEqual rest
  | _ => none
where
  notEqual (rest : List Char) : Option (List Char) :=
    if rest.head? = some '=' then none else some rest

/-- The name and the value text of an assignment. -/
def assignment? (text : List Char) : Option (List Char × List Char) :=
  let name := text.takeWhile isNameChar
  if name.isEmpty then none
  else (afterAssign? (trimStart (text.dropWhile isNameChar))).map fun value => (name, value)

/-- The name and the parameter text of a function head. -/
def functionHead? (text : List Char) : Option (List Char × List Char) :=
  let name := text.takeWhile isNameChar
  let isInside (c : Char) : Bool := c != '(' && c != ')'
  match text.dropWhile isNameChar with
  | '(' :: rest =>
    if !name.isEmpty && rest.dropWhile isInside == [')'] then some (name, rest.takeWhile isInside)
    else none
  | _ => none

/-- The text between the braces of a line that is nothing but an interpolation. -/
def interpolation? (text : List Char) : Option (List Char) :=
  match text with
  | '\x7b' :: rest =>
    let inside := rest.takeWhile fun c => c != '\x7b' && c != '\x7d'
    if !inside.isEmpty && rest.drop inside.length == ['\x7d'] then some inside else none
  | _ => none

/-- The part of a text that is inside braces, and what follows the closing one. -/
def braced? : List Char → Option (List Char × List Char)
  | [] => none
  | '\x7d' :: rest => some (['\x7d'], rest)
  | '\x7b' :: _ => none
  | c :: rest => (braced? rest).map fun parts => (c :: parts.1, parts.2)

/-- An interpolation takes at least its braces. -/
theorem braced?_length_lt
    {cs inside rest : List Char}
    (closed : braced? cs = some (inside, rest)) :
    rest.length < cs.length := by
  fun_induction braced? cs generalizing inside with
  | case1 => simp at closed
  | case2 => simp_all
  | case3 => simp at closed
  | case4 _ _ _ _ inductionHypothesis =>
    simp only [Option.map_eq_some_iff, Prod.mk.injEq, Prod.exists] at closed
    obtain ⟨_, _, inner, _, rfl⟩ := closed
    have := inductionHypothesis inner
    simp
    omega

/-- The longest property name at the start of a text: word characters, hyphens and interpolations;
and what follows it. -/
def propertyName (text : List Char) : List Char × List Char :=
  match text with
  | [] => ([], [])
  | c :: cs =>
    if isWordChar c || c == '-' then
      let (name, rest) := propertyName cs
      (c :: name, rest)
    else if c == '\x7b' then
      match _closed : braced? cs with
      | some (inside, following) =>
        let (name, rest) := propertyName following
        (c :: inside ++ name, rest)
      | none => ([], c :: cs)
    else ([], c :: cs)
termination_by text.length
decreasing_by
  · simp
  · have := braced?_length_lt _closed
    simp
    omega

/-- Signs that make what follows a name the rest of an expression. -/
def continuationSigns : List String :=
  ["?", "=", "!=", "<", ">", "*", "/", "%", "+", "- ", "&&", "||", "..."]

/-- Words that make what follows a name the rest of an expression. -/
def continuationWords : List String :=
  ["and", "or", "is", "in", "isnt"]

/-- What follows a name is the rest of an expression. -/
def continuesExpression (value : List Char) : Bool :=
  continuationSigns.any (fun sign => sign.toList.isPrefixOf value)
    || continuationWords.contains (String.ofList (firstWord value))

/-- The name and the value text of a property. -/
def property? (text : List Char) : Option (List Char × List Char) :=
  let (name, rest) := propertyName text
  let value? := match rest with
    | [] => none
    | c :: following => if c == ':' || isBlank c then some (trimStart following) else none
  match value? with
  | none => none
  | some value =>
    if name.isEmpty || value.isEmpty || continuesExpression value then none
    else some (name, value)

end StyleSense.Pattern
