import StyleSense.Json.Number

/-!
Contract: reading JSON texts.

Owns:
- `Json.Lexeme` and `Json.lexemes?`, the lexical level;
- `Json.ofText?`, which accepts one value with blanks around it and refuses anything else;
- `Json.ofTextLoosely?`, which accepts every text of the right form.

Some values can be written but not held: a number that is too large, and a text with half of a
surrogate pair. `Json.ofText?` refuses a text with such a value anywhere, and one in which values
are nested more than `maxDepth` levels deep. `Json.ofTextLoosely?` puts `Json.unheld` in the place
of such a value, so that it does no harm where nobody looks.

Does not own: the value of a number text (`StyleSense.Json.Number`).
-/

namespace StyleSense.Json

/-- Containers may be nested this deep. -/
def maxDepth : Nat := 127

/-- The lexical elements of a JSON text: punctuation and scalar values. -/
inductive Lexeme where
  | openArray
  | closeArray
  | openObject
  | closeObject
  | comma
  | colon
  | scalar (value : Json)
  /-- A number that is too large. -/
  | unheldNumber
  /-- A text with half of a surrogate pair. -/
  | unheldText
deriving Repr

/-- Whether the lexeme is no value that cannot be held. -/
def Lexeme.isHeld : Lexeme → Bool
  | unheldNumber | unheldText => false
  | _ => true

/-- The characters that may stand between lexemes. -/
def isTextBlank (c : Char) : Bool :=
  c == ' ' || c == '\n' || c == '\t' || c == '\r'

/-- The value of a hexadecimal digit. -/
def hexValue? (c : Char) : Option Nat :=
  if c.isDigit then some (c.toNat - '0'.toNat)
  else if 'a' ≤ c ∧ c ≤ 'f' then some (c.toNat - 'a'.toNat + 10)
  else if 'A' ≤ c ∧ c ≤ 'F' then some (c.toNat - 'A'.toNat + 10)
  else none

/-- The code unit of four hexadecimal digits. -/
def codeUnit? (a b c d : Char) : Option Nat := do
  let a ← hexValue? a
  let b ← hexValue? b
  let c ← hexValue? c
  let d ← hexValue? d
  return ((a * 16 + b) * 16 + c) * 16 + d

/-- The first code unit of a pair. -/
def isHighSurrogate (unit : Nat) : Bool :=
  0xD800 ≤ unit && unit ≤ 0xDBFF

/-- The second code unit of a pair. -/
def isLowSurrogate (unit : Nat) : Bool :=
  0xDC00 ≤ unit && unit ≤ 0xDFFF

/-- The character for which an escape of one letter stands. -/
def simpleEscape? : Char → Option Char
  | '"' => some '"'
  | '\\' => some '\\'
  | '/' => some '/'
  | 'b' => some '\x08'
  | 'f' => some '\x0c'
  | 'n' => some '\n'
  | 'r' => some '\r'
  | 't' => some '\t'
  | _ => none

/-- The characters of a string after its opening quote, and what follows its closing one. A
surrogate must be half of a pair. -/
def stringBody? : List Char → Option (List Char × List Char)
  | [] => none
  | '"' :: rest => some ([], rest)
  | '\\' :: 'u' :: a :: b :: c :: d :: '\\' :: 'u' :: e :: f :: g :: h :: rest => do
    let first ← codeUnit? a b c d
    if isLowSurrogate first then none
    else if isHighSurrogate first then
      let second ← codeUnit? e f g h
      if isLowSurrogate second then
        let (body, after) ← stringBody? rest
        return (Char.ofNat (0x10000 + (first - 0xD800) * 0x400 + (second - 0xDC00)) :: body, after)
      else none
    else
      let (body, after) ← stringBody? ('\\' :: 'u' :: e :: f :: g :: h :: rest)
      return (Char.ofNat first :: body, after)
  | '\\' :: 'u' :: a :: b :: c :: d :: rest => do
    let unit ← codeUnit? a b c d
    if isLowSurrogate unit || isHighSurrogate unit then none
    else
      let (body, after) ← stringBody? rest
      return (Char.ofNat unit :: body, after)
  | '\\' :: c :: rest => do
    let plain ← simpleEscape? c
    let (body, after) ← stringBody? rest
    return (plain :: body, after)
  | c :: rest =>
    if c.toNat < 0x20 || c == '\\' then none
    else do
      let (body, after) ← stringBody? rest
      return (c :: body, after)

/-- What follows the closing quote of a string of which only the form counts: an escape with four
hexadecimal digits may stand for any code unit. -/
def afterString? : List Char → Option (List Char)
  | [] => none
  | '"' :: rest => some rest
  | '\\' :: 'u' :: a :: b :: c :: d :: rest => do
    let _ ← codeUnit? a b c d
    afterString? rest
  | '\\' :: c :: rest => do
    let _ ← simpleEscape? c
    afterString? rest
  | c :: rest => if c.toNat < 0x20 || c == '\\' then none else afterString? rest

/-- The string after an opening quote, and what follows its closing quote. -/
def stringLexeme? (cs : List Char) : Option (Lexeme × List Char) :=
  match stringBody? cs with
  | some (body, rest) => some (.scalar (.string (String.ofList body)), rest)
  | none => (afterString? cs).map fun rest => (.unheldText, rest)

/-- The number that a text is. -/
def numberLexeme? (cs : List Char) : Option Lexeme :=
  (Number.Parts.ofText? cs).map fun parts =>
    match parts.value? with
    | some value => .scalar (.number value)
    | none => .unheldNumber

/-- The characters of which numbers are made. -/
def isNumberChar (c : Char) : Bool :=
  c.isDigit || c == '-' || c == '+' || c == '.' || c == 'e' || c == 'E'

/-- Read the text from left to right. `fuel` is at least the number of characters left. -/
def lexemesFrom : (fuel : Nat) → List Char → Option (List Lexeme)
  | 0, _ => some []
  | _ + 1, [] => some []
  | fuel + 1, c :: cs =>
    if isTextBlank c then lexemesFrom fuel cs
    else if c == '"' then do
      let (text, rest) ← stringLexeme? cs
      return text :: (← lexemesFrom fuel rest)
    else if isNumberChar c then do
      let number ← numberLexeme? (c :: cs.takeWhile isNumberChar)
      return number :: (← lexemesFrom fuel (cs.dropWhile isNumberChar))
    else match c, cs with
      | '[', _ => return .openArray :: (← lexemesFrom fuel cs)
      | ']', _ => return .closeArray :: (← lexemesFrom fuel cs)
      | '\x7b', _ => return .openObject :: (← lexemesFrom fuel cs)
      | '\x7d', _ => return .closeObject :: (← lexemesFrom fuel cs)
      | ',', _ => return .comma :: (← lexemesFrom fuel cs)
      | ':', _ => return .colon :: (← lexemesFrom fuel cs)
      | 'n', 'u' :: 'l' :: 'l' :: rest => return .scalar .null :: (← lexemesFrom fuel rest)
      | 't', 'r' :: 'u' :: 'e' :: rest => return .scalar (.bool true) :: (← lexemesFrom fuel rest)
      | 'f', 'a' :: 'l' :: 's' :: 'e' :: rest =>
        return .scalar (.bool false) :: (← lexemesFrom fuel rest)
      | _, _ => none

/-- The lexical elements of a text. -/
def lexemes? (cs : List Char) : Option (List Lexeme) :=
  lexemesFrom cs.length cs

/-- A field that is being read; it has no name when its name cannot be held. -/
abbrev Field := Option String × Json

/-- An object with its fields, last first. An object with a name that cannot be held cannot be held
either. -/
def ofFields (fields : List Field) : Json :=
  match fields.reverse.mapM fun (name, value) => name.map fun name => (name, value) with
  | some fields => .object fields
  | none => unheld

/-- A container that is still open, its contents last first; an object also holds the name whose
value is being read. -/
inductive Frame where
  | array (items : List Json)
  | object (fields : List Field) (name : Option String)

/-- What may come next. -/
inductive Expect where
  | value
  | valueOrClose
  | nameOrClose (fields : List Field)
  | name (fields : List Field)
  | colon (fields : List Field) (name : Option String)
  | separator (value : Json)

/-- The value that a lexical element is by itself. -/
def Lexeme.value? : Lexeme → Option Json
  | scalar value => some value
  | unheldNumber | unheldText => some unheld
  | _ => none

/-- The name that a lexical element is. -/
def Lexeme.name? : Lexeme → Option (Option String)
  | scalar (.string name) => some (some name)
  | unheldText => some none
  | _ => none

/-- Assemble a value from lexical elements; at most `deepest` containers may be open at a time, if
that is given. -/
def assemble (deepest : Option Nat) : Expect → List Frame → List Lexeme → Option Json
  | .separator value, [], [] => some value
  | _, _, [] => none
  | expect, frames, lexeme :: rest =>
    let hasRoom := deepest.all fun most => frames.length < most
    match expect, lexeme with
    | .value, .openArray | .valueOrClose, .openArray =>
      if hasRoom then assemble deepest .valueOrClose (.array [] :: frames) rest else none
    | .value, .openObject | .valueOrClose, .openObject =>
      if hasRoom then assemble deepest (.nameOrClose []) (.object [] none :: frames) rest
      else none
    | .valueOrClose, .closeArray =>
      match frames with
      | .array _ :: outer => assemble deepest (.separator (.array [])) outer rest
      | _ => none
    | .value, scalar | .valueOrClose, scalar =>
      match scalar.value? with
      | some value => assemble deepest (.separator value) frames rest
      | none => none
    | .nameOrClose _, .closeObject =>
      match frames with
      | .object _ _ :: outer => assemble deepest (.separator (.object [])) outer rest
      | _ => none
    | .nameOrClose fields, text | .name fields, text =>
      match text.name? with
      | some name => assemble deepest (.colon fields name) frames rest
      | none => none
    | .colon fields name, .colon =>
      match frames with
      | .object _ _ :: outer => assemble deepest .value (.object fields name :: outer) rest
      | _ => none
    | .separator value, .comma =>
      match frames with
      | .array items :: outer => assemble deepest .value (.array (value :: items) :: outer) rest
      | .object fields name :: outer =>
        assemble deepest (.name ((name, value) :: fields)) (.object [] none :: outer) rest
      | [] => none
    | .separator value, .closeArray =>
      match frames with
      | .array items :: outer =>
        assemble deepest (.separator (.array (value :: items).reverse)) outer rest
      | _ => none
    | .separator value, .closeObject =>
      match frames with
      | .object fields name :: outer =>
        assemble deepest (.separator (ofFields ((name, value) :: fields))) outer rest
      | _ => none
    | _, _ => none

/-- The value of a JSON text. -/
def ofText? (text : String) : Option Json := do
  let lexemes ← lexemes? text.toList
  if lexemes.all Lexeme.isHeld then assemble (some maxDepth) .value [] lexemes else none

/-- The value of a text of the right form, with `unheld` in the place of what cannot be held. -/
def ofTextLoosely? (text : String) : Option Json :=
  (lexemes? text.toList).bind (assemble none .value [])

end StyleSense.Json
