import StyleSense.Json.Number
import StyleSense.Toml.Table

/-!
Contract: reading settings files.

The format has tables with headers, keys with dots, texts in four kinds of quotes, numbers, dates,
truth values, lists and tables on one line, and comments from `#` to the end of a line. Keys with
too many parts, lists and tables that are nested too deep, and numbers that are too large are
refused.

Owns: `Toml.read?`, the content of a file as JSON.

Does not own: the meaning of the keys (`StyleSense.Settings.Json`).
-/

namespace StyleSense.Toml

/-! ## Blanks, comments and texts -/

/-- The blanks within a line. -/
private def isSpace (c : Char) : Bool :=
  c == ' ' || c == '\t'

/-- What follows the blanks at the start. -/
private def skipSpace (cs : List Char) : List Char :=
  cs.dropWhile isSpace

/-- A character that may stand in a comment or in a text on one line. -/
private def isPlain (c : Char) : Bool :=
  c == '\t' || (0x20 ≤ c.toNat && c.toNat != 0x7F)

/-- What follows a comment, which starts here if there is one. -/
private def skipComment? : List Char → Option (List Char)
  | '#' :: rest =>
    if (rest.takeWhile (· != '\n')).all isPlain then some (rest.dropWhile (· != '\n')) else none
  | cs => some cs

/-- What follows the end of a line, before which only blanks and a comment may stand. -/
private def endOfLine? (cs : List Char) : Option (List Char) :=
  match skipComment? (skipSpace cs) with
  | some [] => some []
  | some ('\n' :: rest) => some rest
  | _ => none

/-- What follows blanks, comments and line ends; `fuel` bounds their number. -/
private def skipLines? : (fuel : Nat) → List Char → Option (List Char)
  | 0, cs => some cs
  | fuel + 1, cs =>
    match skipSpace cs with
    | '\n' :: rest => skipLines? fuel rest
    | '#' :: rest => (skipComment? ('#' :: rest)).bind (skipLines? fuel)
    | rest => some rest

/-- The value of a hexadecimal digit. -/
private def hexValue? (c : Char) : Option Nat :=
  if '0' ≤ c ∧ c ≤ '9' then some (c.toNat - '0'.toNat)
  else if 'a' ≤ c ∧ c ≤ 'f' then some (c.toNat - 'a'.toNat + 10)
  else if 'A' ≤ c ∧ c ≤ 'F' then some (c.toNat - 'A'.toNat + 10)
  else none

/-- The character with a code of a given number of hexadecimal digits. -/
private def codePoint? (count : Nat) (cs : List Char) : Option (Char × List Char) := do
  let digits ← (cs.take count).mapM hexValue?
  let code := digits.foldl (fun n digit => n * 16 + digit) 0
  if digits.length = count ∧ code.isValidChar then some (Char.ofNat code, cs.drop count) else none

/-- The character that an escape stands for, after its backslash. -/
private def escape? : List Char → Option (Char × List Char)
  | 'b' :: rest => some ('\x08', rest)
  | 't' :: rest => some ('\t', rest)
  | 'n' :: rest => some ('\n', rest)
  | 'f' :: rest => some ('\x0c', rest)
  | 'r' :: rest => some ('\r', rest)
  | '"' :: rest => some ('"', rest)
  | '\\' :: rest => some ('\\', rest)
  | 'u' :: rest => codePoint? 4 rest
  | 'U' :: rest => codePoint? 8 rest
  | _ => none

/-- The rest of a text in double quotes. -/
private def basicText? : (fuel : Nat) → List Char → Option (List Char × List Char)
  | 0, _ => none
  | _ + 1, [] => none
  | _ + 1, '"' :: rest => some ([], rest)
  | fuel + 1, '\\' :: rest => do
    let (c, rest) ← escape? rest
    let (text, rest) ← basicText? fuel rest
    return (c :: text, rest)
  | fuel + 1, c :: rest =>
    if isPlain c then (basicText? fuel rest).map fun (text, rest) => (c :: text, rest) else none

/-- The rest of a text in single quotes. -/
private def literalText? (cs : List Char) : Option (List Char × List Char) :=
  let text := cs.takeWhile (· != '\'')
  match cs.dropWhile (· != '\'') with
  | _ :: rest => if text.all isPlain then some (text, rest) else none
  | [] => none

/-- The quotes that end a text over several lines, of which up to two may belong to the text. -/
private def closing? (quote : Char) (cs : List Char) : Option (List Char × List Char) :=
  let count := min 5 (cs.takeWhile (· == quote)).length
  if 3 ≤ count then some (List.replicate (count - 3) quote, cs.drop count) else none

/-- The rest of a text over several lines in double quotes. -/
private def longBasicText? : (fuel : Nat) → List Char → Option (List Char × List Char)
  | 0, _ => none
  | _ + 1, [] => none
  | fuel + 1, '\\' :: rest =>
    match skipSpace rest with
    | '\n' :: after =>
      longBasicText? fuel (after.dropWhile fun c => isSpace c || c == '\n')
    | _ => do
      let (c, rest) ← escape? rest
      let (text, rest) ← longBasicText? fuel rest
      return (c :: text, rest)
  | fuel + 1, c :: rest =>
    match closing? '"' (c :: rest) with
    | some found => some found
    | none =>
      if isPlain c || c == '\n' then
        (longBasicText? fuel rest).map fun (text, rest) => (c :: text, rest)
      else none

/-- The rest of a text over several lines in single quotes. -/
private def longLiteralText? : List Char → Option (List Char × List Char)
  | [] => none
  | c :: rest =>
    match closing? '\'' (c :: rest) with
    | some found => some found
    | none =>
      if isPlain c || c == '\n' then
        (longLiteralText? rest).map fun (text, rest) => (c :: text, rest)
      else none

/-- The line end right after the opening quotes does not count. -/
private def dropLineEnd : List Char → List Char
  | '\n' :: rest => rest
  | cs => cs

/-- A text of any kind. -/
private def text? : List Char → Option (List Char × List Char)
  | '"' :: '"' :: '"' :: rest => longBasicText? rest.length (dropLineEnd rest)
  | '\'' :: '\'' :: '\'' :: rest => longLiteralText? (dropLineEnd rest)
  | '"' :: rest => basicText? rest.length rest
  | '\'' :: rest => literalText? rest
  | _ => none

/-! ## Keys -/

/-- The characters of a key without quotes. -/
private def isBare (c : Char) : Bool :=
  c.isAlphanum || c == '_' || c == '-'

/-- A key without dots. -/
private def simpleKey? : List Char → Option (String × List Char)
  | '"' :: rest => (basicText? rest.length rest).map fun (text, rest) => (String.ofList text, rest)
  | '\'' :: rest => (literalText? rest).map fun (text, rest) => (String.ofList text, rest)
  | cs =>
    let name := cs.takeWhile isBare
    if name.isEmpty then none else some (String.ofList name, cs.dropWhile isBare)

/-- The parts of a key between dots; `room` bounds their number. -/
private def keyParts? : (room : Nat) → List Char → Option (List String × List Char)
  | 0, _ => none
  | room + 1, cs => do
    let (name, rest) ← simpleKey? cs
    match skipSpace rest with
    | '.' :: more =>
      let (names, rest) ← keyParts? room (skipSpace more)
      return (name :: names, rest)
    | rest => return ([name], rest)

/-- Greatest number of parts of a key, and of lists and tables that stand in one another. -/
private def maxNesting : Nat := 79

/-- A key with its parts between dots. -/
private def key? (cs : List Char) : Option (List String × List Char) :=
  keyParts? maxNesting cs

/-! ## Numbers -/

/-- Digits with underscores between them, without the underscores. -/
private def digits? (isDigit : Char → Bool) (cs : List Char) : Option (List Char) :=
  let groups := cs.splitOn '_'
  if groups.all fun group => !group.isEmpty && group.all isDigit then some groups.flatten else none

/-- Greatest whole number. -/
private def maxWhole : Nat := Nat.pow 2 63 - 1

/-- A whole number in a given base. -/
private def based? (base : Nat) (cs : List Char) : Option Json := do
  let isDigit (c : Char) : Bool := (hexValue? c).any (· < base)
  let digits ← digits? isDigit cs
  let value := digits.foldl (fun n c => n * base + (hexValue? c).getD 0) 0
  if value ≤ maxWhole then some (.ofNat value) else none

/-- Split off a sign. -/
private def signed : List Char → Bool × List Char
  | '-' :: rest => (true, rest)
  | '+' :: rest => (false, rest)
  | cs => (false, cs)

/-- A decimal numeral without a sign, with no needless zero in front. -/
private def decimal? (cs : List Char) : Option (List Char) :=
  (digits? Char.isDigit cs).bind fun digits =>
    if 1 < digits.length ∧ digits.head? = some '0' then none else some digits

/-- The value of decimal digits. -/
private def digitsValue (digits : List Char) : Nat :=
  digits.foldl (fun n c => n * 10 + (c.toNat - '0'.toNat)) 0

/-- Whether `significand * 10 ^ exponent` is too large for a double precision number. -/
private def isTooLarge (significand : Nat) (exponent : Int) : Bool :=
  let digits : Int := (Nat.toDigits 10 significand).length
  if significand = 0 ∨ exponent + digits < 300 then false
  else if 320 < exponent + digits then true
  else !(Number.Decimal.nearest false ⟨significand, exponent⟩).isFinite

/-- A number with a fraction or an exponent, an infinity, or none at all. No setting is such a
number, so only its form counts; a positive one may not be too large. -/
private def real? (cs : List Char) : Option Json :=
  let (negative, cs) := signed cs
  if cs = "inf".toList ∨ cs = "nan".toList then some .unheld
  else
    let isMark (c : Char) : Bool := c == 'e' || c == 'E'
    let mantissa := cs.takeWhile (!isMark ·)
    let exponent := cs.dropWhile (!isMark ·)
    let fraction := mantissa.dropWhile (· != '.')
    if fraction.isEmpty && exponent.isEmpty then none
    else do
      let whole ← decimal? (mantissa.takeWhile (· != '.'))
      let places ← if fraction.isEmpty then some [] else digits? Char.isDigit fraction.tail
      let (isSmall, power) := signed exponent.tail
      let power ← if exponent.isEmpty then some [] else digits? Char.isDigit power
      let written : Int := digitsValue power
      let shift := (if isSmall then -written else written) - places.length
      if !negative && isTooLarge (digitsValue (whole ++ places)) shift then none else some .unheld

/-! ## Dates -/

/-- A number with `count` digits between `low` and `high`, and what follows it. -/
private def numeral? (count low high : Nat) (cs : List Char) : Option (Nat × List Char) :=
  let digits := cs.take count
  let value := digitsValue digits
  if digits.length = count ∧ digits.all Char.isDigit ∧ low ≤ value ∧ value ≤ high then
    some (value, cs.drop count)
  else none

/-- What follows a given character. -/
private def after? (c : Char) : List Char → Option (List Char)
  | [] => none
  | first :: rest => if first = c then some rest else none

/-- The number of days of a month. -/
private def daysOf (year month : Nat) : Nat :=
  if month = 2 then
    if year % 4 = 0 ∧ (year % 100 ≠ 0 ∨ year % 400 = 0) then 29 else 28
  else if month = 4 ∨ month = 6 ∨ month = 9 ∨ month = 11 then 30
  else 31

/-- What follows a day of a year. -/
private def afterDay? (cs : List Char) : Option (List Char) := do
  let (year, rest) ← numeral? 4 0 9999 cs
  let (month, rest) ← numeral? 2 1 12 (← after? '-' rest)
  let (_, rest) ← numeral? 2 1 (daysOf year month) (← after? '-' rest)
  return rest

/-- What follows a time of day, whose seconds may have a fraction and may be leap seconds. -/
private def afterTime? (cs : List Char) : Option (List Char) := do
  let (_, rest) ← numeral? 2 0 23 cs
  let (_, rest) ← numeral? 2 0 59 (← after? ':' rest)
  let (_, rest) ← numeral? 2 0 60 (← after? ':' rest)
  match rest with
  | '.' :: c :: places =>
    if c.isDigit then return places.dropWhile Char.isDigit else return '.' :: c :: places
  | rest => return rest

/-- What follows the offset of a time, if there is one. -/
private def afterOffset (cs : List Char) : List Char :=
  match cs with
  | [] => []
  | sign :: rest =>
    if sign == 'Z' || sign == 'z' then rest
    else if sign == '+' || sign == '-' then
      (do
        let (_, rest) ← numeral? 2 0 23 rest
        let (_, rest) ← numeral? 2 0 59 (← after? ':' rest)
        return rest).getD cs
    else cs

/-- What follows a date: a day, a time of day, or both with or without an offset. -/
private def afterDate? (cs : List Char) : Option (List Char) :=
  match afterDay? cs with
  | none => afterTime? cs
  | some [] => some []
  | some (mark :: rest) =>
    match if mark == 'T' || mark == 't' || mark == ' ' then afterTime? rest else none with
    | some rest => some (afterOffset rest)
    | none => some (mark :: rest)

/-- A date as JSON: an object whose only field is none of any section, so that a date in the place
of a section sets nothing. -/
private def dateJson (text : List Char) : Json :=
  .object [("date", .string (String.ofList text))]

/-! ## Values -/

/-- A value that is written without quotes and brackets. -/
private def bareValue? (cs : List Char) : Option Json :=
  if cs = "true".toList then some (.bool true)
  else if cs = "false".toList then some (.bool false)
  else
    match cs with
    | '0' :: 'x' :: rest => based? 16 rest
    | '0' :: 'o' :: rest => based? 8 rest
    | '0' :: 'b' :: rest => based? 2 rest
    | _ =>
      let (negative, digits) := signed cs
      match decimal? digits with
      | some digits =>
        let value := digitsValue digits
        if negative && value != 0 then
          if value ≤ maxWhole + 1 then some (.number (.negative value)) else none
        else if value ≤ maxWhole then some (.ofNat value)
        else none
      | none => real? cs

/-- A character that ends a value without quotes and brackets. -/
private def endsBare (c : Char) : Bool :=
  isSpace c || c == '\n' || c == ',' || c == ']' || c == '\x7d' || c == '#'

mutual

/-- A value; `room` is the number of lists and tables that may still be opened in one another. -/
private def value? : (fuel room : Nat) → List Char → Option (Json × List Char)
  | 0, _, _ => none
  | fuel + 1, room, cs =>
    match cs, room with
    | '[' :: rest, room + 1 => do
      let (items, rest) ← items? fuel room rest
      return (.array items, rest)
    | '\x7b' :: rest, room + 1 =>
      match skipSpace rest with
      | '\x7d' :: rest => some (.object [], rest)
      | rest => do
        let (table, rest) ← pairs? fuel room (.table false false []) rest
        return (table.toJson, rest)
    | _, _ =>
      match text? cs, afterDate? cs with
      | some (text, rest), _ => some (.string (String.ofList text), rest)
      | none, some rest => some (dateJson (cs.take (cs.length - rest.length)), rest)
      | none, none =>
        (bareValue? (cs.takeWhile (!endsBare ·))).map fun json =>
          (json, cs.dropWhile (!endsBare ·))

/-- The items of a list up to its end. -/
private def items? : (fuel room : Nat) → List Char → Option (List Json × List Char)
  | 0, _, _ => none
  | fuel + 1, room, cs => do
    match ← skipLines? cs.length cs with
    | ']' :: rest => return ([], rest)
    | cs =>
      let (item, rest) ← value? fuel room cs
      match ← skipLines? rest.length rest with
      | ',' :: rest =>
        let (items, rest) ← items? fuel room rest
        return (item :: items, rest)
      | ']' :: rest => return ([item], rest)
      | _ => none

/-- The entries of a table on one line up to its end. -/
private def pairs? : (fuel room : Nat) → Item → List Char → Option (Item × List Char)
  | 0, _, _, _ => none
  | fuel + 1, room, table, cs => do
    let (keys, rest) ← key? cs
    match skipSpace rest with
    | '=' :: rest =>
      let (json, rest) ← value? fuel room (skipSpace rest)
      let table ← table.assign keys json
      match skipSpace rest with
      | ',' :: rest => pairs? fuel room table (skipSpace rest)
      | '\x7d' :: rest => return (table, rest)
      | _ => none
    | _ => none

end

/-! ## Files -/

/-- What follows the end of a header. -/
private def closeHeader? (brackets : Nat) (cs : List Char) : Option (List Char) :=
  if (List.replicate brackets ']').isPrefixOf cs then endOfLine? (cs.drop brackets) else none

/-- Read what is left of a file; `fuel` bounds the number of statements. -/
private def statements? : (fuel : Nat) → Draft → List Char → Option Draft
  | 0, draft, cs => if cs.isEmpty then some draft else none
  | fuel + 1, draft, cs => do
    match ← skipLines? cs.length cs with
    | [] => return draft
    | '[' :: '[' :: rest =>
      let (keys, rest) ← key? (skipSpace rest)
      statements? fuel (← draft.openRepeated keys) (← closeHeader? 2 rest)
    | '[' :: rest =>
      let (keys, rest) ← key? (skipSpace rest)
      statements? fuel (← draft.openTable keys) (← closeHeader? 1 rest)
    | cs =>
      let (keys, rest) ← key? cs
      match skipSpace rest with
      | '=' :: rest =>
        let (json, rest) ← value? rest.length maxNesting (skipSpace rest)
        statements? fuel (← draft.assign keys json) (← endOfLine? rest)
      | _ => none

/-- The text with single line feeds as line ends. -/
private def normalizeLines : List Char → List Char
  | '\r' :: '\n' :: rest => '\n' :: normalizeLines rest
  | c :: rest => c :: normalizeLines rest
  | [] => []

/-- A mark at the start of a file that only tells its encoding. -/
private def byteOrderMark : Char := Char.ofNat 0xFEFF

/-- The content of a file as JSON. -/
def read? (text : String) : Option Json := do
  let cs := normalizeLines text.toList
  let cs := if cs.head? = some byteOrderMark then cs.tail else cs
  let draft ← statements? (cs.length + 1) .empty cs
  let root ← draft.finish
  return root.toJson

end StyleSense.Toml
