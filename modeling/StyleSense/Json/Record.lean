import StyleSense.Json.Basic

/-!
Contract: reading records out of JSON values.

A record is an object with named fields. Fields that the record does not have are passed over, and
one that it has may be given only once. A record can also be written as an array of its fields in
their order.

Owns:
- `Json.Part`, a value inside another one, so that readers can recurse;
- `Json.record?`, `Json.items?` and `Json.entries?`;
- readers of plain field values, required, optional and with a default;
- `Json.Dialect`, in which formats that share these values differ.

Does not own: what a record means.
-/

namespace StyleSense.Json

/-- A value that stands inside `whole`. -/
abbrev Part (whole : Json) := { part : Json // sizeOf part < sizeOf whole }

/-- The last value given for `name`, with the number of times it is given. -/
def member : (fields : List (String × Json)) → (name : String) →
    Option { part : Json // sizeOf part < sizeOf fields } × Nat
  | [], _ => (none, 0)
  | (key, value) :: rest, name =>
    let (found, count) := member rest name
    let widened : Option { part : Json // sizeOf part < sizeOf ((key, value) :: rest) } :=
      found.map fun part => ⟨part.val, by have := part.property; simp; omega⟩
    if key = name then (widened <|> some ⟨value, by simp; omega⟩, count + 1)
    else (widened, count)

/-- The elements of a list of values, each as a part of the list. -/
def elements : (items : List Json) → List { part : Json // sizeOf part < sizeOf items }
  | [] => []
  | item :: rest =>
    ⟨item, by simp; omega⟩ ::
      (elements rest).map fun part => ⟨part.val, by have := part.property; simp; omega⟩

/-- The fields of a list of fields, each value as a part of the list. -/
def namedElements : (fields : List (String × Json)) →
    List (String × { part : Json // sizeOf part < sizeOf fields })
  | [] => []
  | (key, value) :: rest =>
    (key, ⟨value, by simp; omega⟩) ::
      (namedElements rest).map fun field =>
        (field.1, ⟨field.2.val, by have := field.2.property; simp; omega⟩)

/-- The fields called `names`, each present or not. -/
def record? (names : List String) : (j : Json) → Option (List (Option (Part j)))
  | .object fields =>
    names.mapM fun name =>
      match member fields name with
      | (found, count) =>
        if count ≤ 1 then
          some (found.map fun part => ⟨part.val, by have := part.property; simp; omega⟩)
        else none
  | .array items =>
    if items.length ≤ names.length then
      let parts := (elements items).map fun part =>
        (some ⟨part.val, by have := part.property; simp; omega⟩ : Option (Part (.array items)))
      some (parts ++ List.replicate (names.length - items.length) none)
    else none
  | _ => none

/-- The elements of an array. -/
def items? : (j : Json) → Option (List (Part j))
  | .array items =>
    some ((elements items).map fun part => ⟨part.val, by have := part.property; simp; omega⟩)
  | _ => none

/-- The fields of an object used as a map, in order. -/
def entries? : (j : Json) → Option (List (String × Part j))
  | .object fields =>
    some ((namedElements fields).map fun field =>
      (field.1, ⟨field.2.val, by have := field.2.property; simp; omega⟩))
  | _ => none

/-- A part of a part is a part. -/
def Part.trans {whole : Json} (outer : Part whole) (inner : Part outer.val) : Part whole :=
  ⟨inner.val, Nat.lt_trans inner.property outer.property⟩

/-- The fields of a record inside another value. -/
def Part.record? {whole : Json} (names : List String) (part : Part whole) :
    Option (List (Option (Part whole))) :=
  (part.val.record? names).map fun fields => fields.map fun field => field.map part.trans

/-- The elements of an array inside another value. -/
def Part.items? {whole : Json} (part : Part whole) : Option (List (Part whole)) :=
  part.val.items?.map fun items => items.map part.trans

/-- The fields of a map inside another value. -/
def Part.entries? {whole : Json} (part : Part whole) : Option (List (String × Part whole)) :=
  part.val.entries?.map fun entries => entries.map fun entry => (entry.1, part.trans entry.2)

/-- A text. -/
def string? : Json → Option String
  | .string value => some value
  | _ => none

/-- A truth value. -/
def bool? : Json → Option Bool
  | .bool value => some value
  | _ => none

/-- A whole number that is not negative. -/
def nat? : Json → Option Nat
  | .number (.nat value) => some value
  | _ => none

/-- Any number, as a floating point value. -/
def float? : Json → Option Float
  | .number (.nat value) => some (Float.ofNat value)
  | .number (.negative magnitude) => some (-Float.ofNat magnitude)
  | .number (.real value) => some value
  | _ => none

/-- A list of texts. -/
def strings? : Json → Option (List String)
  | .array items => items.mapM string?
  | _ => none

/-- In what formats differ whose values are seen as JSON. -/
structure Dialect where
  /-- Whether items of an array that a record has no field for are passed over. -/
  passesOver : Bool
  /-- What may stand for the content of a choice that has none. -/
  isVoid : Json → Bool

namespace Dialect

/-- JSON itself: an array is not longer than its record, and a choice without content has `null`. -/
def plain : Dialect where
  passesOver := false
  isVoid
    | .null => true
    | _ => false

/-- The part of a value that a record with the fields `names` looks at. -/
def fitted (dialect : Dialect) (names : List String) : Json → Json
  | .array items => .array (if dialect.passesOver then items.take names.length else items)
  | j => j

/-- The fields called `names`, each present or not. -/
def record? (dialect : Dialect) (names : List String) (j : Json) :
    Option (List (Option (Part (dialect.fitted names j)))) :=
  (dialect.fitted names j).record? names

end Dialect

section Fields

variable {α : Type} {whole : Json}

/-- A field that must be given. -/
def required (read : Json → Option α) (field : Option (Part whole)) : Option α :=
  field.bind fun part => read part.val

/-- A field that has a value when it is not given. -/
def withDefault (fallback : α) (read : Json → Option α) : Option (Part whole) → Option α
  | none => some fallback
  | some part => read part.val

/-- A field that may be missing or `null`. -/
def optional (read : Json → Option α) : Option (Part whole) → Option (Option α)
  | none => some none
  | some part =>
    match part.val with
    | .null => some none
    | value => (read value).map some

end Fields

end StyleSense.Json
