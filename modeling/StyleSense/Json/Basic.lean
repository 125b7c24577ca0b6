/-!
Contract: JSON values.

Owns:
- `Json`, whose objects keep their fields in order and may repeat a name;
- `Json.Number`, which tells whole numbers from all others;
- small builders for the writers of this library;
- `Json.unheld`, which stands in for a value that cannot be held.

Does not own: texts (`StyleSense.Json.Reader`, `StyleSense.Json.Printer`) and the reading of records
(`StyleSense.Json.Record`).
-/

namespace StyleSense

/-- A JSON number: a whole number as it was written, or any other number as its floating point
value. -/
inductive Json.Number where
  | nat (value : Nat)
  | negative (magnitude : Nat)
  | real (value : Float)
deriving DecidableEq, Repr

/-- A JSON value. -/
inductive Json where
  | null
  | bool (value : Bool)
  | number (value : Json.Number)
  | string (value : String)
  | array (items : List Json)
  | object (fields : List (String × Json))
deriving Repr

namespace Json

/-- A whole number. -/
def ofNat (n : Nat) : Json :=
  .number (.nat n)

/-- A floating point number; an infinity or a value that is not a number is written as `null`. -/
def ofFloat (x : Float) : Json :=
  if x.isFinite then .number (.real x) else .null

/-- Stands in for a value that can be written but not held. It is the infinite number, which is the
value of no JSON text. -/
def unheld : Json :=
  .number (.real (1.0 / 0.0))

/-- A list of values. -/
def ofList {α : Type} (encode : α → Json) (items : List α) : Json :=
  .array (items.map encode)

/-- A field that is left out when there is no value. -/
def optionalField {α : Type} (name : String) (encode : α → Json) : Option α → List (String × Json)
  | none => []
  | some value => [(name, encode value)]

end Json

end StyleSense
