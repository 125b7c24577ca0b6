import StyleSense.Json.Reader
import StyleSense.Json.Record
import StyleSense.Schema.Basic

/-!
Contract: schemas as JSON.

Owns: `Schema.toJson`, `Schema.ofJson?` and their counterparts for the entries. Fields that are not
known may hold anything, also values that `Json.unheld` stands in for; a known field may not.

Does not own: the file in which a schema is kept.
-/

namespace StyleSense

open Json (ofList optionalField required optional withDefault)

namespace ValueEntry

/-- A value as JSON. -/
def toJson (entry : ValueEntry) : Json :=
  .object (("name", .string entry.name) :: optionalField "desc" .string entry.description)

/-- Read a value. -/
def ofJson? (j : Json) : Option ValueEntry :=
  match j.record? ["name", "desc"] with
  | some [name, description] => do
    return ⟨← required Json.string? name, ← optional Json.string? description⟩
  | _ => none

end ValueEntry

/-- Read a list. -/
private def listOfJson? {α : Type} (read : Json → Option α) (j : Json) : Option (List α) :=
  match j with
  | .array items => items.mapM read
  | _ => none

namespace PropertyEntry

/-- A property as JSON. -/
def toJson (entry : PropertyEntry) : Json :=
  .object
    (("name", .string entry.name) :: optionalField "desc" .string entry.summary
      ++ optionalField "browsers" .string entry.browsers
      ++ optionalField "status" .string entry.status
      ++ optionalField "syntax" .string entry.grammar
      ++ [("values", ofList ValueEntry.toJson entry.values)])

/-- Read a property. -/
def ofJson? (j : Json) : Option PropertyEntry :=
  match j.record? ["name", "desc", "browsers", "status", "syntax", "values"] with
  | some [name, summary, browsers, status, grammar, values] => do
    return {
      name := ← required Json.string? name
      summary := ← optional Json.string? summary
      browsers := ← optional Json.string? browsers
      status := ← optional Json.string? status
      grammar := ← optional Json.string? grammar
      values := ← withDefault [] (listOfJson? ValueEntry.ofJson?) values }
  | _ => none

/-- Read a property from the text of a JSON value. -/
def ofText? (text : String) : Option PropertyEntry :=
  (Json.ofTextLoosely? text).bind ofJson?

end PropertyEntry

namespace DirectiveEntry

/-- An at-rule as JSON. -/
def toJson (entry : DirectiveEntry) : Json :=
  .object
    (("name", .string entry.name) :: optionalField "desc" .string entry.summary
      ++ optionalField "browsers" .string entry.browsers)

/-- Read an at-rule. -/
def ofJson? (j : Json) : Option DirectiveEntry :=
  match j.record? ["name", "desc", "browsers"] with
  | some [name, summary, browsers] => do
    return {
      name := ← required Json.string? name
      summary := ← optional Json.string? summary
      browsers := ← optional Json.string? browsers }
  | _ => none

end DirectiveEntry

namespace Schema

/-- A schema as JSON. -/
def toJson (schema : Schema) : Json :=
  .object
    [("properties", ofList PropertyEntry.toJson schema.properties),
      ("atdirectives", ofList DirectiveEntry.toJson schema.directives)]

/-- Read a schema. -/
def ofJson? (j : Json) : Option Schema :=
  match j.record? ["properties", "atdirectives"] with
  | some [properties, directives] => do
    return {
      properties := ← withDefault [] (listOfJson? PropertyEntry.ofJson?) properties
      directives := ← withDefault [] (listOfJson? DirectiveEntry.ofJson?) directives }
  | _ => none

/-- Read a schema from the text of a JSON value. -/
def ofText? (text : String) : Option Schema :=
  (Json.ofTextLoosely? text).bind ofJson?

end Schema

end StyleSense
