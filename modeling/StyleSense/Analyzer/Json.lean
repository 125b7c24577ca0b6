import StyleSense.Analyzer.Basic
import StyleSense.Json.Basic

/-!
Contract: the results of an analysis as JSON.

Owns: `toJson` for places, symbols, colors, swatches and completions. Lines and columns are counted
from zero, columns in bytes.

Does not own: the form in which an editor wants them (`StyleSense.Session.Json`).
-/

namespace StyleSense

open Json (ofNat ofFloat optionalField)

/-- A place as JSON. -/
def Place.toJson (place : Place) : Json :=
  .object [("line", ofNat place.line), ("column", ofNat place.column)]

/-- A stretch of a document as JSON. -/
def Span.toJson (span : Span) : Json :=
  .object [("start", span.start.toJson), ("end", span.stop.toJson)]

/-- A symbol as JSON. -/
def Symbol.toJson (symbol : Symbol) : Json :=
  .object
    [("name", .string symbol.name), ("kind", .string symbol.kind.name),
      ("range", symbol.range.toJson)]

/-- A color as JSON. -/
def Rgba.toJson (color : Rgba Float) : Json :=
  .object
    [("red", ofFloat color.red), ("green", ofFloat color.green), ("blue", ofFloat color.blue),
      ("alpha", ofFloat color.alpha)]

/-- A color with its range as JSON. -/
def ColorEntry.toJson (entry : ColorEntry) : Json :=
  .object [("range", entry.range.toJson), ("color", entry.color.toJson)]

/-- A swatch as JSON. -/
def Decoration.toJson (decoration : Decoration) : Json :=
  .object
    [("line", ofNat decoration.line), ("column", ofNat decoration.column),
      ("background", .string decoration.background)]

/-- A completion as JSON. -/
def Completion.toJson (item : Completion) : Json :=
  .object
    ([("label", .string item.label), ("kind", .string item.kind.name)]
      ++ optionalField "detail" .string item.detail
      ++ optionalField "documentation" .string item.documentation
      ++ optionalField "insert_text" .string item.insertion)

end StyleSense
