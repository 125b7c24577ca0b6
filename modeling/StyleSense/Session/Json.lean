import StyleSense.Session.Basic

/-!
Contract: the messages of a session as JSON.

Owns: `toJson` for answers and messages, and the codes of kinds and refusals.

Does not own: framing of messages on a stream.
-/

namespace StyleSense

open Json (ofNat ofFloat ofList optionalField)

/-- A place as JSON. -/
def UnitPlace.toJson (place : UnitPlace) : Json :=
  .object [("line", ofNat place.line), ("character", ofNat place.character)]

/-- A stretch as JSON. -/
def UnitSpan.toJson (span : UnitSpan) : Json :=
  .object [("start", span.start.toJson), ("end", span.stop.toJson)]

/-- The number of a kind of symbol. -/
def SymbolKind.code : SymbolKind → Nat
  | .variable => 13
  | .function => 12
  | .selector => 5
  | .directive => 3

/-- The number of a kind of completion. -/
def CompletionKind.code : CompletionKind → Nat
  | .variable => 6
  | .function => 3
  | .selector => 7
  | .property => 10
  | .value => 12
  | .keyword => 14

/-- The number of a refusal. -/
def Refusal.code : Refusal → Json.Number
  | .notStarted => .negative 32002
  | .invalidRequest => .negative 32600

/-- What the session can do. -/
def capabilitiesJson : Json :=
  .object
    [("capabilities",
      .object
        [("colorProvider", .bool true),
          ("completionProvider",
            .object [("triggerCharacters", ofList .string ["@", "$", ":"])]),
          ("documentSymbolProvider", .bool true), ("textDocumentSync", ofNat 1)]),
      ("serverInfo",
        .object [("name", .string "stylus-lens"), ("version", .string "0.2.0")])]

/-- A symbol with its place in the document. -/
private def symbolJson (uri : String) (symbol : Symbol × UnitSpan) : Json :=
  .object
    [("name", .string symbol.1.name), ("kind", ofNat symbol.1.kind.code),
      ("location", .object [("uri", .string uri), ("range", symbol.2.toJson)])]

/-- Channels are sent as fractions in single precision. -/
private def colorJson (entry : UnitSpan × Rgba Float) : Json :=
  let color := entry.2.toUnit.single
  .object
    [("range", entry.1.toJson),
      ("color",
        .object
          [("red", ofFloat color.red), ("green", ofFloat color.green),
            ("blue", ofFloat color.blue), ("alpha", ofFloat color.alpha)])]

/-- A completion. -/
private def completionJson (item : Completion) : Json :=
  .object
    ([("label", .string item.label), ("kind", ofNat item.kind.code)]
      ++ optionalField "detail" .string item.detail
      ++ optionalField "documentation" .string item.documentation
      ++ optionalField "insertText" .string item.insertion)

/-- A way to write the color at `span`. -/
private def presentationJson (span : UnitSpan) (text : String) : Json :=
  .object
    [("label", .string text),
      ("textEdit", .object [("range", span.toJson), ("newText", .string text)])]

/-- An answer as JSON. -/
def Answer.toJson : Answer → Json
  | .capabilities => capabilitiesJson
  | .done => .null
  | .symbols _ none => .null
  | .symbols uri (some found) => ofList (symbolJson uri) found
  | .colors found => ofList colorJson found
  | .completions none => .null
  | .completions (some found) => ofList completionJson found
  | .presentations span texts => ofList (presentationJson span) texts

/-- The document that a message is about. -/
def Message.uri? : Message → Option String
  | .decorations uri _ => some uri
  | _ => none

/-- A message as JSON. -/
def Message.toJson : Message → Json
  | .information text => notice "window/logMessage" text 3
  | .warning text => notice "window/showMessage" text 2
  | .decorations uri swatches =>
    .object
      [("method", .string "stylus/colorDecorations"),
        ("params",
          .object
            [("uri", .string uri),
              ("decorations", ofList swatch swatches)])]
where
  notice (method text : String) (severity : Nat) : Json :=
    .object
      [("method", .string method),
        ("params", .object [("message", .string text), ("type", ofNat severity)])]
  swatch (entry : UnitPlace × String) : Json :=
    .object [("position", entry.1.toJson), ("background", .string entry.2)]

end StyleSense
