import StyleSense.Json.Printer
import StyleSense.Json.Reader
import StyleSense.Session.Json

/-!
Contract: the calls between an editor and a session.

Owns:
- `Call`, what an editor can send, and `Call.ofText`;
- `Session.receive`, which answers a call with the texts to send back;
- `frame`, the header in front of every text.

Does not own: the streams and the clock.
-/

namespace StyleSense

/-- What an editor sends. -/
inductive Call where
  /-- A request and the name under which its answer is sent. -/
  | request (id : Json) (question : Request)
  | event (event : Event)
  /-- The end of the connection. -/
  | exit
  /-- A request that is not known or has the wrong form. -/
  | unknown (id : Json) (code : Json.Number) (text : String)
  /-- Nothing that needs an answer. -/
  | ignored

namespace Wire

/-- The field of an object at the end of a chain of names. -/
def field? : Json → List String → Option Json
  | json, [] => some json
  | .object fields, name :: names =>
    (fields.find? fun field => field.1 = name).bind fun field => field? field.2 names
  | _, _ :: _ => none

/-- The document that a call is about. -/
def uri? (params : Json) : Option String :=
  (field? params ["textDocument", "uri"]).bind Json.string?

/-- A place. -/
def place? (json : Json) : Option UnitPlace := do
  let line ← (field? json ["line"]).bind Json.nat?
  let character ← (field? json ["character"]).bind Json.nat?
  return ⟨line, character⟩

/-- A stretch. -/
def span? (json : Json) : Option UnitSpan := do
  return ⟨← (field? json ["start"]).bind place?, ← (field? json ["end"]).bind place?⟩

/-- A color whose channels run from 0 to 1. -/
def color? (json : Json) : Option (Rgba Float) := do
  let channel (name : String) : Option Float := (field? json [name]).bind Json.float?
  return ⟨← channel "red", ← channel "green", ← channel "blue", ← channel "alpha"⟩

/-- The text of one change. -/
def changeText? (json : Json) : Option (List Char) :=
  ((field? json ["text"]).bind Json.string?).map String.toList

/-- The request with a given name: `none` when there is none of that name. -/
def request? (method : String) (params : Json) : Option (Option Request) :=
  match method with
  | "initialize" => some (some (.start (field? params ["initializationOptions"])))
  | "shutdown" => some (some .stop)
  | "textDocument/documentSymbol" => some ((uri? params).map .symbols)
  | "textDocument/documentColor" => some ((uri? params).map .colors)
  | "textDocument/completion" => some do
    return .completion (← uri? params) (← (field? params ["position"]).bind place?)
  | "textDocument/colorPresentation" => some do
    return .presentation (← (field? params ["range"]).bind span?)
      (← (field? params ["color"]).bind color?)
  | _ => none

/-- The event with a given name. -/
def event? (method : String) (params : Json) : Option Event :=
  match method with
  | "initialized" => some .started
  | "textDocument/didOpen" => do
    let text ← (field? params ["textDocument", "text"]).bind Json.string?
    return .opened (← uri? params) text.toList
  | "textDocument/didChange" => do
    let .array changes ← field? params ["contentChanges"] | none
    return .changed (← uri? params) (← changes.mapM changeText?)
  | "textDocument/didClose" => do return .closed (← uri? params)
  | _ => none

/-- The version of the form of calls. -/
private def version : String × Json :=
  ("jsonrpc", .string "2.0")

/-- The answer to a request. -/
def reply (id result : Json) : Json :=
  .object [version, ("id", id), ("result", result)]

/-- The refusal of a request. -/
def refusal (id : Json) (code : Json.Number) (text : String) : Json :=
  .object
    [version, ("id", id), ("error", .object [("code", .number code), ("message", .string text)])]

/-- A message that no request has asked for. -/
def message (message : Message) : Json :=
  match message.toJson with
  | .object fields => .object (version :: fields)
  | other => other

/-- A text with its length in bytes in front of it. -/
def frame (text : String) : String :=
  "Content-Length: " ++ toString text.utf8ByteSize ++ "\r\n\r\n" ++ text

end Wire

open Wire

/-- The wording of a refusal. -/
def Refusal.message : Refusal → String
  | .notStarted => "Server not initialized"
  | .invalidRequest => "Invalid request"

/-- The call that a text stands for. -/
def Call.ofText (text : String) : Call :=
  match Json.ofText? text with
  | none => .unknown .null (.negative 32700) "Parse error"
  | some json =>
    let params := (field? json ["params"]).getD .null
    match (field? json ["method"]).bind Json.string?, field? json ["id"] with
    | none, _ => .ignored
    | some "exit", _ => .exit
    | some method, none => ((event? method params).map Call.event).getD .ignored
    | some method, some id =>
      match request? method params with
      | none => .unknown id (.negative 32601) "Method not found"
      | some none => .unknown id (.negative 32602) "Invalid params"
      | some (some question) => .request id question

/-- The schema that is read when a call is taken in. -/
def Session.schemaPath? (session : Session) : Call → Option Path
  | .request _ (.start options) =>
    (session.settingsFor options).toOption.bind fun settings => settings.completion.schema
  | _ => none

/-- Take in a call; the result holds what is sent back, in order. -/
def Session.receive (session : Session) (files : FileSystem) : Call → Session × List Json
  | .request id question =>
    match session.request files question with
    | (next, .ok answer, messages) => (next, messages.map Wire.message ++ [reply id answer.toJson])
    | (next, .error cause, messages) =>
      (next, messages.map Wire.message ++ [refusal id cause.code cause.message])
  | .event event =>
    let (next, messages) := session.notify event
    (next, messages.map Wire.message)
  | .unknown id code text => (session, [refusal id code text])
  | .exit | .ignored => (session, [])

end StyleSense
