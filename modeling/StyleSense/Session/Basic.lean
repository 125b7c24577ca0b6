import StyleSense.Analyzer.Load
import StyleSense.Color.Presentation
import StyleSense.Session.Scheduler
import StyleSense.Settings.Json
import StyleSense.Text.Units

/-!
Contract: a session with an editor.

The editor starts the session, tells which documents are open and what is in them, and asks about
them. Swatches are sent to the editor on their own, a quiet moment after each edit.

Owns:
- `Session` with its documents and waiting swatches;
- `Session.request`, `Session.notify` and `Session.runDue`;
- the places of the editor, whose columns count UTF-16 units.

Does not own: the form of messages (`StyleSense.Session.Json`).
-/

namespace StyleSense

/-! ## Places of the editor -/

/-- A place: line and column, both counted from zero, the column in UTF-16 units. -/
structure UnitPlace where
  line : Nat
  character : Nat
deriving DecidableEq, Repr

/-- A stretch of a document. -/
structure UnitSpan where
  start : UnitPlace
  stop : UnitPlace
deriving DecidableEq, Repr

/-- A place as the editor counts it. -/
def Document.unitPlace (document : Document) (place : Place) : UnitPlace :=
  ⟨place.line % Text.unitLimit, Text.column16 (document.line place.line) place.column⟩

/-- A stretch as the editor counts it. -/
def Document.unitSpan (document : Document) (span : Span) : UnitSpan :=
  ⟨document.unitPlace span.start, document.unitPlace span.stop⟩

/-- A color in the precision of the editor. -/
def Rgba.single (color : Rgba Float) : Rgba Float :=
  ⟨Number.toSingle color.red, Number.toSingle color.green, Number.toSingle color.blue,
    Number.toSingle color.alpha⟩

/-! ## Messages -/

/-- What the editor asks. -/
inductive Request where
  | start (options : Option Json)
  | stop
  | symbols (uri : String)
  | colors (uri : String)
  | completion (uri : String) (place : UnitPlace)
  /-- Ways to write a color, whose channels run from 0 to 1. -/
  | presentation (span : UnitSpan) (color : Rgba Float)

/-- What the editor tells. -/
inductive Event where
  | started
  | opened (uri : String) (text : List Char)
  | changed (uri : String) (texts : List (List Char))
  | closed (uri : String)

/-- What an answer consists of. Of a document that is not open there is nothing to tell. -/
inductive Answer where
  | capabilities
  | done
  | symbols (uri : String) (found : Option (List (Symbol × UnitSpan)))
  | colors (found : List (UnitSpan × Rgba Float))
  | completions (found : Option (List Completion))
  | presentations (span : UnitSpan) (texts : List String)

/-- Why a request is refused. -/
inductive Refusal where
  /-- The session has not started. -/
  | notStarted
  /-- The session has started already, or is over. -/
  | invalidRequest
deriving DecidableEq, Repr

/-- What is sent to the editor on its own. -/
inductive Message where
  | information (text : String)
  | warning (text : String)
  | decorations (uri : String) (swatches : List (UnitPlace × String))
deriving DecidableEq, Repr

/-! ## The session -/

/-- Where a session stands. -/
inductive Phase where
  | waiting
  | running
  | stopped
deriving DecidableEq, Repr

/-- A session. -/
structure Session where
  phase : Phase
  /-- The settings that hold when the editor sends none. -/
  base : Settings
  analyzer : Analyzer
  /-- The open documents and their texts. -/
  documents : List (String × List Char)
  /-- For each document, the text whose swatches will be sent. -/
  scheduler : Scheduler String (List Char)

namespace Session

/-- A session that has not started. -/
def new (base : Settings) : Session :=
  { phase := .waiting
    base
    analyzer := .default
    documents := []
    scheduler := .start base.colors.debounce }

/-- The text of an open document. -/
def text? (session : Session) (uri : String) : Option (List Char) :=
  (session.documents.find? fun entry => entry.1 = uri).map Prod.snd

/-- Keep the text of a document. -/
def store (session : Session) (uri : String) (text : List Char) : Session :=
  { session with
    documents := (session.documents.filter fun entry => entry.1 ≠ uri) ++ [(uri, text)] }

/-- Forget a document. -/
def forget (session : Session) (uri : String) : Session :=
  { session with
    documents := session.documents.filter fun entry => entry.1 ≠ uri
    scheduler := session.scheduler.cancel uri }

/-- Let the swatches of a text wait for a quiet moment, if swatches are wanted. -/
def scheduleSwatches (session : Session) (uri : String) (text : List Char) : Session :=
  if session.analyzer.settings.colors.decorations then
    { session with scheduler := session.scheduler.schedule uri text }
  else session

/-- The settings for the options of the editor, or those of the session when it sends none. -/
def settingsFor (session : Session) (options : Option Json) : Except SettingsError Settings :=
  match options with
  | none | some .null => .ok session.base
  | some _ => Settings.ofOptions options

/-- The analyzer for the options of the editor. -/
def analyzerFor (session : Session) (files : FileSystem) (options : Option Json) :
    Except String Analyzer :=
  match session.settingsFor options with
  | .error error => .error error.message
  | .ok settings => (files.analyzer settings).mapError SchemaError.message

/-- Start under the options of the editor. With invalid options the defaults hold, and the editor is
warned. -/
def start (session : Session) (files : FileSystem) (options : Option Json) :
    Session × List Message :=
  let (analyzer, warnings) : Analyzer × List Message :=
    match session.analyzerFor files options with
    | .ok analyzer => (analyzer, [])
    | .error text => (.default, [.warning ("stylus-lens: " ++ text)])
  ({ session with
      phase := .running
      analyzer
      scheduler := session.scheduler.setDelay analyzer.settings.colors.debounce },
    warnings)

/-- Answer a question about a document, or about no document at all. -/
def answer (session : Session) : Request → Answer
  | .symbols uri =>
    .symbols uri ((session.text? uri).map fun text =>
      let sheet := Sheet.ofText text
      (session.analyzer.symbols sheet).map fun symbol =>
        (symbol, sheet.document.unitSpan symbol.range))
  | .colors uri =>
    match session.text? uri with
    | none => .colors []
    | some text =>
      let sheet := Sheet.ofText text
      .colors ((session.analyzer.colors sheet).map fun entry =>
        (sheet.document.unitSpan entry.range, entry.color))
  | .completion uri place =>
    .completions ((session.text? uri).map fun text =>
      let sheet := Sheet.ofText text
      let word := Text.takeUnits place.character (sheet.document.line place.line)
      session.analyzer.completions sheet word)
  | .presentation span color =>
    let unit := color.single
    .presentations span (Rgba.ofUnit unit.red unit.green unit.blue unit.alpha).presentations
  | .start _ => .capabilities
  | .stop => .done

/-- Handle a request. -/
def request (session : Session) (files : FileSystem) (request : Request) :
    Session × Except Refusal Answer × List Message :=
  match session.phase, request with
  | .waiting, .start options =>
    let (next, messages) := session.start files options
    (next, .ok .capabilities, messages)
  | .waiting, _ => (session, .error .notStarted, [])
  | .running, .start _ => (session, .error .invalidRequest, [])
  | .running, .stop => ({ session with phase := .stopped }, .ok .done, [])
  | .running, question => (session, .ok (session.answer question), [])
  | .stopped, _ => (session, .error .invalidRequest, [])

/-- Handle an event of a running session. A document is always sent as a whole, and the first of
several changes counts. -/
def handle (session : Session) : Event → Session × List Message
  | .started => (session, [.information "Stylus LSP initialized"])
  | .opened uri text => ((session.store uri text).scheduleSwatches uri text, [])
  | .changed _ [] => (session, [])
  | .changed uri (text :: _) => ((session.store uri text).scheduleSwatches uri text, [])
  | .closed uri => (session.forget uri, [])

/-- Take in an event; it counts only while the session runs. -/
def notify (session : Session) (event : Event) : Session × List Message :=
  if session.phase = .running then session.handle event else (session, [])

/-- The message with the swatches of a text. -/
def swatchMessage (session : Session) (uri : String) (text : List Char) : Message :=
  let sheet := Sheet.ofText text
  .decorations uri ((session.analyzer.decorations sheet).map fun decoration =>
    (sheet.document.unitPlace ⟨decoration.line, decoration.column⟩, decoration.background))

/-- Send the swatches whose time has come. -/
def runDue (session : Session) : Session × List Message :=
  let (tasks, scheduler) := session.scheduler.takeDue
  ({ session with scheduler }, tasks.map fun task => session.swatchMessage task.key task.payload)

/-- Let time pass. -/
def advance (session : Session) (elapsed : Nat) : Session :=
  { session with scheduler := session.scheduler.advance elapsed }

end Session

end StyleSense
