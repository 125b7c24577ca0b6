import StyleSense.Analyzer.Json
import StyleSense.Analyzer.Load
import StyleSense.Color.Presentation
import StyleSense.Command.Arguments
import StyleSense.Files.Selection
import StyleSense.Node.Json
import StyleSense.Settings.Discovery

/-!
Contract: the work of the commands.

Owns:
- `Outcome`, what a command prints and how it ends;
- `Invocation.run`, which reads the settings and does what a command asks for. Watching and serving
  go on for ever and are only handed over.

Does not own: the terminal.
-/

namespace StyleSense

/-- A line for the error stream. -/
inductive Note where
  | error (text : String)
  /-- A line of the log. -/
  | log (level : LogLevel) (text : String)
deriving DecidableEq, Repr

/-- What a command leaves behind: the code with which it ends, the value that it prints, and the
lines for the error stream. -/
structure Outcome where
  code : Nat
  printed : Option Json
  notes : List Note

/-- The place of a level from quiet to loud. -/
def LogLevel.rank : LogLevel → Nat
  | .off => 0
  | .error => 1
  | .warn => 2
  | .info => 3
  | .debug => 4
  | .trace => 5

namespace Outcome

/-- All went well. -/
def success : Nat := 0

/-- Something could not be done. -/
def failed : Nat := 1

/-- The arguments make no sense. -/
def misused : Nat := 2

/-- End with a value. -/
def print (json : Json) (notes : List Note) : Outcome :=
  ⟨success, some json, notes⟩

/-- End with an error. -/
def fail (code : Nat) (text : String) (notes : List Note) : Outcome :=
  ⟨code, none, notes ++ [.error text]⟩

/-- Leave out what the log level does not let through. -/
def quiet (outcome : Outcome) (most : LogLevel) : Outcome :=
  { outcome with
    notes := outcome.notes.filter fun note => match note with
      | .error _ => true
      | .log level _ => level.rank ≤ most.rank }

end Outcome

/-! ## The log of an analysis -/

/-- What is logged when a sheet is analyzed. -/
def Sheet.log (sheet : Sheet) : List Note :=
  match sheet.parsed with
  | .ok _ => []
  | .error error => [.log .debug ("parse failed: " ++ error.fault.text)]

/-- What is logged when the colors of a sheet are looked for. -/
def Sheet.colorLog (sheet : Sheet) : List Note :=
  sheet.log ++ (declaredColors sheet.tree.statements).filterMap fun occurrence =>
    match occurrence.color with
    | .ok _ => none
    | .error error => some (.log .trace ("skipping color: " ++ error.message))

/-! ## Commands -/

/-- A question that is asked about each of several files: the name of the answer, the answer, and
what is logged on the way. -/
structure Survey where
  key : String
  items : Sheet → List Json
  log : Sheet → List Note

namespace FileSystem

/-- The entry of one file in a survey. -/
def surveyFile (files : FileSystem) (survey : Survey) (path : Path) :
    Except String (Json × List Note) :=
  match files.read path with
  | .error fault => .error (path.toString ++ ": " ++ fault.message)
  | .ok text =>
    let sheet := Sheet.ofText text.toList
    let entry : Json :=
      .object [("file", .string path.toString), (survey.key, .array (survey.items sheet))]
    .ok (entry, survey.log sheet)

/-- Ask a question about every file; a file that cannot be read is left out and named. -/
def survey (files : FileSystem) (arguments : List (List Char)) (survey : Survey) : Outcome :=
  match files.select arguments with
  | .error argument =>
    .fail Outcome.misused ("No files matched '" ++ String.ofList argument ++ "'") []
  | .ok paths =>
    let results := paths.map (files.surveyFile survey)
    let entries := results.filterMap Except.toOption
    let errors := results.filterMap fun result => match result with
      | .ok _ => none
      | .error text => some (Note.error text)
    { code := if errors.isEmpty then Outcome.success else Outcome.failed
      printed := some (.array (entries.map Prod.fst))
      notes := entries.flatMap Prod.snd ++ errors }

/-- Work on the text of one file. -/
def withText (files : FileSystem) (path : Path) (work : List Char → Outcome) : Outcome :=
  match files.read path with
  | .error fault => .fail Outcome.failed (path.toString ++ ": " ++ fault.message) []
  | .ok text => work text.toList

/-- Completions for the text before a column of a line. -/
def complete (files : FileSystem) (analyzer : Analyzer) (path : Path) (line : Nat)
    (column : Option Nat) : Outcome :=
  files.withText path fun text =>
    let sheet := Sheet.ofText text
    if sheet.document.lineCount ≤ line then
      .fail Outcome.misused
        ("line " ++ toString line ++ " is past the end of " ++ path.toString) []
    else
      let source := sheet.document.line line
      match Text.takeTo? (column.getD (Text.width source)) source with
      | none =>
        .fail Outcome.misused
          ("column is outside line " ++ toString line ++ " or inside a character") []
      | some word =>
        let log := if analyzer.settings.completion.enabled then sheet.log else []
        .print (.ofList Completion.toJson (analyzer.completions sheet word)) log

/-- The tree of a file. -/
def ast (files : FileSystem) (path : Path) : Outcome :=
  files.withText path fun text =>
    match Node.parse text with
    | .ok tree => .print tree.toJson []
    | .error error => .fail Outcome.failed (path.toString ++ ": " ++ error.message) []

end FileSystem

/-- The ways to write a color. -/
def presentations (value : String) : Outcome :=
  let log := (Sheet.ofText ("$color = ".toList ++ Text.trim value.toList)).colorLog
  match Rgba.ofValue? value.toList with
  | some color =>
    .print
      (.object [("color", color.toJson), ("presentations", .ofList .string color.presentations)])
      log
  | none => .fail Outcome.misused ("'" ++ value ++ "' is not a color") log

/-- What a command comes to: an end, or work that goes on for ever. -/
inductive Action where
  | finish (outcome : Outcome)
  | watch (analyzer : Analyzer) (directory : Path)
  | serve (settings : Settings)

namespace Command

/-- What a command changes in the settings. -/
def overrides : Command → Overrides
  | decorations _ most => { maxDecorations := most }
  | complete _ _ _ false => { useSeparator := some false }
  | _ => {}

/-- Do what a command asks for. -/
def action (files : FileSystem) (analyzer : Analyzer) : Command → Action
  | symbols arguments =>
    let isOn := analyzer.settings.symbols.enabled
    .finish (files.survey arguments
      { key := "symbols"
        items := fun sheet => (analyzer.symbols sheet).map Symbol.toJson
        log := fun sheet => if isOn then sheet.log else [] })
  | colors arguments =>
    let isOn := analyzer.settings.colors.enabled
    .finish (files.survey arguments
      { key := "colors"
        items := fun sheet => (analyzer.colors sheet).map ColorEntry.toJson
        log := fun sheet => if isOn then sheet.colorLog else [] })
  | decorations arguments _ =>
    let isOn := analyzer.settings.colors.decorations
    .finish (files.survey arguments
      { key := "decorations"
        items := fun sheet => (analyzer.decorations sheet).map Decoration.toJson
        log := fun sheet => if isOn then sheet.log else [] })
  | complete file line column _ => .finish (files.complete analyzer file line column)
  | ast file => .finish (files.ast file)
  | presentations value => .finish (StyleSense.presentations value)
  | watch directory =>
    if files.pathExists directory then .watch analyzer directory
    else .finish (.fail Outcome.failed ("Directory not found: " ++ directory.toString) [])
  | serve => .serve analyzer.settings

end Command

/-- Put lines of the log in front of what a command leaves behind. -/
def Action.logged (notes : List Note) (most : LogLevel) : Action → Action
  | .finish outcome => .finish ({ outcome with notes := notes ++ outcome.notes }.quiet most)
  | other => other

namespace Invocation

/-- The settings in effect. -/
def settings (invocation : Invocation) (files : FileSystem) (environment : Environment) :
    Except SettingsError Settings :=
  (files.loadSettings environment invocation.settingsFile).map fun settings =>
    settings.override { invocation.command.overrides with logLevel := invocation.logLevel }

/-- Do what the arguments ask for. -/
def run (invocation : Invocation) (files : FileSystem) (environment : Environment) : Action :=
  match invocation.settings files environment with
  | .error error => .finish (.fail Outcome.failed error.message [])
  | .ok settings =>
    let log : List Note := match settings.completion.schema with
      | some _ => [.log .debug "loading CSS schema"]
      | none => []
    let action : Action := match files.analyzer settings with
      | .error error => .finish (.fail Outcome.failed error.message [])
      | .ok analyzer => invocation.command.action files analyzer
    action.logged log settings.log.level

end Invocation

/-- The code with which the program ends when no command is run. -/
def Stop.code : Stop → Nat
  | .help | .version => Outcome.success
  | .misuse => Outcome.misused

end StyleSense
