import StyleSense.Command.Reach
import StyleSense.Command.Run
import StyleSense.Session.Wire
import StyleSense.Watch.Round

/-!
Contract: the program on a terminal.

Owns: `main`, which reads arguments, environment and disk, and prints.

Does not own: any decision. What is looked at is told by `StyleSense.Command.Reach`, what is done by
`StyleSense.Command.Run`, and what is said by `StyleSense.Watch.Round` and
`StyleSense.Session.Wire`.
-/

namespace StyleSense.Terminal

/-! ## The disk -/

/-- The place on the disk at the end of a chain of names. -/
def placeOf (names : List (List Char)) : String :=
  "/" ++ "/".intercalate (names.map String.ofList)

/-- The entry at a place: a file with its bytes, or a directory, with everything below it if
`isDeep`. A directory behind a link is not entered. -/
partial def readEntry (isDeep : Bool) (place : String) : IO (Option FileTree) := do
  let here := (← IO.currentDir) / place
  if ← here.isDir then
    if !isDeep then return some .empty
    let mut entries := []
    for entry in ← here.readDir do
      let isLink := (← entry.path.symlinkMetadata).type matches .symlink
      if let some inner ← readEntry (isDeep && !isLink) entry.path.toString then
        entries := (entry.fileName.toList, inner) :: entries
    return some (.directory entries)
  else if ← here.pathExists then
    return some (.file (← IO.FS.readBinFile here))
  else return none

/-- Read what a reach asks for into the files. -/
def look (files : FileSystem) (reach : Reach) : IO FileSystem := do
  let stops := files.stops reach.path
  let mut root := files.root
  for names in stops do
    if let some entry ← readEntry false (placeOf names) then
      root := entry.insert names root
  if reach.isDeep then
    if let some names := stops.getLast? then
      if let some entry ← readEntry true (placeOf names) then
        root := entry.insert names root
  return { files with root }

/-- The working directory, with nothing read yet. -/
def emptyDisk : IO FileSystem := do
  let working := Path.ofString (← IO.currentDir).toString
  return ⟨.empty, working.segments.filter fun segment => !Path.isVoid segment⟩

/-- The variables of the environment that count. -/
def readEnvironment : IO Environment := do
  let configHome ← IO.getEnv "XDG_CONFIG_HOME"
  let home ← IO.getEnv "HOME"
  return { configHome := configHome.map Path.ofString, home := home.map Path.ofString }

/-! ## The work -/

/-- Print what a command leaves behind. -/
def printOutcome (outcome : Outcome) : IO UInt32 := do
  for note in outcome.notes do
    match note with
    | .error text => IO.eprintln ("Error: " ++ text)
    | .log level text => IO.eprintln (level.name.toUpper ++ " " ++ text)
  if let some json := outcome.printed then IO.println json.pretty
  return outcome.code.toUInt32

/-- Print lines at once. -/
def say (lines : List String) : IO Unit := do
  lines.forM IO.println
  (← IO.getStdout).flush

/-- Look at a directory again and again, and tell what has changed in it. -/
partial def watchFrom (analyzer : Analyzer) (directory : Path) (tracker : Tracker)
    (before : FileSystem) : IO UInt32 := do
  IO.sleep analyzer.settings.watch.debounce.toUInt32
  let now ← look (← emptyDisk) ⟨directory, true⟩
  match before.changedStylesheets now directory analyzer.settings.watch.extensions with
  | [] => watchFrom analyzer directory tracker now
  | changed =>
    let (next, round) := Round.run now analyzer tracker changed
    say round.lines
    watchFrom analyzer directory next now

/-- Sum up the stylesheets in a directory, then watch it. -/
def watch (files : FileSystem) (analyzer : Analyzer) (directory : Path) : IO UInt32 := do
  let paths := files.stylesheets directory analyzer.settings.watch.extensions
  let (tracker, round) := Round.run files analyzer .empty paths
  say (round.lines ++ ["Watching " ++ directory.toString ++ " for changes..."])
  watchFrom analyzer directory tracker files

/-- The length that the header of a frame announces. -/
partial def readLength (input : IO.FS.Stream) (found : Option Nat) : IO (Option Nat) := do
  let line ← input.getLine
  if line.isEmpty then return none
  let text := Text.trim line.toList
  if text.isEmpty then return found
  let name := "content-length:".toList
  if (text.take name.length).map Char.toLower = name then
    readLength input (Arguments.number? (Text.trim (text.drop name.length)))
  else readLength input found

/-- Read as many bytes as told. -/
partial def readBytes (input : IO.FS.Stream) (count : Nat) (done : ByteArray) : IO ByteArray := do
  if count ≤ done.size then return done
  let more ← input.read (count - done.size).toUSize
  if more.isEmpty then return done else readBytes input count (done ++ more)

/-- The next text that the editor sends. -/
def readFrame (input : IO.FS.Stream) : IO (Option String) := do
  match ← readLength input none with
  | none => return none
  | some count => return String.fromUTF8? (← readBytes input count .empty)

/-- Send texts to the editor. -/
def send (output : IO.FS.Stream) (texts : List Json) : IO Unit := do
  texts.forM fun text => output.putStr (Wire.frame text.compact)
  output.flush

/-- Wait for a call; meanwhile send the swatches whose time comes. -/
partial def awaitCall (output : IO.FS.Stream) (session : Session) (clock : Nat)
    (pending : Task (Except IO.Error (Option String))) : IO (Session × Nat × Option String) := do
  let now ← IO.monoMsNow
  let (session, messages) := (session.advance (now - clock)).runDue
  send output (messages.map Wire.message)
  if ← IO.hasFinished pending then
    return (session, now, (← IO.ofExcept pending.get))
  else
    IO.sleep 5
    awaitCall output session now pending

/-- Answer an editor until it leaves. -/
partial def serve (input output : IO.FS.Stream) (session : Session) (clock : Nat) : IO UInt32 := do
  let pending ← IO.asTask (readFrame input) .dedicated
  match ← awaitCall output session clock pending with
  | (_, _, none) => return 0
  | (session, now, some text) =>
    match Call.ofText text with
    | .exit => return if session.phase = .stopped then 0 else 1
    | call =>
      let schema := (session.schemaPath? call).toList.map fun path => (⟨path, false⟩ : Reach)
      let files ← schema.foldlM look (← emptyDisk)
      let (session, texts) := session.receive files call
      send output texts
      serve input output session now

/-- The lines about the use of the program. -/
def usage : List String :=
  ["Stylus editor intelligence: symbols, colors and completions from the parse tree", "",
    "Usage: stylus-lens [OPTIONS] <COMMAND>", "",
    "Commands:",
    "  symbols <FILES>...        Print the document outline of each file as JSON",
    "  colors <FILES>...         Print the colors found in each file as JSON",
    "  decorations <FILES>...    Print the inline swatches of each file as JSON",
    "  complete <FILE>           Print completions for a position in a file as JSON",
    "  ast <FILE>                Print the parse tree of a file as JSON",
    "  presentations <COLOR>     Print the alternative spellings of a color",
    "  watch [DIR]               Re-analyze stylesheets below a directory whenever they change",
    "  lsp                       Start the language server on stdin/stdout",
    "  help                      Print this message", "",
    "Options:",
    "  --config <CONFIG>         Config file (default: discover stylus-lens.toml)",
    "  --log-level <LOG_LEVEL>   off, error, warn, info, debug or trace",
    "  -h, --help                Print help",
    "  -V, --version             Print version"]

/-- Tell why no command is run. -/
def explain (stop : Stop) : IO UInt32 := do
  match stop with
  | .help => usage.forM IO.println
  | .version => IO.println "stylus-lens 0.2.0"
  | .misuse => usage.forM IO.eprintln
  return stop.code.toUInt32

/-- Run a command. -/
def perform (invocation : Invocation) : IO UInt32 := do
  let environment ← readEnvironment
  let disk ← emptyDisk
  let disk ← (invocation.settingsReach disk environment).foldlM look disk
  let schema := match invocation.settings disk environment with
    | .ok settings => settings.schemaReach
    | .error _ => []
  let disk ← (schema ++ invocation.command.reach).foldlM look disk
  match invocation.run disk environment with
  | .finish outcome => printOutcome outcome
  | .watch analyzer directory => watch disk analyzer directory
  | .serve settings =>
    serve (← IO.getStdin) (← IO.getStdout) (Session.new settings) (← IO.monoMsNow)

end StyleSense.Terminal

open StyleSense in
/-- Run the command that the arguments ask for. -/
def main (arguments : List String) : IO UInt32 :=
  match Invocation.ofArguments (arguments.map String.toList) with
  | .error stop => Terminal.explain stop
  | .ok invocation => Terminal.perform invocation
