import StyleSense.Command.Arguments
import StyleSense.Files.Glob
import StyleSense.Settings.Discovery

/-!
Contract: the part of the disk that a command looks at.

Commands work on a `FileSystem` value, so what they look at has to be known before it is read.

Owns:
- `Reach`, a path together with the question whether everything below it counts;
- `FileSystem.stops`, the places that the walk to a path passes;
- the reach of the settings (`Invocation.settingsReach`) and of a command (`Command.reach`).

Does not own: reading the disk.
-/

namespace StyleSense

/-- Something to look at. -/
structure Reach where
  path : Path
  /-- Whether everything below the path is looked at, too. -/
  isDeep : Bool
deriving DecidableEq, Repr

/-- The places that a walk along segments passes, each as the names that lead to it from the root.
`above` are the names that lead to where the walk starts, innermost first. -/
def Path.stopsFrom (above : List (List Char)) : List (List Char) → List (List (List Char))
  | [] => []
  | segment :: rest =>
    let here :=
      if isVoid segment then above
      else if segment = ['.', '.'] then above.tail
      else segment :: above
    here.reverse :: stopsFrom here rest

/-- The places that the walk to a path passes; the last of them is its end. -/
def FileSystem.stops (files : FileSystem) (path : Path) : List (List (List Char)) :=
  if path.isAbsolute then Path.stopsFrom [] path.segments.tail
  else Path.stopsFrom [] (files.working ++ path.segments)

/-- What a pattern can stand for: the path itself, or everything below the directory in front of the
first wildcard. -/
def Glob.reach (pattern : List Char) : Reach :=
  let isPlain (segment : List Char) : Bool :=
    !segment.any fun c => c == '*' || c == '?' || c == '['
  let segments := pattern.splitOn '/'
  let fixed := segments.takeWhile isPlain
  if fixed.length = segments.length then ⟨⟨pattern⟩, false⟩
  else if fixed.isEmpty then ⟨⟨['.']⟩, true⟩
  else ⟨⟨['/'].intercalate (fixed ++ [[]])⟩, true⟩

/-- What a command looks at. -/
def Command.reach : Command → List Reach
  | symbols files | colors files | decorations files _ => files.map Glob.reach
  | complete file _ _ _ => [⟨file, false⟩]
  | ast file => [⟨file, false⟩]
  | presentations _ => []
  | watch directory => [⟨directory, true⟩]
  | serve => []

/-- Where settings are looked for. -/
def Invocation.settingsReach (invocation : Invocation) (files : FileSystem)
    (environment : Environment) : List Reach :=
  let paths : List Path := match invocation.settingsFile with
    | some path => [path]
    | none =>
      files.workingPath.ancestors.map (fun directory => Path.join directory settingsFileName)
        ++ environment.userFile?.toList
  paths.map fun path => ⟨path, false⟩

/-- Where the schema of some settings is. -/
def Settings.schemaReach (settings : Settings) : List Reach :=
  settings.completion.schema.toList.map fun path => ⟨path, false⟩

end StyleSense
