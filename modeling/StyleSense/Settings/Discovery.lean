import StyleSense.Settings.Json
import StyleSense.Toml.Reader

/-!
Contract: where settings come from.

Owns:
- `FileSystem.nearestSettings?`, the settings file in the nearest directory that has one;
- `Environment.settingsFile?`, the file in effect when none is named;
- `FileSystem.loadSettings`, the settings that hold;
- `Overrides`, what a command line changes.

Does not own: the options of an editor (`StyleSense.Settings.Json`).
-/

namespace StyleSense

/-- Name of a settings file. -/
def settingsFileName : Path :=
  .ofString "stylus-lens.toml"

/-- Variables of the environment that name directories with settings of the user. -/
structure Environment where
  configHome : Option Path
  home : Option Path
deriving DecidableEq, Repr

namespace Environment

/-- The directory with settings of the user. -/
def configDirectory? (environment : Environment) : Option Path :=
  match environment.configHome with
  | some directory => some directory
  | none => environment.home.map fun home => home.join (.ofString ".config")

/-- The settings file of the user. -/
def userFile? (environment : Environment) : Option Path :=
  environment.configDirectory?.map fun directory =>
    (directory.join (.ofString "stylus-lens")).join settingsFileName

end Environment

/-- The path of a file that is named by a settings file in `root`. -/
def Path.resolve (root path : Path) : Path :=
  if path.isAbsolute then path else root.join path

namespace FileSystem

/-- The settings file in `start` or in the nearest of its ancestors that has one. -/
def nearestSettings? (files : FileSystem) (start : Path) : Option Path :=
  (start.ancestors.map fun directory => directory.join settingsFileName).find? files.pathExists

/-- The settings file that is used when none is named: the nearest one seen from the working
directory, or that of the user. -/
def settingsFile? (files : FileSystem) (environment : Environment) : Option Path :=
  match files.nearestSettings? files.workingPath with
  | some path => some path
  | none => environment.userFile?.filter files.pathExists

/-- The settings in a file. The path of a schema starts at the directory of the file. -/
def readSettings (files : FileSystem) (path : Path) : Except SettingsError Settings :=
  match files.read path with
  | .error fault => .error (.unreadable fault)
  | .ok text =>
    match (Toml.read? text).bind (Settings.ofJson? Toml.dialect) with
    | none => .error .malformedFile
    | some settings =>
      let schema := match path.parent?, settings.completion.schema with
        | some root, some schema => some (root.resolve schema)
        | _, schema => schema
      let completion := { settings.completion with schema }
      { settings with completion }.check

/-- The settings in the file that is named, in the one that is found, or the defaults. -/
def loadSettings (files : FileSystem) (environment : Environment) (named : Option Path) :
    Except SettingsError Settings :=
  match named <|> files.settingsFile? environment with
  | none => .ok .default
  | some path => files.readSettings path

end FileSystem

/-- What a command line changes. -/
structure Overrides where
  maxDecorations : Option Nat := none
  useSeparator : Option Bool := none
  schema : Option Path := none
  logLevel : Option LogLevel := none
deriving DecidableEq, Repr

/-- Settings with what a command line changes. -/
def Settings.override (settings : Settings) (overrides : Overrides) : Settings :=
  { settings with
    colors.maxDecorations := overrides.maxDecorations.getD settings.colors.maxDecorations
    completion.useSeparator := overrides.useSeparator.getD settings.completion.useSeparator
    completion.schema := overrides.schema <|> settings.completion.schema
    log.level := overrides.logLevel.getD settings.log.level }

end StyleSense
