import StyleSense.Files.FileSystem

/-!
Contract: the settings of the program.

Owns:
- `Settings` with its sections and their defaults;
- `Settings.faults`, what is wrong with settings, and its wording.

Does not own: JSON (`StyleSense.Settings.Json`), configuration files
(`StyleSense.Settings.Discovery`).
-/

namespace StyleSense

/-- How much is logged. -/
inductive LogLevel where
  | off
  | error
  | warn
  | info
  | debug
  | trace
deriving DecidableEq, Repr

namespace LogLevel

/-- The name of a level. -/
def name : LogLevel → String
  | off => "off"
  | error => "error"
  | warn => "warn"
  | info => "info"
  | debug => "debug"
  | trace => "trace"

/-- The levels from quiet to loud. -/
def all : List LogLevel :=
  [off, error, warn, info, debug, trace]

/-- The level with a given name. -/
def ofName? (name : String) : Option LogLevel :=
  all.find? fun level => level.name = name

end LogLevel

/-- Colors and swatches. -/
structure ColorSettings where
  enabled : Bool := true
  decorations : Bool := true
  /-- At most this many swatches are shown. -/
  maxDecorations : Nat := 500
  /-- Quiet time after an edit, in milliseconds, before swatches are computed. -/
  debounce : Nat := 400
deriving DecidableEq, Repr

/-- The outline. -/
structure SymbolSettings where
  enabled : Bool := true
deriving DecidableEq, Repr

/-- Completion. -/
structure CompletionSettings where
  enabled : Bool := true
  /-- Insert a colon after the name of a property. -/
  useSeparator : Bool := true
  /-- A file with a schema that replaces the one that comes with the program. -/
  schema : Option Path := none
deriving DecidableEq, Repr

/-- Logging. -/
structure LogSettings where
  level : LogLevel := .warn
deriving DecidableEq, Repr

/-- Watching files. -/
structure WatchSettings where
  /-- Quiet time after a change, in milliseconds. -/
  debounce : Nat := 100
  /-- The files with these extensions are stylesheets. -/
  extensions : List String := ["styl", "stylus"]
deriving DecidableEq, Repr

/-- All settings. -/
structure Settings where
  colors : ColorSettings := {}
  symbols : SymbolSettings := {}
  completion : CompletionSettings := {}
  log : LogSettings := {}
  watch : WatchSettings := {}
deriving DecidableEq, Repr

/-- The settings of a user who asks for nothing. -/
def Settings.default : Settings := {}

/-- What can be wrong with settings. -/
inductive SettingsFault where
  | noDecorations
  | noWatchDebounce
  | noExtensions
  | badExtension (index : Nat)
deriving DecidableEq, Repr

/-- The setting that is wrong. -/
def SettingsFault.field : SettingsFault → String
  | .noDecorations => "colors.max_decorations"
  | .noWatchDebounce => "watch.debounce_ms"
  | .noExtensions => "watch.extensions"
  | .badExtension index => "watch.extensions[" ++ toString index ++ "]"

/-- What a setting has to be. -/
def SettingsFault.demand : SettingsFault → String
  | .noDecorations | .noWatchDebounce => "must be a positive integer"
  | .noExtensions => "must contain at least one extension"
  | .badExtension _ => "must be an extension without a leading dot"

/-- The wording of a fault. -/
def SettingsFault.message (fault : SettingsFault) : String :=
  "stylus-lens.toml: '" ++ fault.field ++ "' " ++ fault.demand

/-- An extension is written without its dot. -/
def isExtension (extension : String) : Bool :=
  !extension.isEmpty && extension.toList.head? != some '.'

/-- The faults of extensions, the first of which has the given index. -/
def extensionFaults (index : Nat) : List String → List SettingsFault
  | [] => []
  | extension :: rest =>
    (if isExtension extension then [] else [.badExtension index]) ++
      extensionFaults (index + 1) rest

namespace Settings

/-- Everything that is wrong with settings. -/
def faults (settings : Settings) : List SettingsFault :=
  (if settings.colors.maxDecorations = 0 then [.noDecorations] else [])
    ++ (if settings.watch.debounce = 0 then [.noWatchDebounce] else [])
    ++ (if settings.watch.extensions.isEmpty then [.noExtensions] else [])
    ++ extensionFaults 0 settings.watch.extensions

/-- Whether nothing is wrong. -/
def isValid (settings : Settings) : Bool :=
  settings.faults.isEmpty

end Settings

/-- Why no settings could be read. -/
inductive SettingsError where
  /-- The file cannot be read. -/
  | unreadable (fault : FileFault)
  /-- The file is not in the right format. -/
  | malformedFile
  /-- The options of an editor have the wrong shape. -/
  | malformedOptions
  /-- The settings are not valid. -/
  | invalid (faults : List SettingsFault)
deriving DecidableEq, Repr

/-- The wording of an error; the details of a malformed text are left out. -/
def SettingsError.message : SettingsError → String
  | .unreadable fault => "Failed to read config: " ++ fault.message
  | .malformedFile => "Failed to parse stylus-lens.toml"
  | .malformedOptions => "Failed to parse initialization options"
  | .invalid faults =>
    "Config validation failed:\n"
      ++ "\n".intercalate (faults.map fun fault => "  - " ++ fault.message)

/-- Accept settings that are valid. -/
def Settings.check (settings : Settings) : Except SettingsError Settings :=
  if settings.isValid then .ok settings else .error (.invalid settings.faults)

end StyleSense
