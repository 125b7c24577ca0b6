import StyleSense.Json.Record
import StyleSense.Settings.Basic

/-!
Contract: settings as JSON.

Owns:
- `Settings.toJson` and `Settings.ofJson?`, which reads every dialect. Sections and fields that are
  missing have their defaults;
- `Settings.ofOptions`, the settings that an editor sends.

Does not own: the text of a configuration file (`StyleSense.Toml.Reader`).
-/

namespace StyleSense

open Json (Dialect ofNat ofList optionalField optional withDefault)

namespace LogLevel

/-- Read a level: its name, or an object with that name as its only field, which has no content. -/
def ofJson? (dialect : Dialect) : Json → Option LogLevel
  | .string name => ofName? name
  | .object [(name, content)] => if dialect.isVoid content then ofName? name else none
  | _ => none

end LogLevel

namespace ColorSettings

/-- The section as JSON. -/
def toJson (colors : ColorSettings) : Json :=
  .object
    [("enabled", .bool colors.enabled), ("decorations", .bool colors.decorations),
      ("max_decorations", ofNat colors.maxDecorations), ("debounce_ms", ofNat colors.debounce)]

/-- Read the section. -/
def ofJson? (dialect : Dialect) (j : Json) : Option ColorSettings :=
  match dialect.record? ["enabled", "decorations", "max_decorations", "debounce_ms"] j with
  | some [enabled, decorations, maxDecorations, debounce] => do
    let default : ColorSettings := {}
    return {
      enabled := ← withDefault default.enabled Json.bool? enabled
      decorations := ← withDefault default.decorations Json.bool? decorations
      maxDecorations := ← withDefault default.maxDecorations Json.nat? maxDecorations
      debounce := ← withDefault default.debounce Json.nat? debounce }
  | _ => none

end ColorSettings

namespace SymbolSettings

/-- The section as JSON. -/
def toJson (symbols : SymbolSettings) : Json :=
  .object [("enabled", .bool symbols.enabled)]

/-- Read the section. -/
def ofJson? (dialect : Dialect) (j : Json) : Option SymbolSettings :=
  match dialect.record? ["enabled"] j with
  | some [enabled] => do
    let default : SymbolSettings := {}
    return { enabled := ← withDefault default.enabled Json.bool? enabled }
  | _ => none

end SymbolSettings

namespace CompletionSettings

/-- The section as JSON. -/
def toJson (completion : CompletionSettings) : Json :=
  .object
    ([("enabled", .bool completion.enabled), ("use_separator", .bool completion.useSeparator)]
      ++ optionalField "schema" (fun path => .string path.toString) completion.schema)

/-- Read the section. -/
def ofJson? (dialect : Dialect) (j : Json) : Option CompletionSettings :=
  match dialect.record? ["enabled", "use_separator", "schema"] j with
  | some [enabled, useSeparator, schema] => do
    let default : CompletionSettings := {}
    return {
      enabled := ← withDefault default.enabled Json.bool? enabled
      useSeparator := ← withDefault default.useSeparator Json.bool? useSeparator
      schema := (← optional Json.string? schema).map Path.ofString }
  | _ => none

end CompletionSettings

namespace LogSettings

/-- The section as JSON. -/
def toJson (log : LogSettings) : Json :=
  .object [("level", .string log.level.name)]

/-- Read the section. -/
def ofJson? (dialect : Dialect) (j : Json) : Option LogSettings :=
  match dialect.record? ["level"] j with
  | some [level] => do
    let default : LogSettings := {}
    return { level := ← withDefault default.level (LogLevel.ofJson? dialect) level }
  | _ => none

end LogSettings

namespace WatchSettings

/-- The section as JSON. -/
def toJson (watch : WatchSettings) : Json :=
  .object
    [("debounce_ms", ofNat watch.debounce), ("extensions", ofList .string watch.extensions)]

/-- Read the section. -/
def ofJson? (dialect : Dialect) (j : Json) : Option WatchSettings :=
  match dialect.record? ["debounce_ms", "extensions"] j with
  | some [debounce, extensions] => do
    let default : WatchSettings := {}
    return {
      debounce := ← withDefault default.debounce Json.nat? debounce
      extensions := ← withDefault default.extensions Json.strings? extensions }
  | _ => none

end WatchSettings

namespace Settings

/-- Settings as JSON. -/
def toJson (settings : Settings) : Json :=
  .object
    [("colors", settings.colors.toJson), ("symbols", settings.symbols.toJson),
      ("completion", settings.completion.toJson), ("log", settings.log.toJson),
      ("watch", settings.watch.toJson)]

/-- Read settings. -/
def ofJson? (dialect : Dialect) (j : Json) : Option Settings :=
  match dialect.record? ["colors", "symbols", "completion", "log", "watch"] j with
  | some [colors, symbols, completion, log, watch] => do
    return {
      colors := ← withDefault {} (ColorSettings.ofJson? dialect) colors
      symbols := ← withDefault {} (SymbolSettings.ofJson? dialect) symbols
      completion := ← withDefault {} (CompletionSettings.ofJson? dialect) completion
      log := ← withDefault {} (LogSettings.ofJson? dialect) log
      watch := ← withDefault {} (WatchSettings.ofJson? dialect) watch }
  | _ => none

/-- The settings that an editor sends; without any, the defaults hold. -/
def ofOptions : Option Json → Except SettingsError Settings
  | none | some .null => .ok .default
  | some options =>
    match ofJson? .plain options with
    | none => .error .malformedOptions
    | some settings => settings.check

end Settings

end StyleSense
