import StyleSense.Completion
import StyleSense.Schema.Bundled
import StyleSense.Settings.Basic

/-!
Contract: the analysis of sheets under given settings.

Owns: `Analyzer`, which answers only what the settings ask for.

Does not own: the file of a schema, which is read by the caller.
-/

namespace StyleSense

/-- Settings and the schema that they name. -/
structure Analyzer where
  settings : Settings
  schema : Schema
deriving DecidableEq, Repr

namespace Analyzer

/-- The analyzer of a user who asks for nothing. -/
def default : Analyzer :=
  ⟨.default, .bundled⟩

/-- The symbols of a sheet. -/
def symbols (analyzer : Analyzer) (sheet : Sheet) : List Symbol :=
  if analyzer.settings.symbols.enabled then sheet.symbols else []

/-- The colors of a sheet. -/
def colors (analyzer : Analyzer) (sheet : Sheet) : List ColorEntry :=
  if analyzer.settings.colors.enabled then sheet.colors else []

/-- The swatches of a sheet. -/
def decorations (analyzer : Analyzer) (sheet : Sheet) : List Decoration :=
  let colors := analyzer.settings.colors
  if colors.decorations then sheet.decorations colors.maxDecorations else []

/-- What completes `word` in a sheet. -/
def completions (analyzer : Analyzer) (sheet : Sheet) (word : List Char) : List Completion :=
  let completion := analyzer.settings.completion
  if completion.enabled then sheet.complete analyzer.schema completion.useSeparator word else []

end Analyzer

end StyleSense
