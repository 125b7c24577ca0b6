import StyleSense.Analyzer.Basic
import StyleSense.Files.FileSystem
import StyleSense.Schema.Json

/-!
Contract: the analyzer that settings ask for.

Owns: `FileSystem.analyzer`, which reads the schema that settings name, and `SchemaError`.

Does not own: the settings (`StyleSense.Settings.Discovery`).
-/

namespace StyleSense

/-- Why a schema could not be read. -/
inductive SchemaError where
  | unreadable (fault : FileFault)
  | malformed
deriving DecidableEq, Repr

/-- The wording of an error; the details of a malformed text are left out. -/
def SchemaError.message : SchemaError → String
  | .unreadable fault => "Failed to read schema: " ++ fault.message
  | .malformed => "Failed to parse schema"

namespace FileSystem

/-- The schema in a file. -/
def readSchema (files : FileSystem) (path : Path) : Except SchemaError Schema :=
  match files.read path with
  | .error fault => .error (.unreadable fault)
  | .ok text =>
    match Schema.ofText? text with
    | none => .error .malformed
    | some schema => .ok schema

/-- The analyzer for some settings; without a schema of their own they use the bundled one. -/
def analyzer (files : FileSystem) (settings : Settings) : Except SchemaError Analyzer :=
  match settings.completion.schema with
  | none => .ok ⟨settings, .bundled⟩
  | some path => (files.readSchema path).map fun schema => ⟨settings, schema⟩

end FileSystem

end StyleSense
