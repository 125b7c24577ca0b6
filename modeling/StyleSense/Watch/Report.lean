import StyleSense.Analyzer.Basic
import StyleSense.Files.FileSystem

/-!
Contract: the summary of a file.

Owns: `FileReport` and `FileSystem.report`, which records a failure instead of passing it on.

Does not own: which files are summed up (`StyleSense.Files.Selection`).
-/

namespace StyleSense

/-- Numbers about a file, or the reason why there are none. -/
structure FileReport where
  path : Path
  symbols : Nat := 0
  colors : Nat := 0
  error : Option String := none
deriving DecidableEq, Repr

/-- Whether the file could be read and parsed. -/
def FileReport.isOk (report : FileReport) : Bool :=
  report.error.isNone

/-- The summary of a sheet. -/
def Analyzer.report (analyzer : Analyzer) (path : Path) (sheet : Sheet) : FileReport :=
  match sheet.parsed with
  | .error error => { path, error := some error.message }
  | .ok _ =>
    { path
      symbols := (analyzer.symbols sheet).length
      colors := (analyzer.colors sheet).length }

/-- The summary of a file. -/
def FileSystem.report (files : FileSystem) (analyzer : Analyzer) (path : Path) : FileReport :=
  match files.read path with
  | .error fault => { path, error := some fault.message }
  | .ok text => analyzer.report path (.ofText text.toList)

end StyleSense
