import StyleSense.Files.Selection
import StyleSense.Watch.Tracker

/-!
Contract: one round of watching.

Owns:
- `FileSystem.changedStylesheets`, the files of which a round is about;
- `Round`, the reports of a round and what is said about them.

Does not own: how often there is a round.
-/

namespace StyleSense

/-- The bytes of a file. -/
def FileSystem.content? (files : FileSystem) (path : Path) : Option ByteArray :=
  match files.find path with
  | .ok (.file content) => some content
  | _ => none

/-- The stylesheets below a directory that are not as they were before. -/
def FileSystem.changedStylesheets (before now : FileSystem) (directory : Path)
    (extensions : List String) : List Path :=
  ((now.everything directory).map Prod.fst).filter fun path =>
    path.isStylesheet extensions && (now.content? path).isSome
      && now.content? path != before.content? path

/-- What came out of a round. -/
structure Round where
  reports : List FileReport
  mended : List Path
deriving DecidableEq, Repr

namespace Round

/-- Sum up files and tell which of them have been mended. -/
def run (files : FileSystem) (analyzer : Analyzer) (tracker : Tracker) (paths : List Path) :
    Tracker × Round :=
  let reports := paths.map (files.report analyzer)
  let (next, mended) := tracker.update reports
  (next, ⟨reports, mended⟩)

/-- The line about a file. -/
def reportLine (report : FileReport) : String :=
  match report.error with
  | some error => report.path.toString ++ ": " ++ error
  | none =>
    report.path.toString ++ ": " ++ toString report.symbols ++ " symbols, "
      ++ toString report.colors ++ " colors"

/-- What is said about a round. -/
def lines (round : Round) : List String :=
  round.mended.map (fun path => "Fixed: " ++ path.toString)
    ++ round.reports.map reportLine
    ++ ["Analyzed " ++ toString round.reports.length ++ " file(s)"]

end Round

end StyleSense
