import StyleSense.Watch.Report

/-!
Contract: the files that fail from one round to the next.

Owns: `Tracker`, which knows the files whose last report was a failure, and `Tracker.update`, which
tells those that no longer fail. Paths with the same components are one file.

Does not own: the rounds.
-/

namespace StyleSense

/-- The files that fail, each once. -/
structure Tracker where
  failing : List Path
deriving DecidableEq, Repr

namespace Tracker

/-- No file fails. -/
def empty : Tracker :=
  ⟨[]⟩

/-- Whether a file fails. -/
def isFailing (tracker : Tracker) (path : Path) : Bool :=
  tracker.failing.any path.same

/-- The tracker without a file. -/
def erase (tracker : Tracker) (path : Path) : Tracker :=
  ⟨tracker.failing.filter fun other => !path.same other⟩

/-- The tracker with a file. -/
def insert (tracker : Tracker) (path : Path) : Tracker :=
  if tracker.isFailing path then tracker else ⟨tracker.failing ++ [path]⟩

/-- Take in one report; the result tells whether the file has been mended. -/
def record (tracker : Tracker) (report : FileReport) : Tracker × Bool :=
  if report.isOk then (tracker.erase report.path, tracker.isFailing report.path)
  else (tracker.insert report.path, false)

/-- Take in reports; the result tells the files that have been mended. -/
def update (tracker : Tracker) : List FileReport → Tracker × List Path
  | [] => (tracker, [])
  | report :: rest =>
    let (next, isMended) := tracker.record report
    let (last, mended) := next.update rest
    (last, if isMended then report.path :: mended else mended)

/-- Number of files that fail. -/
def count (tracker : Tracker) : Nat :=
  tracker.failing.length

end Tracker

end StyleSense
