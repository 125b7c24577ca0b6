import StyleSense.Line.Basic

/-!
Contract: the nesting of lines by indentation.

Owns:
- `LineTree`, a line with the lines below it;
- `buildForest`, in which the parent of a line is the nearest line before it that is indented less.

Does not own: what a line with its body means (`StyleSense.Statement.Basic`).
-/

namespace StyleSense

/-- A line and the lines of its body. -/
inductive LineTree where
  | node (line : Line) (children : List LineTree)

namespace LineTree

/-- The line at the top. -/
def line : LineTree → Line
  | node line _ => line

/-- Put a line in front of the trees of the lines after it: those that are indented deeper, up to
the first that is not, become its children. -/
def attach (line : Line) (following : List LineTree) : List LineTree :=
  let isDeeper (tree : LineTree) : Bool := line.indent < tree.line.indent
  .node line (following.takeWhile isDeeper) :: following.dropWhile isDeeper

mutual

/-- The lines of a tree from top to bottom. -/
def lines : LineTree → List Line
  | node line children => line :: forestLines children

/-- The lines of some trees from top to bottom. -/
def forestLines : List LineTree → List Line
  | [] => []
  | tree :: rest => tree.lines ++ forestLines rest

end

end LineTree

/-- Arrange lines by indentation. -/
def buildForest (lines : List Line) : List LineTree :=
  lines.foldr LineTree.attach []

end StyleSense
