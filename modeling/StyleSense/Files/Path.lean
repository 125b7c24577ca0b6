/-!
Contract: paths of files.

A path is kept as it was written. Two paths are the same when they have the same components, so a
repeated or trailing slash makes no difference, while a leading `.` does.

Owns:
- `Path`, its components, and their order;
- `Path.join`, `Path.parent?`, `Path.fileName?` and `Path.extension?`.

Does not own: whether there is a file (`StyleSense.Files.FileSystem`).
-/

namespace StyleSense

/-- A path as it was written. -/
structure Path where
  text : List Char
deriving DecidableEq, Repr

/-- A component of a path. -/
inductive Path.Component where
  /-- The slash at the start. -/
  | root
  /-- A `.` at the start. -/
  | current
  | parent
  | name (text : List Char)
deriving DecidableEq, Repr

namespace Path

/-- The path with a given text. -/
def ofString (text : String) : Path :=
  ⟨text.toList⟩

/-- The text of a path. -/
def toString (path : Path) : String :=
  String.ofList path.text

/-- The texts between the slashes. -/
def segments (path : Path) : List (List Char) :=
  path.text.splitOn '/'

/-- Whether a path starts at the root. -/
def isAbsolute (path : Path) : Bool :=
  path.text.head? == some '/'

/-- Whether the text between two slashes is no component. -/
def isVoid (segment : List Char) : Bool :=
  segment.isEmpty || segment == ['.']

/-- The component that a text between slashes is. -/
def Component.ofSegment (segment : List Char) : Component :=
  if segment = ['.', '.'] then .parent else .name segment

/-- The components of a path. -/
def components (path : Path) : List Component :=
  let start : List Component :=
    if path.isAbsolute then [.root]
    else if path.segments.head? == some ['.'] then [.current]
    else []
  start ++ (path.segments.filter fun segment => !isVoid segment).map Component.ofSegment

/-- Whether two paths have the same components. -/
def same (left right : Path) : Bool :=
  left.components == right.components

/-- Whether a path is the working directory itself. -/
def isCurrent (path : Path) : Bool :=
  path.components == [.current]

/-- The place of a component among the kinds of components. -/
def Component.rank : Component → Nat
  | root => 0
  | current => 1
  | parent => 2
  | name _ => 3

/-- Order of components: kinds first, then names. -/
def Component.compare : Component → Component → Ordering
  | name left, name right => Ord.compare (String.ofList left) (String.ofList right)
  | left, right => Ord.compare left.rank right.rank

/-- Lexicographic order of lists of components. -/
def compareComponents : List Component → List Component → Ordering
  | [], [] => .eq
  | [], _ :: _ => .lt
  | _ :: _, [] => .gt
  | left :: lefts, right :: rights => (left.compare right).then (compareComponents lefts rights)

/-- Order of paths, component by component. -/
def lessEqual (left right : Path) : Bool :=
  compareComponents left.components right.components != .gt

/-- A path seen from another one; an absolute path stays as it is. -/
def join (base path : Path) : Path :=
  if path.isAbsolute then path
  else if base.text.isEmpty || base.text.getLast? == some '/' then ⟨base.text ++ path.text⟩
  else ⟨base.text ++ '/' :: path.text⟩

/-- The path without the void segments at its end, and without as many components as told. -/
def dropVoid (segments : List (List Char)) : List (List Char) :=
  (segments.reverse.dropWhile isVoid).reverse

/-- A text made of a start and segments, each with a slash before it. -/
def withSlashes (segments : List (List Char)) : List Char :=
  segments.flatMap fun segment => '/' :: segment

/-- The path without its last component. The root and the empty path have no parent. -/
def parent? (path : Path) : Option Path :=
  if path.isAbsolute then
    match dropVoid path.segments.tail with
    | [] => none
    | segments => some ⟨'/' :: (withSlashes (dropVoid segments.dropLast)).tail⟩
  else if path.segments.head? == some ['.'] then
    match dropVoid path.segments.tail with
    | [] => some ⟨[]⟩
    | segments => some ⟨'.' :: withSlashes (dropVoid segments.dropLast)⟩
  else
    match dropVoid path.segments with
    | [] => none
    | segments => some ⟨(withSlashes (dropVoid segments.dropLast)).tail⟩

/-- The path and its ancestors, nearest first; `count` bounds their number. -/
def ancestorsUpTo : (count : Nat) → Path → List Path
  | 0, path => [path]
  | count + 1, path => path :: (path.parent?.map (ancestorsUpTo count)).getD []

/-- The path and its ancestors, nearest first. -/
def ancestors (path : Path) : List Path :=
  ancestorsUpTo path.text.length path

/-- The name at the end of a path. -/
def fileName? (path : Path) : Option (List Char) :=
  match path.components.getLast? with
  | some (.name text) => some text
  | _ => none

/-- What follows the last dot of a file name, unless the name starts with that dot. -/
def extension? (path : Path) : Option (List Char) :=
  path.fileName?.bind fun name =>
    let reversed := name.reverse
    let isDot (c : Char) : Bool := c == '.'
    match reversed.dropWhile (!isDot ·) with
    | [] => none
    | _ :: stem => if stem.isEmpty then none else some (reversed.takeWhile (!isDot ·)).reverse

end Path

end StyleSense
