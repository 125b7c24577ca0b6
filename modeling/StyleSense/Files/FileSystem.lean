import StyleSense.Files.Path

/-!
Contract: the files that a command can see.

Owns:
- `FileTree`, files and directories by name;
- `FileSystem`, a tree with a working directory;
- `FileSystem.find`, `FileSystem.read` and the faults they end with.

Does not own: patterns of paths (`StyleSense.Files.Glob`).
-/

namespace StyleSense

/-- A file with its bytes, or a directory with its entries. -/
inductive FileTree where
  | file (content : ByteArray)
  | directory (entries : List (List Char × FileTree))

/-- Why a file cannot be read. -/
inductive FileFault where
  | notFound
  | notDirectory
  | isDirectory
  | notText
deriving DecidableEq, Repr

/-- The wording of a fault. -/
def FileFault.message : FileFault → String
  | .notFound => "No such file or directory (os error 2)"
  | .notDirectory => "Not a directory (os error 20)"
  | .isDirectory => "Is a directory (os error 21)"
  | .notText => "stream did not contain valid UTF-8"

namespace FileTree

/-- A directory without entries. -/
def empty : FileTree :=
  .directory []

/-- Whether there are entries below. -/
def isDirectory : FileTree → Bool
  | directory _ => true
  | file _ => false

/-- The entry with a given name. -/
def child? (name : List Char) : FileTree → Option FileTree
  | directory entries => (entries.find? fun entry => entry.1 == name).map Prod.snd
  | file _ => none

/-- Set the entry with a given name; one that is there keeps its place. -/
def setEntry (name : List Char) (tree : FileTree) :
    List (List Char × FileTree) → List (List Char × FileTree)
  | [] => [(name, tree)]
  | (other, old) :: rest =>
    if other = name then (name, tree) :: rest else (other, old) :: setEntry name tree rest

/-- Put `new` at the end of a chain of names, making directories as needed. An empty directory does
not replace one that is there. -/
def insert (new : FileTree) : List (List Char) → FileTree → FileTree
  | [], old =>
    match new, old with
    | directory [], directory entries => directory entries
    | _, _ => new
  | name :: names, old =>
    let entries := match old with
      | directory entries => entries
      | file _ => []
    directory (setEntry name (insert new names ((old.child? name).getD empty)) entries)

mutual

/-- Everything below a directory, each with the names that lead to it. -/
def descendants : FileTree → List (List (List Char) × FileTree)
  | file _ => []
  | directory entries => entryDescendants entries

/-- What stands at and below the entries of a directory. -/
def entryDescendants : List (List Char × FileTree) → List (List (List Char) × FileTree)
  | [] => []
  | (name, tree) :: rest =>
    ([name], tree) :: (descendants tree).map (fun (names, inner) => (name :: names, inner))
      ++ entryDescendants rest

end

/-- Lexicographic order of chains of names. -/
def namesLessEqual : List (List Char) → List (List Char) → Bool
  | [], _ => true
  | _ :: _, [] => false
  | left :: lefts, right :: rights =>
    if left = right then namesLessEqual lefts rights
    else decide (String.ofList left < String.ofList right)

/-- Everything below a directory in order: each directory comes right before what is in it. -/
def sortedDescendants (tree : FileTree) : List (List (List Char) × FileTree) :=
  tree.descendants.mergeSort fun left right => namesLessEqual left.1 right.1

end FileTree

/-- A tree of files and the directory from which relative paths start. -/
structure FileSystem where
  root : FileTree
  /-- The names that lead from the root to the working directory. -/
  working : List (List Char)

namespace FileSystem

/-- A walk from `here` through the texts between slashes; `above` are the directories around `here`,
innermost first. -/
def walk (above : List FileTree) (here : FileTree) : List (List Char) → Except FileFault FileTree
  | [] => .ok here
  | segment :: rest =>
    if !here.isDirectory then .error .notDirectory
    else if Path.isVoid segment then walk above here rest
    else if segment = ['.', '.'] then
      match above with
      | [] => walk [] here rest
      | outer :: outers => walk outers outer rest
    else
      match here.child? segment with
      | none => .error .notFound
      | some inner => walk (here :: above) inner rest

/-- What is at a path. -/
def find (files : FileSystem) (path : Path) : Except FileFault FileTree :=
  if path.text.isEmpty then .error .notFound
  else if path.isAbsolute then walk [] files.root path.segments.tail
  else walk [] files.root (files.working ++ path.segments)

/-- Whether there is something at a path. -/
def pathExists (files : FileSystem) (path : Path) : Bool :=
  (files.find path).isOk

/-- Whether there is a directory at a path. -/
def isDirectory (files : FileSystem) (path : Path) : Bool :=
  match files.find path with
  | .ok tree => tree.isDirectory
  | .error _ => false

/-- Whether there is a file at a path. -/
def isFile (files : FileSystem) (path : Path) : Bool :=
  match files.find path with
  | .ok tree => !tree.isDirectory
  | .error _ => false

/-- The text of a file. -/
def read (files : FileSystem) (path : Path) : Except FileFault String :=
  match files.find path with
  | .error fault => .error fault
  | .ok (.directory _) => .error .isDirectory
  | .ok (.file content) =>
    match String.fromUTF8? content with
    | some text => .ok text
    | none => .error .notText

/-- The working directory as a path. -/
def workingPath (files : FileSystem) : Path :=
  ⟨'/' :: (files.working.flatMap fun name => '/' :: name).tail⟩

/-- No files at all. -/
def empty : FileSystem :=
  ⟨.empty, []⟩

end FileSystem

end StyleSense
