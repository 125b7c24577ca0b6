import StyleSense.Files.Glob
import StyleSense.Text.Case

/-!
Contract: choosing the files to work on.

Owns:
- `FileSystem.select`, the files that arguments stand for, each a pattern or a path;
- `FileSystem.stylesheets`, the stylesheets below a directory;
- `Path.isStylesheet`, the same question for a single path.

Does not own: the extensions of stylesheets, which are a setting.
-/

namespace StyleSense

namespace FileSystem

/-- The files that one argument stands for. An argument that matches no file as a pattern is taken
as a path, and there has to be something at that path. -/
def selectOne (files : FileSystem) (argument : List Char) : Option (List Path) :=
  match ((files.glob? argument).getD []).filter files.isFile with
  | [] => if files.pathExists ⟨argument⟩ then some [⟨argument⟩] else none
  | found => some found

/-- The files that arguments stand for, or the first argument that stands for none. -/
def select (files : FileSystem) : List (List Char) → Except (List Char) (List Path)
  | [] => .ok []
  | argument :: rest =>
    match files.selectOne argument with
    | none => .error argument
    | some found =>
      match files.select rest with
      | .error unmatched => .error unmatched
      | .ok others => .ok (found ++ others)

/-- The pattern of the files with a given extension below a directory. -/
def stylesheetPattern (directory : Path) (extension : List Char) : List Char :=
  directory.text ++ "/**/*.".toList ++ extension

/-- Everything below a directory that has one of the extensions, in order. -/
def stylesheets (files : FileSystem) (directory : Path) (extensions : List String) : List Path :=
  (extensions.flatMap fun extension =>
    (files.glob? (stylesheetPattern directory extension.toList)).getD []).mergeSort Path.lessEqual

end FileSystem

/-- Whether a path has one of the extensions; the case of letters does not matter. -/
def Path.isStylesheet (path : Path) (extensions : List String) : Bool :=
  match path.extension? with
  | none => false
  | some extension =>
    let lowered := Text.lowercase extension
    extensions.any fun other => Text.equalIgnoringAsciiCase other.toList lowered

end StyleSense
