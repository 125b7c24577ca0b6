import StyleSense.Files.FileSystem

/-!
Contract: patterns of paths.

In a pattern `?` stands for any character, `*` for any characters, `[...]` for one of some
characters and `[!...]` for any other one. `**` must be a whole component and stands for any chain
of directories.

Owns:
- `Glob.Pattern.ofText?`, which refuses a malformed pattern, and `Glob.Pattern.accepts`;
- `FileSystem.glob?`, the paths that a pattern stands for, in order.

Does not own: what is done with them (`StyleSense.Files.Selection`).
-/

namespace StyleSense

namespace Glob

/-- One character or a range of them. -/
inductive Specifier where
  | single (c : Char)
  | range (first last : Char)
deriving DecidableEq, Repr

/-- A part of a pattern. -/
inductive Token where
  | char (c : Char)
  | anyChar
  | anySequence
  | anyDirectories
  | within (specifiers : List Specifier)
  | except (specifiers : List Specifier)
deriving DecidableEq, Repr

/-- Whether a specifier allows a character. -/
def Specifier.allows (c : Char) : Specifier → Bool
  | single only => c == only
  | range first last => first ≤ c && c ≤ last

/-- The specifiers between brackets. -/
def specifiers : List Char → List Specifier
  | first :: '-' :: last :: rest => .range first last :: specifiers rest
  | c :: rest => .single c :: specifiers rest
  | [] => []

/-- Cut a text after its first character at the next `]`. -/
def bracketed? : List Char → Option (List Char × List Char)
  | [] => none
  | first :: rest =>
    match rest.dropWhile (· != ']') with
    | [] => none
    | _ :: after => some (first :: rest.takeWhile (· != ']'), after)

/-- The class that starts after an opening bracket, and what follows it. -/
def class? : List Char → Option (Token × List Char)
  | '!' :: rest => (bracketed? rest).map fun (inside, after) => (.except (specifiers inside), after)
  | rest => (bracketed? rest).map fun (inside, after) => (.within (specifiers inside), after)

/-- The tokens of what is left of a pattern; `atStart` tells whether a component starts here, and
`fuel` bounds the number of tokens. -/
def tokensFrom : (fuel : Nat) → (atStart : Bool) → List Char → Option (List Token)
  | _, _, [] => some []
  | 0, _, _ :: _ => none
  | fuel + 1, atStart, c :: rest =>
    if c == '?' then (tokensFrom fuel false rest).map (.anyChar :: ·)
    else if c == '*' then
      match rest with
      | '*' :: after =>
        match atStart, after with
        | true, [] => some [.anyDirectories]
        | true, '/' :: others => (tokensFrom fuel true others).map (.anyDirectories :: ·)
        | _, _ => none
      | _ => (tokensFrom fuel false rest).map (.anySequence :: ·)
    else if c == '[' then
      match class? rest with
      | none => none
      | some (token, after) => (tokensFrom fuel false after).map (token :: ·)
    else (tokensFrom fuel (c == '/') rest).map (.char c :: ·)

/-- The tokens of a pattern. -/
def tokens? (pattern : List Char) : Option (List Token) :=
  tokensFrom pattern.length true pattern

/-- The text that tokens stand for when they have no wildcard. -/
def literal? (tokens : List Token) : Option (List Char) :=
  tokens.mapM fun token =>
    match token with
    | .char c => some c
    | _ => none

/-- Whether tokens accept a name. -/
def accepts : List Token → List Char → Bool
  | [], name => name.isEmpty
  | .anySequence :: rest, [] => accepts rest []
  | .anySequence :: rest, c :: cs => accepts rest (c :: cs) || accepts (.anySequence :: rest) cs
  | .anyDirectories :: rest, name => name.isEmpty && accepts rest name
  | _ :: _, [] => false
  | .char only :: rest, c :: cs => c == only && accepts rest cs
  | .anyChar :: rest, _ :: cs => accepts rest cs
  | .within allowed :: rest, c :: cs => allowed.any (Specifier.allows c) && accepts rest cs
  | .except refused :: rest, c :: cs => !refused.any (Specifier.allows c) && accepts rest cs
termination_by tokens name => tokens.length + name.length

/-- The pattern of a whole component. -/
inductive Component where
  /-- Any chain of directories. -/
  | directories
  /-- A name without wildcards. -/
  | name (text : List Char)
  /-- A name with wildcards. -/
  | wildcard (tokens : List Token)
deriving DecidableEq, Repr

/-- The pattern that a text between slashes is. -/
def Component.ofText? (text : List Char) : Option Component :=
  (tokens? text).map fun tokens =>
    if tokens = [.anyDirectories] then .directories
    else
      match literal? tokens with
      | some literal => .name literal
      | none => .wildcard tokens

/-- Whether a component accepts the name of a file. -/
def Component.accepts (name : List Char) : Component → Bool
  | directories => false
  | Component.name text => text == name
  | wildcard tokens => Glob.accepts tokens name

/-- A pattern of paths. -/
structure Pattern where
  /-- Where the search starts. -/
  start : Path
  components : List Component
  /-- A slash at the end asks for a directory. -/
  onlyDirectories : Bool
deriving DecidableEq, Repr

/-- The texts between slashes; a slash at the end ends the last of them. -/
def pieces (text : List Char) : List (List Char) :=
  match text.splitOn '/' with
  | [] => []
  | parts => if parts.getLast? == some [] then parts.dropLast else parts

/-- Read a pattern. -/
def Pattern.ofText? (text : List Char) : Option Pattern :=
  (tokens? text).bind fun _ =>
    let absolute := text.head? == some '/'
    let rest := if absolute then text.tail else text
    ((pieces rest).mapM Component.ofText?).map fun components =>
      { start := if absolute then ⟨['/']⟩ else ⟨['.']⟩
        components := if rest.isEmpty then [.name []] else components
        onlyDirectories := text.getLast? == some '/' }

end Glob

namespace FileSystem

open Glob (Component)

/-- A name seen from a directory; the working directory is not mentioned. -/
def entryPath (here : Path) (name : List Char) : Path :=
  if here.isCurrent then ⟨name⟩ else here.join ⟨name⟩

/-- A chain of names seen from a directory. -/
def entryPaths (here : Path) (names : List (List Char)) : Path :=
  names.foldl entryPath here

/-- The names in a directory in order. -/
def names (files : FileSystem) (here : Path) : List (List Char) :=
  match files.find here with
  | .ok (.directory entries) =>
    (entries.map Prod.fst).mergeSort fun left right =>
      decide (String.ofList left ≤ String.ofList right)
  | _ => []

/-- Everything below a directory in order: its path, its name, and whether it is a directory. -/
def everything (files : FileSystem) (here : Path) : List (Path × List Char × Bool) :=
  match files.find here with
  | .ok tree =>
    tree.sortedDescendants.map fun (names, inner) =>
      (entryPaths here names, names.getLastD [], inner.isDirectory)
  | .error _ => []

/-- The special names that a pattern with a leading dot accepts, in the order of the search. -/
def specialNames (tokens : List Glob.Token) : List (List Char) :=
  if tokens.head? == some (.char '.') then
    [['.', '.'], ['.']].filter fun name => Glob.accepts tokens name
  else []

section Expand

variable (files : FileSystem) (onlyDirectories : Bool)

/-- The path at the end of a search, if it is one of those wanted. -/
def result (path : Path) : List Path :=
  if onlyDirectories && !files.isDirectory path then [] else [path]

/-- The paths that a pattern stands for, from a directory on. -/
def expand : List Component → Path → List Path
  | [], path => files.result onlyDirectories path
  | [.directories], here =>
    (files.everything here).filterMap fun (path, _, isDirectory) =>
      if isDirectory then some path else none
  | .directories :: .directories :: rest, here => expand (.directories :: rest) here
  | .directories :: next :: rest, here =>
    (files.everything here).flatMap fun (path, name, _) =>
      if next.accepts name then expand rest path else []
  | .name text :: rest, here =>
    let next := entryPath here text
    let isSpecial := text = ['.'] || text = ['.', '.']
    if if isSpecial then files.isDirectory here else files.pathExists next then expand rest next
    else []
  | .wildcard tokens :: rest, here =>
    let specials := if files.isDirectory here then specialNames tokens else []
    (specials.flatMap fun name => expand rest (here.join ⟨name⟩))
      ++ (files.names here).flatMap fun name =>
        if Glob.accepts tokens name then expand rest (entryPath here name) else []

end Expand

/-- The paths that a pattern stands for; a malformed pattern has none. -/
def glob? (files : FileSystem) (pattern : List Char) : Option (List Path) :=
  (Glob.Pattern.ofText? pattern).map fun pattern =>
    files.expand pattern.onlyDirectories pattern.components pattern.start

end FileSystem

end StyleSense
