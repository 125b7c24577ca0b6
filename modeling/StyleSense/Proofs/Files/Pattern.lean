import StyleSense.Files.Selection
import StyleSense.Proofs.Files.Place
import StyleSense.Proofs.Statement.Comment

/-!
Contract: what the pattern of the stylesheets below a directory stands for.

Owns:
- `Glob.IsPlain`, a text in which every character stands for itself, and how it is read;
- `Path.IsSearchable`, a directory that a pattern can start with, and `Path.searched`, how the
  search comes to it;
- `FileSystem.glob?_stylesheetPattern`, the entries that are found.

Does not own: the stylesheets of several extensions (`StyleSense.Proofs.Files.Stylesheet`).
-/

namespace StyleSense

/-! ## Reading -/

namespace Glob

/-- A text in which every character stands for itself. -/
def IsPlain (text : List Char) : Prop :=
  ∀ c ∈ text, c ≠ '?' ∧ c ≠ '*' ∧ c ≠ '['

instance (text : List Char) : Decidable (IsPlain text) :=
  inferInstanceAs (Decidable (∀ c ∈ text, c ≠ '?' ∧ c ≠ '*' ∧ c ≠ '['))

section Plain

variable {text rest : List Char}

theorem tokensFrom_cons
    {c : Char}
    (plain : c ≠ '?' ∧ c ≠ '*' ∧ c ≠ '[')
    (fuel : Nat)
    (atStart : Bool) :
    tokensFrom (fuel + 1) atStart (c :: rest) =
      (tokensFrom fuel (c == '/') rest).map (.char c :: ·) := by
  obtain ⟨noAny, noSequence, noClass⟩ := plain
  rw [tokensFrom.eq_def]
  simp [noAny, noSequence, noClass]

/-- Each character of a plain text is a token of its own. -/
theorem tokensFrom_plain
    (plain : IsPlain text)
    (fuel : Nat)
    (enough : text.length ≤ fuel)
    (atStart : Bool) :
    tokensFrom fuel atStart text = some (text.map .char) := by
  induction text generalizing fuel atStart with
  | nil => cases fuel <;> rfl
  | cons c later inductionHypothesis =>
    obtain ⟨here, plainLater⟩ := List.forall_mem_cons.1 plain
    obtain ⟨fuel, rfl⟩ : ∃ less, fuel = less + 1 := ⟨fuel - 1, by simp at enough; omega⟩
    rw [tokensFrom_cons here, inductionHypothesis plainLater fuel (by simpa using enough)]
    rfl

/-- Behind a slash a component starts. -/
theorem tokensFrom_append_slash
    (plain : IsPlain text)
    (fuel : Nat)
    (atStart : Bool) :
    tokensFrom (fuel + text.length + 1) atStart (text ++ '/' :: rest) =
      (tokensFrom fuel true rest).map ((text ++ ['/']).map .char ++ ·) := by
  induction text generalizing atStart with
  | nil => exact tokensFrom_cons (by decide) fuel atStart
  | cons c later inductionHypothesis =>
    obtain ⟨here, plainLater⟩ := List.forall_mem_cons.1 plain
    rw [List.cons_append, List.length_cons, ← Nat.add_assoc, tokensFrom_cons here,
      inductionHypothesis plainLater, Option.map_map]
    rfl

theorem literal?_chars (text : List Char) : literal? (text.map .char) = some text := by
  rw [literal?]
  induction text with
  | nil => rfl
  | cons c later inductionHypothesis =>
    rw [List.map_cons, List.mapM_cons, inductionHypothesis]
    rfl

theorem Component.ofText?_plain (plain : IsPlain text) :
    ofText? text = some (.name text) := by
  have noDirectories : text.map Token.char ≠ [.anyDirectories] := by
    cases text <;> simp
  rw [ofText?, tokens?, tokensFrom_plain plain _ (Nat.le_refl _), Option.map_some,
    if_neg noDirectories, literal?_chars]

/-- Plain texts between slashes are names. -/
theorem mapM_ofText?_plain
    {pieces others : List (List Char)}
    (plain : ∀ piece ∈ pieces, IsPlain piece) :
    (pieces ++ others).mapM Component.ofText? =
      (others.mapM Component.ofText?).map (pieces.map .name ++ ·) := by
  induction pieces with
  | nil => exact Option.map_id'.symm
  | cons piece later inductionHypothesis =>
    obtain ⟨here, plainLater⟩ := List.forall_mem_cons.1 plain
    rw [List.cons_append, List.mapM_cons, Component.ofText?_plain here,
      inductionHypothesis plainLater]
    cases others.mapM Component.ofText? <;> rfl

theorem tokensFrom_directories (fuel : Nat) :
    tokensFrom (fuel + 1) true ('*' :: '*' :: '/' :: rest) =
      (tokensFrom fuel true rest).map (.anyDirectories :: ·) :=
  rfl

end Plain

/-! ## Names with an ending -/

/-- The tokens of the names that end in a dot and an extension. -/
def endingTokens (extension : List Char) : List Token :=
  .anySequence :: ('.' :: extension).map .char

section Ending

variable {extension : List Char}

theorem tokensFrom_ending
    (plain : IsPlain extension)
    (fuel : Nat)
    (enough : extension.length ≤ fuel)
    (atStart : Bool) :
    tokensFrom (fuel + 2) atStart ('*' :: '.' :: extension) = some (endingTokens extension) := by
  have plainDot : IsPlain ('.' :: extension) := List.forall_mem_cons.2 ⟨by decide, plain⟩
  have later : tokensFrom (fuel + 2) atStart ('*' :: '.' :: extension) =
      (tokensFrom (fuel + 1) false ('.' :: extension)).map (.anySequence :: ·) := rfl
  rw [later, tokensFrom_plain plainDot (fuel + 1) (Nat.succ_le_succ enough)]
  rfl

theorem Component.ofText?_ending (plain : IsPlain extension) :
    ofText? ('*' :: '.' :: extension) = some (.wildcard (endingTokens extension)) := by
  rw [ofText?, tokens?, List.length_cons, List.length_cons,
    tokensFrom_ending plain _ (Nat.le_refl _)]
  rfl

theorem accepts_chars_iff (text name : List Char) :
    accepts (text.map .char) name = true ↔ name = text := by
  induction text generalizing name with
  | nil => simp [accepts]
  | cons c later inductionHypothesis =>
    cases name with
    | nil => simp [accepts]
    | cons d rest =>
      rw [List.map_cons, accepts, Bool.and_eq_true, beq_iff_eq, inductionHypothesis,
        List.cons.injEq]

theorem accepts_anySequence_iff (tokens : List Token) (name : List Char) :
    accepts (.anySequence :: tokens) name = true ↔
      ∃ rest, rest <:+ name ∧ accepts tokens rest = true := by
  induction name with
  | nil => simp [accepts]
  | cons c later inductionHypothesis =>
    rw [accepts, Bool.or_eq_true, inductionHypothesis]
    constructor
    · rintro (here | ⟨rest, isEnd, accepted⟩)
      · exact ⟨c :: later, List.suffix_rfl, here⟩
      · exact ⟨rest, isEnd.trans (List.suffix_cons c later), accepted⟩
    · rintro ⟨rest, isEnd, accepted⟩
      rcases List.suffix_cons_iff.1 isEnd with rfl | isLater
      · exact Or.inl accepted
      · exact Or.inr ⟨rest, isLater, accepted⟩

theorem accepts_ending_iff (name : List Char) :
    accepts (endingTokens extension) name = true ↔ '.' :: extension <:+ name := by
  rw [endingTokens, accepts_anySequence_iff]
  simp only [accepts_chars_iff, exists_eq_right]

end Ending

end Glob

/-! ## Where the search starts -/

namespace Path

/-- The texts that lead to a path from where it starts. -/
def pieces (path : Path) : List (List Char) :=
  if path.isAbsolute then path.segments.tail else path.segments

/-- Where a path starts. -/
def start (path : Path) : Path :=
  if path.isAbsolute then ⟨['/']⟩ else ⟨['.']⟩

/-- A directory that a pattern can start with: without wildcards, and where it starts in the working
directory the first text that is no dot is a name. -/
structure IsSearchable (directory : Path) : Prop where
  plain : Glob.IsPlain directory.text
  named : directory.isAbsolute = true ∨
    (directory.segments.dropWhile (· == ['.'])).head? ≠ some []

/-- A directory as a search writes it. -/
def searched (directory : Path) : Path :=
  FileSystem.entryPaths directory.start directory.pieces

theorem noSlash_of_mem_pieces {path : Path} {piece : List Char} (isPiece : piece ∈ path.pieces) :
    '/' ∉ piece := by
  rw [pieces] at isPiece
  split at isPiece
  · exact notMem_of_mem_splitOn (List.mem_of_mem_tail isPiece)
  · exact notMem_of_mem_splitOn isPiece

theorem IsSearchable.keepsWay {directory : Path} (searchable : directory.IsSearchable) :
    FileSystem.KeepsWay directory.start directory.pieces := by
  have noSlash piece (isPiece : piece ∈ directory.pieces) := noSlash_of_mem_pieces isPiece
  by_cases absolute : directory.isAbsolute = true
  · rw [start, if_pos absolute]
    exact FileSystem.keepsWay_of_not_isCurrent (List.cons_ne_nil _ _) (by decide) noSlash
  · rw [start, if_neg absolute]
    apply FileSystem.keepsWay_current noSlash
    rw [pieces, if_neg absolute]
    exact searchable.named.resolve_left absolute

theorem steps_pieces (path : Path) :
    path.pieces.filter (fun segment => !isVoid segment) = path.steps := by
  rw [pieces]
  split
  · exact steps_of_isAbsolute ‹_›
  · rfl

end Path

namespace FileSystem

open StyleSense.Path (isVoid)

section Names

variable {files : FileSystem} {directory : Path} {entries : List (List Char × FileTree)}

theorem text_start_ne_nil (path : Path) : path.start.text ≠ [] := by
  rw [Path.start]
  split <;> exact List.cons_ne_nil _ _

theorem isAbsolute_start (path : Path) : path.start.isAbsolute = path.isAbsolute := by
  rw [Path.start]
  split
  · exact Eq.symm ‹_›
  · exact (Bool.not_eq_true _ ▸ ‹¬path.isAbsolute = true›).symm

theorem steps_start (path : Path) : path.start.steps = [] := by
  rw [Path.start]
  split <;> decide

theorem route_eq (files : FileSystem) (path : Path) :
    files.route path = files.route path.start
      ++ path.pieces.filter fun segment => !isVoid segment := by
  rw [route, route, steps_start, isAbsolute_start, List.append_nil, Path.steps_pieces]

theorem searched_continues (searchable : directory.IsSearchable) :
    Continues directory.start directory.pieces directory.searched :=
  entryPaths_continues (text_start_ne_nil directory) (fun _ => Path.noSlash_of_mem_pieces)
    searchable.keepsWay

/-- The search comes to the directory. -/
theorem find_searched
    (searchable : directory.IsSearchable)
    (found : files.find directory = .ok (.directory entries)) :
    files.find directory.searched = .ok (.directory entries) := by
  have continues := searched_continues searchable
  rw [find_directory_iff continues.nonempty, continues.route, ← route_eq]
  exact (find_directory_iff (text_ne_nil_of_find found)).1 found

/-- On the way to a directory there is a directory behind each name, so the search goes on. -/
theorem expand_names
    {here : Path}
    {pieces : List (List Char)}
    (nonempty : here.text ≠ [])
    (noSlash : ∀ piece ∈ pieces, '/' ∉ piece)
    (keeps : KeepsWay here pieces)
    (reached : walk [] files.root
      (files.route here ++ pieces.filter fun segment => !isVoid segment) =
        .ok (.directory entries))
    (onlyDirectories : Bool)
    (rest : List Glob.Component) :
    files.expand onlyDirectories (pieces.map .name ++ rest) here =
      files.expand onlyDirectories rest (entryPaths here pieces) := by
  induction pieces generalizing here with
  | nil => rfl
  | cons piece later inductionHypothesis =>
    obtain ⟨noSlashHere, noSlashLater⟩ := List.forall_mem_cons.1 noSlash
    have step := entryPath_continues nonempty noSlashHere keeps.1
    have onward : walk [] files.root (files.route (entryPath here piece)
        ++ later.filter fun segment => !isVoid segment) = .ok (.directory entries) := by
      rw [step.route, List.append_assoc, ← List.filter_append]
      exact reached
    have isThere : files.isDirectory here = true := by
      obtain ⟨others, found⟩ := walk_before reached
      rw [isDirectory, (find_directory_iff nonempty).2 found]
      rfl
    have isBehind : files.pathExists (entryPath here piece) = true := by
      obtain ⟨others, found⟩ := walk_before onward
      rw [pathExists, (find_directory_iff step.nonempty).2 found]
      rfl
    rw [List.map_cons, List.cons_append, expand]
    simp only [isThere, isBehind, ite_self, if_true]
    exact inductionHypothesis step.nonempty noSlashLater keeps.2 onward

end Names

/-! ## What is found -/

section Found

variable {files : FileSystem} {directory : Path} {entries : List (List Char × FileTree)}
  {extension : List Char}

theorem stylesheetPattern_eq (directory : Path) (extension : List Char) :
    stylesheetPattern directory extension =
      directory.text ++ '/' :: '*' :: '*' :: '/' :: '*' :: '.' :: extension := by
  rw [stylesheetPattern, List.append_assoc]
  rfl

theorem mem_of_mem_segments
    {text segment : List Char}
    {c : Char}
    (isSegment : segment ∈ text.splitOn '/')
    (isIn : c ∈ segment) :
    c ∈ text := by
  induction text generalizing segment with
  | nil =>
    rw [List.splitOn_nil, List.mem_singleton] at isSegment
    exact isSegment ▸ isIn
  | cons d rest inductionHypothesis =>
    rw [List.splitOn_cons_eq_if_modifyHead] at isSegment
    split at isSegment
    · rcases List.mem_cons.1 isSegment with rfl | isLater
      · cases isIn
      · exact List.mem_cons_of_mem _ (inductionHypothesis isLater isIn)
    · obtain ⟨first, others, split⟩ := List.exists_cons_of_ne_nil (List.splitOn_ne_nil '/' rest)
      rw [split] at isSegment inductionHypothesis
      rcases List.mem_cons.1 isSegment with rfl | isLater
      · rcases List.mem_cons.1 isIn with rfl | isIn
        · exact List.mem_cons_self
        · exact List.mem_cons_of_mem _ (inductionHypothesis List.mem_cons_self isIn)
      · exact List.mem_cons_of_mem _ (inductionHypothesis (List.mem_cons_of_mem _ isLater) isIn)

theorem isPlain_of_mem_pieces
    (plain : Glob.IsPlain directory.text)
    {piece : List Char}
    (isPiece : piece ∈ directory.pieces) :
    Glob.IsPlain piece := by
  have isSegment : piece ∈ directory.segments := by
    rw [Path.pieces] at isPiece
    split at isPiece
    · exact List.mem_of_mem_tail isPiece
    · exact isPiece
  intro c isIn
  exact plain c (mem_of_mem_segments isSegment isIn)

theorem pieces_pattern (noSlash : '/' ∉ extension) (text : List Char) :
    Glob.pieces (text ++ '/' :: '*' :: '*' :: '/' :: '*' :: '.' :: extension) =
      text.splitOn '/' ++ [['*', '*'], '*' :: '.' :: extension] := by
  have ending : ('*' :: '.' :: extension).splitOn '/' = ['*' :: '.' :: extension] :=
    List.splitOn_eq_singleton (by simpa using noSlash)
  have split : (text ++ '/' :: '*' :: '*' :: '/' :: '*' :: '.' :: extension).splitOn '/' =
      text.splitOn '/' ++ [['*', '*'], '*' :: '.' :: extension] := by
    have first := Path.segments_append_slash text ('*' :: '*' :: '/' :: '*' :: '.' :: extension)
    have second := Path.segments_append_slash ['*', '*'] ('*' :: '.' :: extension)
    rw [Path.segments, Path.segments, Path.segments] at first second
    rw [first, show '*' :: '*' :: '/' :: '*' :: '.' :: extension =
      ['*', '*'] ++ '/' :: '*' :: '.' :: extension from rfl, second, ending]
    rfl
  rw [Glob.pieces, split]
  obtain ⟨first, later, texts⟩ := List.exists_cons_of_ne_nil (List.splitOn_ne_nil '/' text)
  have last : (text.splitOn '/' ++ [['*', '*'], '*' :: '.' :: extension]).getLast? =
      some ('*' :: '.' :: extension) := by
    rw [List.append_cons, List.getLast?_concat]
  rw [texts] at last ⊢
  simp only [List.cons_append] at last ⊢
  rw [last]
  rfl

theorem isSome_tokens?_stylesheetPattern
    (plainText : Glob.IsPlain directory.text)
    (plain : Glob.IsPlain extension) :
    (Glob.tokens? (stylesheetPattern directory extension)).isSome = true := by
  have length : (stylesheetPattern directory extension).length =
      extension.length + 2 + 2 + 1 + directory.text.length + 1 := by
    rw [stylesheetPattern_eq]
    simp only [List.length_append, List.length_cons]
    omega
  rw [Glob.tokens?, length, stylesheetPattern_eq, Glob.tokensFrom_append_slash plainText,
    Glob.tokensFrom_directories, Glob.tokensFrom_ending plain _ (by omega)]
  rfl

theorem getLast?_stylesheetPattern (noSlash : '/' ∉ extension) :
    (stylesheetPattern directory extension).getLast? ≠ some '/' := by
  intro slash
  have split : stylesheetPattern directory extension =
      (directory.text ++ ['/', '*', '*', '/', '*']) ++ '.' :: extension := by
    rw [stylesheetPattern_eq, List.append_assoc]
    rfl
  rw [split, List.getLast?_append_of_ne_nil _ (List.cons_ne_nil _ _)] at slash
  rcases List.mem_cons.1 (List.mem_of_getLast? slash) with dot | isIn
  · cases dot
  · exact noSlash isIn

/-- Behind the place where the search starts come the texts of the directory, any chain of
directories, and a name with an ending. -/
theorem pieces_stylesheetPattern
    (nonempty : directory.text ≠ [])
    (noSlash : '/' ∉ extension) :
    let pattern := stylesheetPattern directory extension
    let rest := if directory.isAbsolute then pattern.tail else pattern
    rest.isEmpty = false ∧
      Glob.pieces rest = directory.pieces ++ [['*', '*'], '*' :: '.' :: extension] := by
  intro pattern rest
  obtain ⟨text, restText, texts⟩ : ∃ text,
      rest = text ++ '/' :: '*' :: '*' :: '/' :: '*' :: '.' :: extension ∧
        text.splitOn '/' = directory.pieces := by
    by_cases absolute : directory.isAbsolute = true
    · have segments := Path.segments_of_isAbsolute absolute
      obtain ⟨c, later, directoryText⟩ := List.exists_cons_of_ne_nil nonempty
      obtain rfl : c = '/' := by simpa [Path.isAbsolute, directoryText] using absolute
      refine ⟨later, ?_, ?_⟩
      · simp only [rest, pattern, stylesheetPattern_eq, absolute, if_true, directoryText]
        rfl
      · have split := Path.segments_append_slash [] later
        rw [Path.pieces, if_pos absolute, Path.segments, directoryText]
        exact (congrArg List.tail split).symm
    · refine ⟨directory.text, ?_, ?_⟩
      · simp only [rest, pattern, stylesheetPattern_eq, absolute]
        rfl
      · rw [Path.pieces, if_neg absolute]
        rfl
  rw [restText]
  refine ⟨by simp, ?_⟩
  rw [pieces_pattern noSlash, texts]

/-- A pattern of stylesheets is read as names, any chain of directories, and names with an ending. -/
theorem ofText?_stylesheetPattern
    (plainText : Glob.IsPlain directory.text)
    (nonempty : directory.text ≠ [])
    (plain : Glob.IsPlain extension)
    (noSlash : '/' ∉ extension) :
    Glob.Pattern.ofText? (stylesheetPattern directory extension) =
      some {
        start := directory.start
        components := directory.pieces.map .name
          ++ [.directories, .wildcard (Glob.endingTokens extension)]
        onlyDirectories := false } := by
  have atRoot : ((stylesheetPattern directory extension).head? == some '/') =
      directory.isAbsolute := by
    rw [stylesheetPattern_eq, Path.isAbsolute, List.head?_append_of_ne_nil _ nonempty]
  have notAtEnd : ((stylesheetPattern directory extension).getLast? == some '/') = false :=
    beq_false_of_ne (getLast?_stylesheetPattern noSlash)
  have components : (directory.pieces ++ [['*', '*'], '*' :: '.' :: extension]).mapM
      Glob.Component.ofText? = some (directory.pieces.map .name
        ++ [.directories, .wildcard (Glob.endingTokens extension)]) := by
    rw [Glob.mapM_ofText?_plain fun piece isPiece => isPlain_of_mem_pieces plainText isPiece,
      List.mapM_cons, List.mapM_cons, Glob.Component.ofText?_ending plain]
    rfl
  obtain ⟨nonemptyRest, pieces⟩ := pieces_stylesheetPattern nonempty noSlash
  obtain ⟨tokens, read⟩ :=
    Option.isSome_iff_exists.1 (isSome_tokens?_stylesheetPattern plainText plain)
  rw [Glob.Pattern.ofText?, read, Option.bind_some]
  simp only [atRoot, notAtEnd, nonemptyRest, pieces, components]
  rfl

/-- Behind any chain of directories comes whatever has a fitting name. -/
theorem expand_directories (tokens : List Glob.Token) (here : Path) :
    files.expand false [.directories, .wildcard tokens] here =
      ((files.everything here).filter fun entry => Glob.accepts tokens entry.2.1).map Prod.fst := by
  rw [expand]
  · induction files.everything here with
    | nil => rfl
    | cons entry later inductionHypothesis =>
      rw [List.flatMap_cons, inductionHypothesis, List.filter_cons]
      cases accepted : Glob.accepts tokens entry.2.1 <;>
        simp [Glob.Component.accepts, accepted, expand, result]
  · exact nofun

/-- The entries below the directory whose names end in a dot and the extension. -/
theorem glob?_stylesheetPattern
    (searchable : directory.IsSearchable)
    (found : files.find directory = .ok (.directory entries))
    (plain : Glob.IsPlain extension)
    (noSlash : '/' ∉ extension) :
    files.glob? (stylesheetPattern directory extension) =
      some (((FileTree.directory entries).sortedDescendants.filter fun below =>
        Glob.accepts (Glob.endingTokens extension) (below.1.getLastD [])).map fun below =>
          entryPaths directory.searched below.1) := by
  have nonempty := text_ne_nil_of_find found
  have searchedFound := find_searched searchable found
  have reached : walk [] files.root (files.route directory.start
      ++ directory.pieces.filter fun segment => !isVoid segment) = .ok (.directory entries) := by
    rw [← route_eq]
    exact (find_directory_iff nonempty).1 found
  rw [glob?, ofText?_stylesheetPattern searchable.plain nonempty plain noSlash, Option.map_some]
  congr 1
  rw [expand_names (text_start_ne_nil directory) (fun _ => Path.noSlash_of_mem_pieces)
    searchable.keepsWay reached, ← Path.searched, expand_directories, everything, searchedFound]
  simp only [List.filter_map, List.map_map]
  rfl

end Found

end FileSystem
end StyleSense
