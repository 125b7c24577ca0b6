import StyleSense.Proofs.Files.Ancestor
import StyleSense.Proofs.Files.Named

/-!
Contract: the files that arguments stand for.

Every argument is a pattern first, and a path only where the pattern matches no file. So a file that
is named by its path is chosen, unless brackets in the name make it a pattern of other files.

Owns:
- `FileSystem.Matches`, the files that a pattern stands for, and `FileSystem.selectOne_cases`;
- `FileSystem.Contributes`, what an argument adds to the files;
- `select_cases`.

Does not own: the stylesheets below a directory (`StyleSense.Proofs.Files.Stylesheet`).
-/

namespace StyleSense

open StyleSense.Path (isVoid IsFileName)

/-- The same way as that of another path, though it may be written without the dot at its start. -/
structure Path.SameWay (path other : Path) : Prop where
  sameRoot : path.isAbsolute = other.isAbsolute
  sameSteps : path.steps = other.steps
  same : other.segments.head? ≠ some ['.'] → path.same other = true

/-! ## A path to a file as a pattern -/

namespace Path

variable {path : Path} {last : List Char}

theorem getLast?_pieces
    (isName : IsFileName last)
    (ends : path.segments.getLast? = some last) :
    path.pieces.getLast? = some last := by
  rw [pieces]
  split
  · rename_i absolute
    rw [segments_of_isAbsolute absolute] at ends
    cases later : path.segments.tail with
    | nil =>
      rw [later] at ends
      exact absurd (Option.some.inj ends).symm isName.ne_nil
    | cons piece rest =>
      rw [later, List.getLast?_cons_cons] at ends
      exact ends
  · exact ends

/-- The text of a path without the slash at its start. -/
def relativeText (path : Path) : List Char :=
  if path.text.head? == some '/' then path.text.tail else path.text

theorem splitOn_relativeText (path : Path) : path.relativeText.splitOn '/' = path.pieces := by
  obtain ⟨text⟩ := path
  rw [pieces, isAbsolute, relativeText]
  cases text with
  | nil => rfl
  | cons c later =>
    by_cases slash : c = '/'
    · subst slash
      exact (congrArg List.tail (segments_append_slash [] later)).symm
    · have relative : ((c :: later).head? == some '/') = false := by simpa using slash
      rw [relative]
      rfl

theorem getLast?_text_ne_slash
    (isName : IsFileName last)
    (ends : path.segments.getLast? = some last) :
    path.text.getLast? ≠ some '/' := by
  intro slash
  have split : path.segments = (⟨path.text.dropLast⟩ : Path).segments ++ [[]] := by
    have joined := segments_append_slash path.text.dropLast []
    rw [List.dropLast_append_getLast? '/' slash] at joined
    exact joined
  rw [split, List.getLast?_concat] at ends
  exact isName.ne_nil (Option.some.inj ends).symm

theorem pieces_relativeText
    (isName : IsFileName last)
    (ends : path.segments.getLast? = some last) :
    path.relativeText.isEmpty = false ∧ Glob.pieces path.relativeText = path.pieces := by
  have endsPieces := getLast?_pieces isName ends
  have split := splitOn_relativeText path
  constructor
  · cases text : path.relativeText with
    | nil =>
      rw [← split, text] at endsPieces
      exact absurd (Option.some.inj endsPieces).symm isName.ne_nil
    | cons c later => rfl
  · have notVoid : (path.pieces.getLast? == some []) = false := by
      rw [endsPieces]
      simpa using isName.ne_nil
    obtain ⟨piece, others, whole⟩ :=
      List.exists_cons_of_ne_nil (split ▸ List.splitOn_ne_nil '/' path.relativeText)
    rw [Glob.pieces, split]
    rw [whole] at notVoid ⊢
    simp only [notVoid]
    rfl

/-- A path with a name at its end is read as a pattern piece by piece. -/
theorem ofText?_eq_some
    {pattern : Glob.Pattern}
    (isName : IsFileName last)
    (ends : path.segments.getLast? = some last)
    (read : Glob.Pattern.ofText? path.text = some pattern) :
    pattern.start = path.start ∧ pattern.onlyDirectories = false ∧
      path.pieces.mapM Glob.Component.ofText? = some pattern.components := by
  obtain ⟨notEmpty, pieces⟩ := pieces_relativeText isName ends
  rw [Glob.Pattern.ofText?] at read
  obtain ⟨tokens, _, read⟩ := Option.bind_eq_some_iff.1 read
  obtain ⟨components, readComponents, rfl⟩ := Option.map_eq_some_iff.1 read
  rw [← relativeText, pieces] at readComponents
  refine ⟨rfl, beq_false_of_ne (getLast?_text_ne_slash isName ends), ?_⟩
  rw [readComponents, ← relativeText, notEmpty]
  rfl

end Path

namespace FileSystem

variable {files : FileSystem} {path : Path}

/-- A path to a file ends in a name. -/
theorem exists_name_of_file
    {content : ByteArray}
    (found : files.find path = .ok (.file content)) :
    ∃ start last, path.segments = start ++ [last] ∧ IsFileName last := by
  have nonempty : path.pieces ≠ [] :=
    Path.splitOn_relativeText path ▸ List.splitOn_ne_nil '/' path.relativeText
  obtain ⟨first, last, pieces⟩ : ∃ first last, path.pieces = first ++ [last] :=
    ⟨_, _, (List.dropLast_append_getLast nonempty).symm⟩
  have noSlash : '/' ∉ last :=
    Path.noSlash_of_mem_pieces (pieces ▸ List.mem_append_right _ List.mem_cons_self)
  have nothingAround : ∀ tree ∈ ([] : List FileTree), tree.isDirectory = true := by simp
  rw [find] at found
  rw [Path.pieces] at pieces
  split at found
  · cases found
  · split at found
    · rename_i absolute
      rw [if_pos absolute] at pieces
      rw [pieces] at found
      refine ⟨[] :: first, last, ?_, isFileName_of_walk_file nothingAround noSlash found⟩
      rw [Path.segments_of_isAbsolute absolute, pieces]
      rfl
    · rename_i relative
      rw [if_neg relative] at pieces
      rw [pieces, ← List.append_assoc] at found
      exact ⟨first, last, pieces, isFileName_of_walk_file nothingAround noSlash found⟩

/-- The pieces of a path to a file lead from its start to the file. -/
theorem isOnWay_of_file
    {content : ByteArray}
    (found : files.find path = .ok (.file content))
    (keeps : KeepsWay path.start path.pieces) :
    files.IsOnWay path.start path.pieces := by
  obtain ⟨start, last, segments, isName⟩ := exists_name_of_file found
  refine ⟨text_start_ne_nil path, fun _ => Path.noSlash_of_mem_pieces, keeps, ?_, content, ?_⟩
  · have ends := Path.getLast?_pieces isName (by rw [segments, List.getLast?_concat])
    intro other isLast
    rw [ends] at isLast
    cases isLast
    exact isName
  · rw [← route_eq, ← find_of_name segments isName.notVoid, found]

/-- A search that starts in the working directory with an empty name finds nothing. -/
theorem expand_of_no_name
    {components : List Glob.Component}
    {pieces : List (List Char)}
    (read : pieces.mapM Glob.Component.ofText? = some components)
    (noName : (pieces.dropWhile (· == ['.'])).head? = some []) :
    files.expand false components ⟨['.']⟩ = [] := by
  induction pieces generalizing components with
  | nil => cases noName
  | cons piece rest inductionHypothesis =>
    obtain ⟨first, others, readFirst, readRest, rfl⟩ := Glob.Component.exists_of_mapM_cons read
    by_cases dot : piece = ['.']
    · subst dot
      rw [Glob.Component.ofText?_plain (by decide)] at readFirst
      cases readFirst
      have noNameLater : (rest.dropWhile (· == ['.'])).head? = some [] := noName
      have stays : entryPath ⟨['.']⟩ ['.'] = ⟨['.']⟩ := by decide
      rw [expand, stays, inductionHypothesis readRest noNameLater]
      simp
    · rw [List.dropWhile_cons_of_neg (by simpa using dot)] at noName
      obtain rfl : piece = [] := Option.some.inj noName
      rw [Glob.Component.ofText?_plain (by decide)] at readFirst
      cases readFirst
      have nowhere : entryPath ⟨['.']⟩ [] = ⟨[]⟩ := by decide
      have nothing : files.pathExists ⟨[]⟩ = false := rfl
      rw [expand, nowhere]
      simp [nothing]

/-! ## The path that a search writes -/

theorem head?_segments_entryPaths
    {here : Path}
    {pieces : List (List Char)}
    (nonempty : here.text ≠ [])
    (elsewhere : here.isCurrent = false)
    (noSlash : ∀ piece ∈ pieces, '/' ∉ piece) :
    (entryPaths here pieces).segments.head? = here.segments.head? := by
  induction pieces generalizing here with
  | nil => rfl
  | cons piece rest inductionHypothesis =>
    obtain ⟨noSlashHere, noSlashLater⟩ := List.forall_mem_cons.1 noSlash
    have named : here.isCurrent = true → piece ≠ [] := by simp [elsewhere]
    have continues := entryPath_continues nonempty noSlashHere named
    have first : (entryPath here piece).segments.head? = here.segments.head? := by
      rw [entryPath, if_neg (by simp [elsewhere])]
      exact Path.head?_segments_join nonempty noSlashHere
    rw [← first]
    exact inductionHypothesis continues.nonempty
      (not_isCurrent_entryPath nonempty noSlashHere elsewhere) noSlashLater

/-- A search that starts in the working directory writes the first name first. -/
theorem head?_segments_searched
    (relative : path.isAbsolute = false)
    (notDotted : path.segments.head? ≠ some ['.'])
    (keeps : KeepsWay path.start path.pieces) :
    path.searched.segments.head? ≠ some ['.'] := by
  have noSlash piece (isPiece : piece ∈ path.pieces) := Path.noSlash_of_mem_pieces isPiece
  have starts : path.start = ⟨['.']⟩ := by rw [Path.start, relative]; rfl
  have pieces : path.pieces = path.segments := by rw [Path.pieces, relative]; rfl
  obtain ⟨first, rest, split⟩ := List.exists_cons_of_ne_nil (List.splitOn_ne_nil '/' path.text)
  rw [← Path.segments, ← pieces] at split
  rw [split] at keeps noSlash
  obtain ⟨noSlashFirst, noSlashRest⟩ := List.forall_mem_cons.1 noSlash
  have notDot : first ≠ ['.'] := by
    rintro rfl
    rw [← pieces, split] at notDotted
    exact notDotted rfl
  have atFirst : entryPath ⟨['.']⟩ first = ⟨first⟩ := rfl
  have nonempty : first ≠ [] := keeps.1 (by rw [starts]; rfl)
  have segments : (⟨first⟩ : Path).segments = [first] := Path.segments_of_noSlash noSlashFirst
  have elsewhere : (⟨first⟩ : Path).isCurrent = false := by
    by_contra isCurrent
    obtain ⟨_, dotted, _⟩ := (Path.isCurrent_iff _).1 (Bool.not_eq_false _ ▸ isCurrent)
    rw [segments] at dotted
    exact notDot (Option.some.inj dotted)
  rw [Path.searched, starts, split, entryPaths, List.foldl_cons, ← entryPaths, atFirst,
    head?_segments_entryPaths nonempty elsewhere noSlashRest, segments]
  exact fun same => notDot (Option.some.inj same)

theorem searched_sameWay (keeps : KeepsWay path.start path.pieces) :
    path.searched.SameWay path := by
  have continues := entryPaths_continues (text_start_ne_nil path)
    (fun _ => Path.noSlash_of_mem_pieces) keeps
  have sameRoot : path.searched.isAbsolute = path.isAbsolute :=
    continues.isAbsolute.trans (isAbsolute_start path)
  have sameSteps : path.searched.steps = path.steps := by
    rw [Path.searched, continues.steps, steps_start, List.nil_append, Path.steps_pieces]
  refine ⟨sameRoot, sameSteps, fun notDotted => ?_⟩
  have sameOrigin : path.searched.origin = path.origin := by
    rw [Path.origin, Path.origin, sameRoot]
    cases relative : path.isAbsolute with
    | true => rfl
    | false =>
      have notDottedSearched := head?_segments_searched relative notDotted keeps
      rw [if_neg Bool.false_ne_true, if_neg Bool.false_ne_true,
        if_neg (by simpa using notDottedSearched), if_neg (by simpa using notDotted)]
  rw [Path.same, Path.components_eq, Path.components_eq, sameOrigin, sameSteps]
  exact beq_self_eq_true _

/-- At the path that the search writes is the same file. -/
theorem find_searched_of_file
    {content : ByteArray}
    (found : files.find path = .ok (.file content))
    (keeps : KeepsWay path.start path.pieces) :
    files.find path.searched = files.find path := by
  obtain ⟨start, last, segments, isName⟩ := exists_name_of_file found
  have ends : path.pieces.getLast? = some last :=
    Path.getLast?_pieces isName (by rw [segments, List.getLast?_concat])
  obtain ⟨first, pieces⟩ : ∃ first, path.pieces = first ++ [last] :=
    ⟨_, (List.dropLast_append_getLast? last ends).symm⟩
  obtain ⟨before, searchedSegments⟩ : ∃ before, path.searched.segments = before ++ [last] := by
    have onWay := isOnWay_of_file found keeps
    rw [pieces] at onWay
    rw [Path.searched, pieces, entryPaths, List.foldl_concat]
    exact exists_segments_entryPath onWay.steps.nonempty
      (onWay.steps.noSlash last List.mem_cons_self)
  have sameWay := searched_sameWay keeps
  have sameRoute : files.route path.searched = files.route path := by
    rw [route, route, sameWay.sameRoot, sameWay.sameSteps]
  rw [find_of_name searchedSegments isName.notVoid, find_of_name segments isName.notVoid, sameRoute]

/-! ## What an argument stands for -/

/-- A path is that of a file for which a pattern stands. -/
def Matches (files : FileSystem) (pattern : List Char) (path : Path) : Prop :=
  path ∈ (files.glob? pattern).getD [] ∧ files.isFile path = true

variable {argument : List Char}

/-- An argument stands for the files that it matches, or if there are none for what is at it. -/
theorem selectOne_cases (files : FileSystem) (argument : List Char) :
    (∃ found, files.selectOne argument = some found ∧ found ≠ [] ∧
        ∀ path, path ∈ found ↔ files.Matches argument path) ∨
      (∀ path, ¬files.Matches argument path) ∧
        (files.pathExists ⟨argument⟩ = true ∧ files.selectOne argument = some [⟨argument⟩] ∨
          files.pathExists ⟨argument⟩ = false ∧ files.selectOne argument = none) := by
  have listed path : path ∈ ((files.glob? argument).getD []).filter files.isFile ↔
      files.Matches argument path := List.mem_filter
  rw [selectOne]
  cases matched : ((files.glob? argument).getD []).filter files.isFile with
  | nil =>
    rw [matched] at listed
    refine Or.inr ⟨fun path isMatch => List.not_mem_nil ((listed path).2 isMatch), ?_⟩
    cases exists' : files.pathExists ⟨argument⟩ with
    | true => exact Or.inl ⟨rfl, rfl⟩
    | false => exact Or.inr ⟨rfl, rfl⟩
  | cons first rest =>
    rw [matched] at listed
    exact Or.inl ⟨first :: rest, rfl, List.cons_ne_nil _ _, listed⟩

/-- A search that finds a file goes the way of its path. -/
theorem keepsWay_of_mem_expand
    {components : List Glob.Component}
    {other : Path}
    (read : path.pieces.mapM Glob.Component.ofText? = some components)
    (isFound : other ∈ files.expand false components path.start) :
    KeepsWay path.start path.pieces := by
  have noSlash piece (isPiece : piece ∈ path.pieces) := Path.noSlash_of_mem_pieces isPiece
  by_cases absolute : path.isAbsolute = true
  · rw [Path.start, if_pos absolute]
    exact keepsWay_of_not_isCurrent (List.cons_ne_nil _ _) (by decide) noSlash
  · have starts : path.start = ⟨['.']⟩ := by rw [Path.start, if_neg absolute]
    rw [starts] at isFound ⊢
    refine keepsWay_current noSlash fun noName => ?_
    rw [expand_of_no_name read noName] at isFound
    cases isFound

/-- A path that accepts itself as a pattern matches the file that is at it, unless it matches no
file at all. -/
theorem matches_searched
    {content : ByteArray}
    {other : Path}
    (proper : files.root.IsProper)
    (found : files.find path = .ok (.file content))
    (accepted : Glob.AcceptsItself path)
    (isMatch : files.Matches path.text other) :
    KeepsWay path.start path.pieces ∧ files.Matches path.text path.searched := by
  obtain ⟨isFound, isFile⟩ := isMatch
  obtain ⟨start, last, segments, isName⟩ := exists_name_of_file found
  have ends : path.segments.getLast? = some last := by rw [segments, List.getLast?_concat]
  cases read : Glob.Pattern.ofText? path.text with
  | none =>
    rw [glob?, read] at isFound
    cases isFound
  | some pattern =>
    obtain ⟨starts, anything, readPieces⟩ := Path.ofText?_eq_some isName ends read
    have paths : (files.glob? path.text).getD [] =
        files.expand false pattern.components path.start := by
      rw [glob?, read, Option.map_some, Option.getD_some, starts, anything]
    rw [paths] at isFound
    have possible : ¬Glob.IsFutile pattern.components := by
      intro futile
      rw [isFile_of_mem_expand proper futile isFound] at isFile
      cases isFile
    have keeps := keepsWay_of_mem_expand readPieces isFound
    have fits := Glob.Component.forall₂_fits (fun _ => Path.noSlash_of_mem_pieces) accepted readPieces
    refine ⟨keeps, ?_, ?_⟩
    · rw [paths]
      exact (mem_expand_of_fits fits).1 path.start possible (isOnWay_of_file found keeps)
    · rw [FileSystem.isFile, find_searched_of_file found keeps, found]
      rfl

/-- What an argument adds to the files. -/
structure Contributes (files : FileSystem) (argument : List Char) (part : List Path) : Prop where
  nonempty : part ≠ []
  /-- Files that it matches, or if there are none what is at its path. -/
  origin : (∀ path, path ∈ part ↔ files.Matches argument path) ∨
    (∀ path, ¬files.Matches argument path) ∧ part = [⟨argument⟩] ∧
      files.pathExists ⟨argument⟩ = true
  /-- The file at its path, unless it matches other files and not itself. -/
  named : files.isFile ⟨argument⟩ = true →
    Glob.AcceptsItself ⟨argument⟩ ∨ (∀ path, ¬files.Matches argument path) →
    ∃ path ∈ part, path.SameWay ⟨argument⟩ ∧ files.find path = files.find ⟨argument⟩

theorem contributes_of_selectOne
    {part : List Path}
    (proper : files.root.IsProper)
    (selected : files.selectOne argument = some part) :
    files.Contributes argument part := by
  rcases files.selectOne_cases argument with
    ⟨found, same, nonempty, listed⟩ | ⟨noMatch, ⟨isThere, same⟩ | ⟨_, same⟩⟩
  · rw [selected] at same
    cases same
    refine ⟨nonempty, Or.inl listed, fun isFile chosen => ?_⟩
    obtain ⟨other, isFound⟩ := List.exists_mem_of_ne_nil part nonempty
    have isMatch := (listed other).1 isFound
    have accepted := chosen.resolve_right fun noMatch => noMatch other isMatch
    obtain ⟨content, found⟩ : ∃ content, files.find ⟨argument⟩ = .ok (.file content) := by
      rw [FileSystem.isFile] at isFile
      cases found : files.find ⟨argument⟩ with
      | error fault =>
        rw [found] at isFile
        cases isFile
      | ok tree =>
        cases tree with
        | directory entries =>
          rw [found] at isFile
          cases isFile
        | file content => exact ⟨content, rfl⟩
    obtain ⟨keeps, isSearched⟩ := matches_searched proper found accepted isMatch
    exact ⟨_, (listed _).2 isSearched, searched_sameWay keeps, find_searched_of_file found keeps⟩
  · rw [selected] at same
    cases same
    refine ⟨List.cons_ne_nil _ _, Or.inr ⟨noMatch, rfl, isThere⟩, fun _ _ => ?_⟩
    exact ⟨_, List.mem_singleton.2 rfl, ⟨rfl, rfl, fun _ => beq_self_eq_true _⟩, rfl⟩
  · rw [selected] at same
    cases same

theorem selectOne_eq_none_iff :
    files.selectOne argument = none ↔
      (∀ path, ¬files.Matches argument path) ∧ files.pathExists ⟨argument⟩ = false := by
  rcases files.selectOne_cases argument with
    ⟨found, same, nonempty, listed⟩ | ⟨noMatch, ⟨isThere, same⟩ | ⟨isNotThere, same⟩⟩
  · obtain ⟨other, isFound⟩ := List.exists_mem_of_ne_nil found nonempty
    simp only [same, reduceCtorEq, false_iff, not_and]
    exact fun noMatch => absurd ((listed other).1 isFound) (noMatch other)
  · simp [same, isThere]
  · simp [same, isNotThere, noMatch]

/-! ## All arguments -/

theorem select_ok
    {arguments : List (List Char)}
    {found : List Path}
    (selected : files.select arguments = .ok found) :
    ∃ parts, found = parts.flatten ∧
      List.Forall₂ (fun argument part => files.selectOne argument = some part) arguments parts := by
  induction arguments generalizing found with
  | nil =>
    cases selected
    exact ⟨[], rfl, .nil⟩
  | cons argument rest inductionHypothesis =>
    rw [select] at selected
    split at selected
    · cases selected
    · rename_i part chosen
      split at selected
      · cases selected
      · rename_i others selectedRest
        cases selected
        obtain ⟨parts, rfl, each⟩ := inductionHypothesis selectedRest
        exact ⟨part :: parts, rfl, .cons chosen each⟩

/-- The choice fails at the first argument that stands for nothing. -/
theorem select_error_iff
    {arguments : List (List Char)} :
    files.select arguments = .error argument ↔
      ∃ before after, arguments = before ++ argument :: after ∧
        files.selectOne argument = none ∧ ∀ earlier ∈ before, files.selectOne earlier ≠ none := by
  induction arguments with
  | nil => simp [select]
  | cons first rest inductionHypothesis =>
    cases chosen : files.selectOne first with
    | none =>
      rw [select, chosen]
      constructor
      · intro failed
        cases failed
        exact ⟨[], rest, rfl, chosen, nofun⟩
      · rintro ⟨before, after, split, _, passed⟩
        cases before with
        | nil =>
          cases split
          rfl
        | cons other others =>
          cases split
          exact absurd chosen (passed first List.mem_cons_self)
    | some part =>
      have later : files.select (first :: rest) = .error argument ↔
          files.select rest = .error argument := by
        rw [select, chosen]
        cases files.select rest <;> simp
      rw [later, inductionHypothesis]
      constructor
      · rintro ⟨before, after, rfl, unmatched, passed⟩
        refine ⟨first :: before, after, rfl, unmatched, List.forall_mem_cons.2 ⟨?_, passed⟩⟩
        rw [chosen]
        exact Option.some_ne_none part
      · rintro ⟨before, after, split, unmatched, passed⟩
        cases before with
        | nil =>
          cases split
          rw [chosen] at unmatched
          cases unmatched
        | cons other others =>
          cases split
          exact ⟨others, after, rfl, unmatched, (List.forall_mem_cons.1 passed).2⟩

end FileSystem

open FileSystem (Matches Contributes)

/-- Every argument adds files, in the order of the arguments; a file that is named by its path is
added unless brackets in its name make it a pattern of other files only. The choice fails exactly at
the first argument that matches no file and is no path. -/
theorem select_named
    (files : FileSystem)
    (proper : files.root.IsProper)
    (arguments : List (List Char)) :
    (∀ found, files.select arguments = .ok found →
      ∃ parts, found = parts.flatten ∧ List.Forall₂ files.Contributes arguments parts) ∧
    (∀ argument, files.select arguments = .error argument ↔
      ∃ before after, arguments = before ++ argument :: after ∧
        ((∀ path, ¬files.Matches argument path) ∧ files.pathExists ⟨argument⟩ = false) ∧
        ∀ earlier ∈ before,
          (∃ path, files.Matches earlier path) ∨ files.pathExists ⟨earlier⟩ = true) ∧
    ∀ argument, '[' ∉ argument → Glob.AcceptsItself ⟨argument⟩ := by
  refine ⟨fun found selected => ?_, fun argument => ?_, fun argument noClass => ?_⟩
  · obtain ⟨parts, rfl, each⟩ := FileSystem.select_ok selected
    exact ⟨parts, rfl, each.imp fun _ _ => FileSystem.contributes_of_selectOne proper⟩
  · have passes earlier : files.selectOne earlier ≠ none ↔
        (∃ path, files.Matches earlier path) ∨ files.pathExists ⟨earlier⟩ = true := by
      rw [Ne, FileSystem.selectOne_eq_none_iff, not_and_or, not_forall_not, Bool.not_eq_false]
    simp only [FileSystem.select_error_iff, FileSystem.selectOne_eq_none_iff, passes]
  · exact Glob.acceptsItself_of_noClass noClass

/-- A file is chosen by a path with a dot at its start, under the name that the search writes. -/
theorem select_named_main :
    let files : FileSystem := ⟨.directory [("main.styl".toList, .file .empty)], []⟩
    files.select ["./main.styl".toList] = .ok [.ofString "main.styl"] ∧
      ∃ path ∈ [Path.ofString "main.styl"], path.SameWay (.ofString "./main.styl") ∧
        files.find path = files.find (.ofString "./main.styl") := by
  intro files
  have proper : files.root.IsProper :=
    .directory (by decide) (by decide) (List.forall_mem_singleton.2 (.file _))
  have selected : files.select ["./main.styl".toList] = .ok [.ofString "main.styl"] := rfl
  obtain ⟨chosen, _, noClass⟩ := select_named files proper ["./main.styl".toList]
  obtain ⟨parts, flat, each⟩ := chosen _ selected
  cases each with
  | @cons _ part _ _ contributes rest =>
    cases rest
    have whole : [Path.ofString "main.styl"] = part := by simpa using flat
    rw [whole]
    exact ⟨whole ▸ selected, contributes.named rfl (Or.inl (noClass _ (by decide)))⟩

/-- A file is not chosen by its name when this is a pattern of another file. -/
theorem select_hides_brackets :
    let files : FileSystem :=
      ⟨.directory [("[ab].styl".toList, .file .empty), ("a.styl".toList, .file .empty)], []⟩
    files.root.IsProper ∧
      files.isFile (.ofString "[ab].styl") = true ∧
      files.select ["[ab].styl".toList] = .ok [.ofString "a.styl"] ∧
      Path.ofString "[ab].styl" ∉ [Path.ofString "a.styl"] := by
  intro files
  have proper : files.root.IsProper :=
    .directory (by decide) (by decide)
      (List.forall_mem_cons.2 ⟨.file _, List.forall_mem_singleton.2 (.file _)⟩)
  let tokens : List Glob.Token :=
    .within [.single 'a', .single 'b'] :: ".styl".toList.map .char
  have read : Glob.Pattern.ofText? "[ab].styl".toList =
      some ⟨⟨['.']⟩, [.wildcard tokens], false⟩ := rfl
  have names : files.names ⟨['.']⟩ = ["[ab].styl".toList, "a.styl".toList] := by
    have here : files.find ⟨['.']⟩ = .ok files.root := rfl
    rw [FileSystem.names, here]
    exact List.mergeSort_of_pairwise (by decide)
  have found : files.glob? "[ab].styl".toList = some [.ofString "a.styl"] := by
    rw [FileSystem.glob?, read, Option.map_some, FileSystem.expand, names]
    decide +kernel
  refine ⟨proper, rfl, ?_, by decide⟩
  rw [FileSystem.select, FileSystem.selectOne, found]
  rfl

end StyleSense
