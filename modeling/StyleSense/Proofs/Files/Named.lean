import StyleSense.Proofs.Files.Itself

/-!
Contract: a search for a path that is read as a pattern comes to what is at that path.

A search goes the way of the path itself as long as every part of it accepts itself. A chain of
directories, `**`, takes in as many names as the path has up to its next part.

Owns:
- `FileSystem.IsOnWay`, a place from where the rest of a path leads to a file, and how a search goes
  on from there;
- `Glob.IsFutile`, patterns that no file fits, and that a search for one finds no file;
- `FileSystem.expand_of_fits`.

Does not own: which files a command works on (`StyleSense.Proofs.Files.Selection`).
-/

namespace StyleSense

open StyleSense.Path (isVoid IsFileName)

namespace FileSystem

/-! ## Walks in two parts -/

section Walk

variable {above : List FileTree} {here inner : FileTree} {names : List (List Char)}

/-- What comes after the first part of a walk depends only on where this part ends. -/
theorem exists_walk_append
    {first rest : List (List Char)}
    (found : walk above here (first ++ rest) = .ok inner) :
    ∃ around tree, ∀ later, walk above here (first ++ later) = walk around tree later := by
  induction first generalizing above here with
  | nil => exact ⟨above, here, fun later => rfl⟩
  | cons segment others inductionHypothesis =>
    rw [List.cons_append, walk_cons] at found
    cases entered : enter above here segment with
    | error fault =>
      rw [entered] at found
      cases found
    | ok place =>
      rw [entered] at found
      obtain ⟨around, tree, same⟩ := inductionHypothesis found
      refine ⟨around, tree, fun later => ?_⟩
      rw [List.cons_append, walk_cons, entered]
      exact same later

/-- All that one step of a walk can do. -/
theorem enter_cases
    {place : List FileTree × FileTree}
    {segment : List Char}
    (entered : enter above here segment = .ok place) :
    ∃ entries, here = .directory entries ∧
      (isVoid segment = true ∧ place = (above, here) ∨
        segment = ['.', '.'] ∧ place = (above.tail, above.headD here) ∨
        isVoid segment = false ∧ segment ≠ ['.', '.'] ∧
          ∃ inner, here.child? segment = some inner ∧ place = (here :: above, inner)) := by
  cases here with
  | file content => cases entered
  | directory entries =>
    refine ⟨entries, rfl, ?_⟩
    rw [enter, if_neg (by simp [FileTree.isDirectory])] at entered
    split at entered
    · exact Or.inl ⟨‹_›, (Except.ok.inj entered).symm⟩
    · rename_i notVoid
      split at entered
      · exact Or.inr (Or.inl ⟨‹_›, (Except.ok.inj entered).symm⟩)
      · rename_i notParent
        split at entered
        · cases entered
        · exact Or.inr (Or.inr ⟨Bool.not_eq_true _ ▸ notVoid, notParent, _, ‹_›,
            (Except.ok.inj entered).symm⟩)

theorem mem_of_child?
    {entries : List (List Char × FileTree)}
    {name : List Char}
    (child : (FileTree.directory entries).child? name = some inner) :
    (name, inner) ∈ entries := by
  obtain ⟨entry, found, rfl⟩ := Option.map_eq_some_iff.1 child
  have matched := List.find?_some found
  rw [← beq_iff_eq.1 matched]
  exact List.mem_of_find?_eq_some found

/-- What names lead to stands below. -/
theorem mem_descendants_of_walk
    (nonempty : names ≠ [])
    (areNames : ∀ name ∈ names, IsFileName name)
    (found : walk above here names = .ok inner) :
    (names, inner) ∈ here.descendants := by
  induction names generalizing above here with
  | nil => exact absurd rfl nonempty
  | cons name rest inductionHypothesis =>
    obtain ⟨isName, areNames⟩ := List.forall_mem_cons.1 areNames
    rw [walk_cons] at found
    cases entered : enter above here name with
    | error fault =>
      rw [entered] at found
      cases found
    | ok place =>
      rw [entered] at found
      obtain ⟨entries, rfl, ⟨void, _⟩ | ⟨parent, _⟩ | ⟨_, _, tree, child, rfl⟩⟩ :=
        enter_cases entered
      · rw [isName.notVoid] at void
        cases void
      · exact absurd parent isName.notParent
      refine FileTree.mem_descendants_directory.2 ⟨(name, tree), mem_of_child? child, ?_⟩
      cases rest with
      | nil =>
        cases found
        exact Or.inl ⟨rfl, rfl⟩
      | cons next later =>
        exact Or.inr ⟨_, inductionHypothesis (List.cons_ne_nil _ _) areNames found, rfl⟩

/-- Behind a first part that is not all there is a directory. -/
theorem directory_of_walk
    {segment : List Char}
    {rest : List (List Char)}
    (found : walk above here (segment :: rest) = .ok inner) :
    ∃ entries, here = .directory entries := by
  cases here with
  | file content => cases found
  | directory entries => exact ⟨entries, rfl⟩

theorem isProper_of_enter
    {place : List FileTree × FileTree}
    {segment : List Char}
    (proper : here.IsProper)
    (properAbove : ∀ tree ∈ above, tree.IsProper)
    (entered : enter above here segment = .ok place) :
    place.2.IsProper ∧ ∀ tree ∈ place.1, tree.IsProper := by
  obtain ⟨entries, rfl, ⟨_, rfl⟩ | ⟨_, rfl⟩ | ⟨_, _, inner, child, rfl⟩⟩ := enter_cases entered
  · exact ⟨proper, properAbove⟩
  · cases above with
    | nil => exact ⟨proper, nofun⟩
    | cons outer outers => exact List.forall_mem_cons.1 properAbove
  · refine ⟨?_, List.forall_mem_cons.2 ⟨proper, properAbove⟩⟩
    cases proper with
    | directory distinct named within => exact within _ (mem_of_child? child)

/-- A walk stays in trees as a disk can hold them. -/
theorem isProper_of_walk
    {segments : List (List Char)}
    (proper : here.IsProper)
    (properAbove : ∀ tree ∈ above, tree.IsProper)
    (found : walk above here segments = .ok inner) :
    inner.IsProper := by
  induction segments generalizing above here with
  | nil =>
    cases found
    exact proper
  | cons segment rest inductionHypothesis =>
    rw [walk_cons] at found
    cases entered : enter above here segment with
    | error fault =>
      rw [entered] at found
      cases found
    | ok place =>
      rw [entered] at found
      obtain ⟨proper, properAbove⟩ := isProper_of_enter proper properAbove entered
      exact inductionHypothesis proper properAbove found

/-- At the end of a walk that leads to a file stands a name. -/
theorem isFileName_of_walk_file
    {content : ByteArray}
    {first : List (List Char)}
    {last : List Char}
    (around : ∀ tree ∈ above, tree.isDirectory = true)
    (noSlash : '/' ∉ last)
    (found : walk above here (first ++ [last]) = .ok (.file content)) :
    IsFileName last := by
  induction first generalizing above here with
  | nil =>
    rw [List.nil_append, walk_cons] at found
    cases entered : enter above here last with
    | error fault =>
      rw [entered] at found
      cases found
    | ok place =>
      rw [entered] at found
      have isFile : place.2 = .file content := Except.ok.inj found
      obtain ⟨entries, rfl, ⟨_, rfl⟩ | ⟨_, rfl⟩ | ⟨notVoid, notParent, _⟩⟩ := enter_cases entered
      · cases isFile
      · cases above with
        | nil => cases isFile
        | cons outer outers =>
          have isDirectory := around outer List.mem_cons_self
          obtain rfl : outer = .file content := isFile
          cases isDirectory
      · exact ⟨notVoid, notParent, noSlash⟩
  | cons segment rest inductionHypothesis =>
    rw [List.cons_append, walk_cons] at found
    cases entered : enter above here segment with
    | error fault =>
      rw [entered] at found
      cases found
    | ok place =>
      rw [entered] at found
      refine inductionHypothesis ?_ found
      obtain ⟨entries, rfl, ⟨_, rfl⟩ | ⟨_, rfl⟩ | ⟨_, _, inner, _, rfl⟩⟩ := enter_cases entered
      · exact around
      · exact fun tree isIn => around tree (List.mem_of_mem_tail isIn)
      · exact List.forall_mem_cons.2 ⟨rfl, around⟩

end Walk

theorem isProper_of_find
    {files : FileSystem}
    {path : Path}
    {tree : FileTree}
    (proper : files.root.IsProper)
    (found : files.find path = .ok tree) :
    tree.IsProper := by
  have noneAbove : ∀ outer ∈ ([] : List FileTree), outer.IsProper := by simp
  rw [find] at found
  split at found
  · cases found
  · split at found
    · exact isProper_of_walk proper noneAbove found
    · exact isProper_of_walk proper noneAbove found

/-! ## The way of a path -/

/-- A place from where the pieces that are left lead to a file, the last of them by its name. -/
structure IsOnWay (files : FileSystem) (here : Path) (pieces : List (List Char)) : Prop where
  nonempty : here.text ≠ []
  noSlash : ∀ piece ∈ pieces, '/' ∉ piece
  keeps : KeepsWay here pieces
  ends : ∀ last, pieces.getLast? = some last → IsFileName last
  reached : ∃ content, walk [] files.root
    (files.route here ++ pieces.filter fun piece => !isVoid piece) = .ok (.file content)

namespace IsOnWay

variable {files : FileSystem} {here : Path} {piece : List Char} {pieces names : List (List Char)}

/-- One piece farther. -/
theorem step (onWay : files.IsOnWay here (piece :: pieces)) :
    files.IsOnWay (entryPath here piece) pieces := by
  obtain ⟨noSlashHere, noSlashLater⟩ := List.forall_mem_cons.1 onWay.noSlash
  have continues := entryPath_continues onWay.nonempty noSlashHere onWay.keeps.1
  obtain ⟨content, reached⟩ := onWay.reached
  refine ⟨continues.nonempty, noSlashLater, onWay.keeps.2, fun last isLast => ?_, content, ?_⟩
  · apply onWay.ends last
    rw [List.getLast?_cons, isLast]
    rfl
  · rw [continues.route, List.append_assoc, ← List.filter_append]
    exact reached

theorem steps (onWay : files.IsOnWay here (names ++ pieces)) :
    files.IsOnWay (entryPaths here names) pieces := by
  induction names generalizing here with
  | nil => exact onWay
  | cons name rest inductionHypothesis => exact inductionHypothesis onWay.step

/-- As long as pieces are left the way leads through directories. -/
theorem directory (onWay : files.IsOnWay here (piece :: pieces)) :
    ∃ entries around, files.find here = .ok (.directory entries) ∧
      ∀ later, walk [] files.root (files.route here ++ later) =
        walk around (.directory entries) later := by
  obtain ⟨content, reached⟩ := onWay.reached
  obtain ⟨around, tree, same⟩ := exists_walk_append reached
  have isLast := List.getLast?_eq_some_getLast (List.cons_ne_nil piece pieces)
  have isStep : (piece :: pieces).getLast (List.cons_ne_nil _ _) ∈
      (piece :: pieces).filter fun piece => !isVoid piece :=
    List.mem_filter.2 ⟨List.getLast_mem _, by rw [(onWay.ends _ isLast).notVoid]; rfl⟩
  obtain ⟨segment, rest, left⟩ := List.exists_cons_of_ne_nil (List.ne_nil_of_mem isStep)
  rw [left, same] at reached
  obtain ⟨entries, rfl⟩ := directory_of_walk reached
  refine ⟨entries, around, (find_directory_iff onWay.nonempty).2 ?_, same⟩
  rw [← List.append_nil (files.route here), same]
  rfl

theorem isDirectory (onWay : files.IsOnWay here (piece :: pieces)) :
    files.isDirectory here = true := by
  obtain ⟨entries, around, found, _⟩ := onWay.directory
  rw [FileSystem.isDirectory, found]
  rfl

/-- There is something behind the next piece. -/
theorem pathExists (onWay : files.IsOnWay here (piece :: pieces)) :
    files.pathExists (entryPath here piece) = true := by
  cases pieces with
  | nil =>
    obtain ⟨content, reached⟩ := onWay.step.reached
    obtain ⟨start, segments⟩ := exists_segments_entryPath onWay.nonempty
      (onWay.noSlash piece List.mem_cons_self)
    rw [List.filter_nil, List.append_nil] at reached
    rw [FileSystem.pathExists, find_of_name segments (onWay.ends piece rfl).notVoid, reached]
    rfl
  | cons next later =>
    obtain ⟨entries, around, found, _⟩ := onWay.step.directory
    rw [FileSystem.pathExists, found]
    rfl

/-- Names at the start of what is left stand below. -/
theorem below
    {entries : List (List Char × FileTree)}
    (onWay : files.IsOnWay here (names ++ pieces))
    (nonempty : names ≠ [])
    (areNames : ∀ name ∈ names, IsFileName name)
    (found : files.find here = .ok (.directory entries)) :
    ∃ inner, (names, inner) ∈ (FileTree.directory entries).descendants := by
  obtain ⟨content, reached⟩ := onWay.reached
  obtain ⟨name, rest, rfl⟩ := List.exists_cons_of_ne_nil nonempty
  obtain ⟨others, around, isFound, same⟩ := onWay.directory
  rw [found] at isFound
  cases isFound
  rw [List.filter_append, List.filter_eq_self.2 fun name isIn => by
    rw [(areNames name isIn).notVoid]; rfl, same] at reached
  obtain ⟨aroundBelow, inner, sameBelow⟩ := exists_walk_append reached
  have through : walk around (.directory entries) (name :: rest) = .ok inner := by
    rw [← List.append_nil (name :: rest), sameBelow]
    rfl
  exact ⟨inner, mem_descendants_of_walk nonempty areNames through⟩

end IsOnWay

end FileSystem

/-! ## Patterns that no file fits -/

/-- Behind a chain of directories has to come a name. -/
inductive Glob.IsFutile : List Glob.Component → Prop
  | atEnd : IsFutile [.directories]
  | noName {text : List Char} {rest : List Glob.Component} (notName : ¬IsFileName text) :
      IsFutile (.directories :: .name text :: rest)
  | later {component : Glob.Component} {rest : List Glob.Component} (futile : IsFutile rest) :
      IsFutile (component :: rest)

namespace FileSystem

open Glob (Component IsFutile)

variable {files : FileSystem} {here : Path}

/-- What stands below a directory is listed by its names. -/
theorem mem_everything_of_below
    {tree inner : FileTree}
    {names : List (List Char)}
    (found : files.find here = .ok tree)
    (isBelow : (names, inner) ∈ tree.descendants) :
    (entryPaths here names, names.getLastD [], inner.isDirectory) ∈ files.everything here := by
  rw [everything, found]
  exact List.mem_map.2 ⟨(names, inner), List.mem_mergeSort.2 isBelow, rfl⟩

theorem exists_of_mem_everything
    {entry : Path × List Char × Bool}
    (isListed : entry ∈ files.everything here) :
    ∃ tree names inner, files.find here = .ok tree ∧ (names, inner) ∈ tree.descendants ∧
      entry = (entryPaths here names, names.getLastD [], inner.isDirectory) := by
  rw [everything] at isListed
  cases found : files.find here with
  | error fault =>
    rw [found] at isListed
    cases isListed
  | ok tree =>
    rw [found] at isListed
    obtain ⟨⟨names, inner⟩, isBelow, rfl⟩ := List.mem_map.1 isListed
    exact ⟨tree, names, inner, rfl, List.mem_mergeSort.1 isBelow, rfl⟩

/-- Everything that is listed has a name. -/
theorem isFileName_of_mem_everything
    {entry : Path × List Char × Bool}
    (proper : files.root.IsProper)
    (isListed : entry ∈ files.everything here) :
    IsFileName entry.2.1 := by
  obtain ⟨tree, names, inner, found, isBelow, rfl⟩ := exists_of_mem_everything isListed
  apply FileTree.isFileName_of_mem_descendants (isProper_of_find proper found) isBelow
  obtain ⟨before, last, rfl⟩ : ∃ before last, names = before ++ [last] :=
    ⟨_, _, (List.dropLast_append_getLast (FileTree.ne_nil_of_mem_descendants isBelow)).symm⟩
  simp

/-- A search for a pattern that no file fits finds none. -/
theorem isFile_of_mem_expand
    {components : List Component}
    {path : Path}
    (proper : files.root.IsProper)
    (futile : IsFutile components)
    (isFound : path ∈ files.expand false components here) :
    files.isFile path = false := by
  fun_induction expand files false components here with
  | case1 => cases futile
  | case2 here =>
    obtain ⟨entry, isListed, same⟩ := List.mem_filterMap.1 isFound
    obtain ⟨tree, names, inner, found, isBelow, rfl⟩ := exists_of_mem_everything isListed
    cases isDirectory : inner.isDirectory with
    | false =>
      rw [isDirectory] at same
      cases same
    | true =>
      rw [isDirectory] at same
      cases same
      rw [isFile, find_entryPaths found (isProper_of_find proper found) isBelow]
      exact congrArg (!·) isDirectory
  | case3 rest here inductionHypothesis =>
    cases futile with
    | later futile => exact inductionHypothesis futile isFound
  | case4 next rest here notDirectories inductionHypothesis =>
    obtain ⟨⟨place, name, isDirectory⟩, isListed, isBehind⟩ := List.mem_flatMap.1 isFound
    dsimp only at isBehind
    split at isBehind
    · rename_i accepted
      cases futile with
      | noName notName =>
        have isName := isFileName_of_mem_everything proper isListed
        exact absurd (beq_iff_eq.1 accepted ▸ isName) notName
      | later futile =>
        cases futile with
        | atEnd => exact absurd rfl notDirectories
        | noName => exact absurd rfl notDirectories
        | later futile => exact inductionHypothesis place futile isBehind
    · cases isBehind
  | case5 text rest here next isSpecial goesOn inductionHypothesis =>
    cases futile with
    | later futile => exact inductionHypothesis futile isFound
  | case6 => cases isFound
  | case7 tokens rest here specials inductionHypothesis inductionHypothesisNames =>
    cases futile with
    | later futile =>
      rcases List.mem_append.1 isFound with isSpecial | isListed
      · obtain ⟨name, _, isBehind⟩ := List.mem_flatMap.1 isSpecial
        exact inductionHypothesis name futile isBehind
      · obtain ⟨name, _, isBehind⟩ := List.mem_flatMap.1 isListed
        split at isBehind
        · exact inductionHypothesisNames name futile isBehind
        · cases isBehind

/-! ## The search goes the way of the path -/

theorem expand_directories_cons
    {next : Component}
    (notDirectories : next ≠ .directories)
    (rest : List Component) :
    files.expand false (.directories :: next :: rest) here =
      (files.everything here).flatMap fun entry =>
        if next.accepts entry.2.1 then files.expand false rest entry.1 else [] := by
  rw [expand]
  exact notDirectories

/-- A part of a pattern that is no chain of directories, and the name that it lets pass. -/
theorem accepts_of_fits
    {component : Component}
    {piece : List Char}
    (fits : component.Fits piece)
    (notDirectories : component ≠ .directories) :
    component.accepts piece = true := by
  cases fits with
  | directories => exact absurd rfl notDirectories
  | name => exact beq_self_eq_true piece
  | wildcard isName accepted => exact accepted

/-- Behind a name the search goes on from where the name leads. -/
theorem mem_expand_of_step
    {component : Component}
    {components : List Component}
    {piece : List Char}
    {pieces : List (List Char)}
    {path : Path}
    (fits : component.Fits piece)
    (notDirectories : component ≠ .directories)
    (onWay : files.IsOnWay here (piece :: pieces))
    (isBehind : path ∈ files.expand false components (entryPath here piece)) :
    path ∈ files.expand false (component :: components) here := by
  cases fits with
  | directories => exact absurd rfl notDirectories
  | name =>
    rw [expand]
    simp only [onWay.isDirectory, onWay.pathExists, ite_self, if_true]
    exact isBehind
  | wildcard isName accepted =>
    obtain ⟨entries, around, found, _⟩ := onWay.directory
    have split : files.IsOnWay here ([piece] ++ pieces) := onWay
    obtain ⟨inner, isBelow⟩ := split.below (List.cons_ne_nil _ _)
      (List.forall_mem_singleton.2 isName) found
    have isListed : piece ∈ files.names here := by
      rw [names, found, List.mem_mergeSort]
      obtain ⟨entry, isEntry, ⟨same, _⟩ | ⟨rest, isDeeper, same⟩⟩ :=
        FileTree.mem_descendants_directory.1 isBelow
      · exact List.mem_map.2 ⟨entry, isEntry, (List.cons.inj same).1.symm⟩
      · exact List.mem_map.2 ⟨entry, isEntry, (List.cons.inj same).1.symm⟩
    rw [expand, List.mem_append]
    right
    exact List.mem_flatMap.2 ⟨piece, isListed, by rwa [if_pos accepted]⟩

/-- As long as every part fits, the search comes to the end of the pieces; a chain of directories
before the parts takes in the names that have been passed. -/
theorem mem_expand_of_fits
    {components : List Component}
    {pieces : List (List Char)}
    (fits : List.Forall₂ Component.Fits components pieces) :
    (∀ here, ¬IsFutile components → files.IsOnWay here pieces →
      entryPaths here pieces ∈ files.expand false components here) ∧
    ∀ here names, ¬IsFutile (.directories :: components) → names ≠ [] →
      (∀ name ∈ names, IsFileName name) → files.IsOnWay here (names ++ pieces) →
      entryPaths here (names ++ pieces) ∈ files.expand false (.directories :: components) here := by
  induction fits with
  | nil =>
    refine ⟨fun here _ _ => ?_, fun here names possible => absurd .atEnd possible⟩
    rw [expand]
    exact List.mem_singleton.2 rfl
  | @cons component piece components pieces fitsHere fitsLater inductionHypothesis =>
    obtain ⟨onward, throughDirectories⟩ := inductionHypothesis
    have possibleLater {component : Component} {rest : List Component}
        (possible : ¬IsFutile (component :: rest)) : ¬IsFutile rest :=
      fun futile => possible futile.later
    by_cases isDirectories : component = .directories
    · subst isDirectories
      cases fitsHere with
      | directories isName =>
        constructor
        · intro here possible onWay
          exact throughDirectories here [piece] possible (List.cons_ne_nil _ _)
            (List.forall_mem_singleton.2 isName) onWay
        · intro here names possible _ areNames onWay
          rw [List.append_cons] at onWay ⊢
          rw [expand]
          exact throughDirectories here (names ++ [piece]) (possibleLater possible)
            (List.append_ne_nil_of_right_ne_nil _ (List.cons_ne_nil _ _))
            (List.forall_mem_append.2 ⟨areNames, List.forall_mem_singleton.2 isName⟩) onWay
    · constructor
      · intro here possible onWay
        exact mem_expand_of_step fitsHere isDirectories onWay
          (onward _ (possibleLater possible) onWay.step)
      · intro here names possible nonempty areNames onWay
        have isName : IsFileName piece := by
          cases fitsHere with
          | directories => exact absurd rfl isDirectories
          | name => exact not_not.1 fun notName => possible (.noName notName)
          | wildcard isName => exact isName
        obtain ⟨entries, found⟩ : ∃ entries, files.find here = .ok (.directory entries) := by
          obtain ⟨first, rest, rfl⟩ := List.exists_cons_of_ne_nil nonempty
          obtain ⟨entries, around, found, _⟩ := onWay.directory
          exact ⟨entries, found⟩
        rw [List.append_cons] at onWay ⊢
        have passed : ∀ name ∈ names ++ [piece], IsFileName name :=
          List.forall_mem_append.2 ⟨areNames, List.forall_mem_singleton.2 isName⟩
        obtain ⟨inner, isBelow⟩ := onWay.below
          (List.append_ne_nil_of_right_ne_nil _ (List.cons_ne_nil _ _)) passed found
        have isBehind := onward _ (possibleLater (possibleLater possible)) onWay.steps
        rw [expand_directories_cons isDirectories]
        refine List.mem_flatMap.2 ⟨_, mem_everything_of_below found isBelow, ?_⟩
        have accepted : component.accepts ((names ++ [piece]).getLastD []) = true := by
          rw [List.getLastD_concat]
          exact accepts_of_fits fitsHere isDirectories
        have passes : entryPaths here (names ++ [piece] ++ pieces) =
            entryPaths (entryPaths here (names ++ [piece])) pieces := List.foldl_append
        rw [if_pos accepted, passes]
        exact isBehind

end FileSystem
end StyleSense
