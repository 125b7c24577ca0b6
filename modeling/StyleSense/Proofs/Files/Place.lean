import Mathlib.Data.List.Nodup
import StyleSense.Proofs.Files.Path

/-!
Contract: what is found at a path.

A search goes down one step after the other. To come to a directory only the steps count; a file is
found when the last text between slashes is its name.

Owns:
- `FileSystem.route`, all steps that lead to a path, and `FileSystem.find` in terms of it;
- a name seen from a directory, `FileSystem.entryPath`, by its steps;
- `FileTree.IsProper`, a tree as a disk can hold it, and what is found below a directory of one.

Does not own: patterns (`StyleSense.Proofs.Files.Pattern`).
-/

namespace StyleSense

open StyleSense.Path (isVoid IsFileName)

/-! ## Walks -/

namespace FileSystem

/-- One step of a walk: the directories around and what is there afterwards. -/
def enter (above : List FileTree) (here : FileTree) (segment : List Char) :
    Except FileFault (List FileTree × FileTree) :=
  if !here.isDirectory then .error .notDirectory
  else if isVoid segment then .ok (above, here)
  else if segment = ['.', '.'] then .ok (above.tail, above.headD here)
  else
    match here.child? segment with
    | none => .error .notFound
    | some inner => .ok (here :: above, inner)

section Walk

variable {above : List FileTree} {here inner : FileTree} {segments : List (List Char)}
  {entries : List (List Char × FileTree)}

theorem walk_cons (segment : List Char) (rest : List (List Char)) :
    walk above here (segment :: rest) =
      (enter above here segment).bind fun place => walk place.1 place.2 rest := by
  by_cases isDirectory : here.isDirectory = true
  · by_cases isVoid : Path.isVoid segment = true
    · cases above <;> simp [walk, enter, isDirectory, isVoid, Except.bind]
    · by_cases isParent : segment = ['.', '.']
      · subst isParent
        cases above <;> simp [walk, enter, isDirectory, isVoid, Except.bind]
      · cases child : here.child? segment <;> cases above <;>
          simp [walk, enter, isDirectory, isVoid, isParent, child, Except.bind]
  · cases above <;> simp [walk, enter, isDirectory, Except.bind]

theorem enter_void {segment : List Char} (isVoid : Path.isVoid segment = true) :
    enter above (.directory entries) segment = .ok (above, .directory entries) := by
  rw [enter, if_neg (by simp [FileTree.isDirectory]), if_pos isVoid]

theorem enter_name
    {name : List Char}
    (isName : IsFileName name)
    (child : here.child? name = some inner) :
    enter above here name = .ok (here :: above, inner) := by
  cases here with
  | file content => cases child
  | directory entries =>
    rw [enter, if_neg (by simp [FileTree.isDirectory]), if_neg (by simp [isName.notVoid]),
      if_neg isName.notParent, child]

/-- A text that leads nowhere only asks for a directory, and so does whatever comes after it. -/
theorem walk_withoutVoids
    {rest : List (List Char)}
    (nonempty : rest ≠ []) :
    walk above here (segments ++ rest) =
      walk above here (segments.filter (fun segment => !isVoid segment) ++ rest) := by
  induction segments generalizing above here with
  | nil => rfl
  | cons segment later inductionHypothesis =>
    by_cases isVoid : Path.isVoid segment = true
    · rw [List.filter_cons_of_neg (by simp [isVoid]), ← inductionHypothesis, List.cons_append,
        walk_cons]
      cases here with
      | file content =>
        -- Without entries the rest is refused as well.
        obtain ⟨next, others, after⟩ :=
          List.exists_cons_of_ne_nil (List.append_ne_nil_of_right_ne_nil later nonempty)
        rw [after, walk_cons]
        rfl
      | directory entries =>
        rw [enter_void isVoid]
        rfl
    · rw [List.filter_cons_of_pos (by simp [isVoid]), List.cons_append, List.cons_append,
        walk_cons, walk_cons]
      simp only [inductionHypothesis]

/-- A slash at the end is for directories. -/
theorem walk_slash_iff :
    walk above here (segments ++ [[]]) = .ok (.directory entries) ↔
      walk above here segments = .ok (.directory entries) := by
  induction segments generalizing above here with
  | nil =>
    cases here with
    | file content => exact ⟨nofun, nofun⟩
    | directory others => rw [List.nil_append, walk_cons, enter_void rfl]; rfl
  | cons segment later inductionHypothesis =>
    rw [List.cons_append, walk_cons, walk_cons]
    cases enter above here segment with
    | error fault => exact Iff.rfl
    | ok place => exact inductionHypothesis

/-- Only the steps count on the way to a directory. -/
theorem walk_directory_iff :
    walk above here segments = .ok (.directory entries) ↔
      walk above here (segments.filter fun segment => !isVoid segment) =
        .ok (.directory entries) := by
  rw [← walk_slash_iff, walk_withoutVoids (List.cons_ne_nil _ _), walk_slash_iff]

/-- What comes before on the way to a directory is a directory. -/
theorem walk_before
    {first rest : List (List Char)}
    (found : walk above here (first ++ rest) = .ok (.directory entries)) :
    ∃ others, walk above here first = .ok (.directory others) := by
  induction first generalizing above here with
  | nil =>
    cases here with
    | directory others => exact ⟨others, rfl⟩
    | file content => cases rest <;> cases found
  | cons segment later inductionHypothesis =>
    rw [List.cons_append, walk_cons] at found
    rw [walk_cons]
    cases entered : enter above here segment with
    | error fault =>
      rw [entered] at found
      cases found
    | ok place =>
      rw [entered] at found
      exact inductionHypothesis found

/-- A walk goes on from where its first part ends. -/
theorem walk_append
    {first rest : List (List Char)}
    {tree : FileTree}
    (reached : walk above here first = .ok tree)
    (onward : ∀ around, walk around tree rest = .ok inner) :
    walk above here (first ++ rest) = .ok inner := by
  induction first generalizing above here with
  | nil =>
    cases reached
    exact onward above
  | cons segment later inductionHypothesis =>
    rw [walk_cons] at reached
    rw [List.cons_append, walk_cons]
    cases entered : enter above here segment with
    | error fault =>
      rw [entered] at reached
      cases reached
    | ok place =>
      rw [entered] at reached
      exact inductionHypothesis reached

/-- Behind a name nothing asks for a directory. -/
theorem walk_named
    {first : List (List Char)}
    {name : List Char}
    (notVoid : isVoid name = false) :
    walk above here (first ++ [name]) =
      walk above here ((first ++ [name]).filter fun segment => !isVoid segment) := by
  rw [walk_withoutVoids (List.cons_ne_nil _ _), List.filter_append,
    List.filter_eq_self.2 (List.forall_mem_singleton.2 (by rw [notVoid]; rfl))]

end Walk

/-! ## The way to a path -/

section Route

variable {files : FileSystem} {path : Path} {entries : List (List Char × FileTree)}

/-- The steps from the root to a path. -/
def route (files : FileSystem) (path : Path) : List (List Char) :=
  (if path.isAbsolute then [] else files.working.filter fun segment => !isVoid segment)
    ++ path.steps

theorem text_ne_nil_of_find
    {tree : FileTree}
    (found : files.find path = .ok tree) :
    path.text ≠ [] := by
  intro nothing
  rw [find, nothing] at found
  cases found

theorem find_directory_iff (nonempty : path.text ≠ []) :
    files.find path = .ok (.directory entries) ↔
      walk [] files.root (files.route path) = .ok (.directory entries) := by
  rw [find, if_neg (by simpa using nonempty), route]
  by_cases absolute : path.isAbsolute = true
  · rw [if_pos absolute, if_pos absolute, List.nil_append, walk_directory_iff,
      Path.steps_of_isAbsolute absolute]
  · rw [if_neg absolute, if_neg absolute, walk_directory_iff, List.filter_append]
    rfl

/-- A path that ends in a name is found at the end of its steps, a file as well as a directory. -/
theorem find_of_name
    {start : List (List Char)}
    {name : List Char}
    (segments : path.segments = start ++ [name])
    (notVoid : isVoid name = false) :
    files.find path = walk [] files.root (files.route path) := by
  have nonempty : path.text ≠ [] := by
    intro nothing
    rw [Path.segments, nothing, List.splitOn_nil] at segments
    cases start with
    | nil =>
      cases segments
      cases notVoid
    | cons first rest => simp at segments
  rw [find, if_neg (by simpa using nonempty), route]
  by_cases absolute : path.isAbsolute = true
  · have atRoot := segments.symm.trans (Path.segments_of_isAbsolute absolute)
    obtain ⟨first, rest, rfl⟩ : ∃ first rest, start = first :: rest := by
      cases start with
      | cons first rest => exact ⟨first, rest, rfl⟩
      | nil =>
        cases (List.cons.inj atRoot).1
        cases notVoid
    rw [if_pos absolute, if_pos absolute, List.nil_append, ← Path.steps_of_isAbsolute absolute,
      segments]
    exact walk_named notVoid
  · rw [if_neg absolute, if_neg absolute, Path.steps, segments, ← List.append_assoc,
      walk_named notVoid, List.append_assoc, List.filter_append]

end Route

/-! ## Names seen from a directory -/

/-- A path that goes on from another one by texts between slashes. -/
structure Continues (here : Path) (pieces : List (List Char)) (there : Path) : Prop where
  nonempty : there.text ≠ []
  isAbsolute : there.isAbsolute = here.isAbsolute
  steps : there.steps = here.steps ++ pieces.filter fun segment => !isVoid segment

/-- The working directory is not mentioned, so it must not be followed by an empty text. -/
def KeepsWay : Path → List (List Char) → Prop
  | _, [] => True
  | here, piece :: rest =>
    (here.isCurrent = true → piece ≠ []) ∧ KeepsWay (entryPath here piece) rest

section Entry

variable {here : Path} {name : List Char} {pieces : List (List Char)}

theorem entryPath_continues
    (nonempty : here.text ≠ [])
    (noSlash : '/' ∉ name)
    (named : here.isCurrent = true → name ≠ []) :
    Continues here [name] (entryPath here name) := by
  rw [entryPath]
  by_cases isCurrent : here.isCurrent = true
  · obtain ⟨relative, _, noSteps⟩ := (Path.isCurrent_iff here).1 isCurrent
    rw [if_pos isCurrent]
    refine ⟨named isCurrent, ?_, ?_⟩
    · rw [relative, Path.not_isAbsolute_of_noSlash noSlash]
    · rw [noSteps, Path.steps, Path.segments_of_noSlash noSlash, List.nil_append]
  · rw [if_neg isCurrent]
    exact ⟨Path.text_join_ne_nil nonempty noSlash, Path.isAbsolute_join nonempty noSlash,
      Path.steps_join nonempty noSlash⟩

theorem exists_segments_entryPath (nonempty : here.text ≠ []) (noSlash : '/' ∉ name) :
    ∃ start, (entryPath here name).segments = start ++ [name] := by
  rw [entryPath]
  split
  · exact ⟨[], Path.segments_of_noSlash noSlash⟩
  · obtain ⟨start, _, joined, _⟩ := Path.exists_segments_join nonempty noSlash
    exact ⟨start, joined⟩

theorem not_isCurrent_entryPath
    (nonempty : here.text ≠ [])
    (noSlash : '/' ∉ name)
    (elsewhere : here.isCurrent = false) :
    (entryPath here name).isCurrent = false := by
  rw [entryPath, if_neg (by simp [elsewhere])]
  by_contra isCurrent
  rw [Bool.not_eq_false] at isCurrent
  rw [Path.isCurrent_of_join nonempty noSlash isCurrent] at elsewhere
  cases elsewhere

theorem entryPaths_continues
    (nonempty : here.text ≠ [])
    (noSlash : ∀ piece ∈ pieces, '/' ∉ piece)
    (keeps : KeepsWay here pieces) :
    Continues here pieces (entryPaths here pieces) := by
  induction pieces generalizing here with
  | nil => exact ⟨nonempty, rfl, (List.append_nil _).symm⟩
  | cons piece rest inductionHypothesis =>
    obtain ⟨noSlashHere, noSlashLater⟩ := List.forall_mem_cons.1 noSlash
    have step := entryPath_continues nonempty noSlashHere keeps.1
    have later := inductionHypothesis step.nonempty noSlashLater keeps.2
    refine ⟨later.nonempty, later.isAbsolute.trans step.isAbsolute, ?_⟩
    rw [entryPaths, List.foldl_cons, ← entryPaths, later.steps, step.steps, List.append_assoc,
      ← List.filter_append, List.singleton_append]

theorem keepsWay_of_not_isCurrent
    (nonempty : here.text ≠ [])
    (elsewhere : here.isCurrent = false)
    (noSlash : ∀ piece ∈ pieces, '/' ∉ piece) :
    KeepsWay here pieces := by
  induction pieces generalizing here with
  | nil => trivial
  | cons piece rest inductionHypothesis =>
    obtain ⟨noSlashHere, noSlashLater⟩ := List.forall_mem_cons.1 noSlash
    have named : here.isCurrent = true → piece ≠ [] := by simp [elsewhere]
    exact ⟨named, inductionHypothesis (entryPath_continues nonempty noSlashHere named).nonempty
      (not_isCurrent_entryPath nonempty noSlashHere elsewhere) noSlashLater⟩

/-- From the working directory on, the first text that is no dot has to be a name. -/
theorem keepsWay_current
    (noSlash : ∀ piece ∈ pieces, '/' ∉ piece)
    (named : (pieces.dropWhile (· == ['.'])).head? ≠ some []) :
    KeepsWay ⟨['.']⟩ pieces := by
  induction pieces with
  | nil => trivial
  | cons piece rest inductionHypothesis =>
    obtain ⟨noSlashHere, noSlashLater⟩ := List.forall_mem_cons.1 noSlash
    by_cases dot : piece = ['.']
    · subst dot
      exact ⟨fun _ => List.cons_ne_nil _ _, inductionHypothesis noSlashLater named⟩
    · rw [List.dropWhile_cons_of_neg (by simpa using dot)] at named
      have nonempty : piece ≠ [] := fun nothing => named (congrArg some nothing)
      have elsewhere : (⟨piece⟩ : Path).isCurrent = false := by
        by_contra isCurrent
        obtain ⟨_, dotted, _⟩ := (Path.isCurrent_iff _).1 (Bool.not_eq_false _ ▸ isCurrent)
        rw [Path.segments_of_noSlash noSlashHere] at dotted
        exact dot (Option.some.inj dotted)
      exact ⟨fun _ => nonempty, keepsWay_of_not_isCurrent nonempty elsewhere noSlashLater⟩

theorem keepsWay_of_names (areNames : ∀ piece ∈ pieces, IsFileName piece) :
    KeepsWay here pieces := by
  induction pieces generalizing here with
  | nil => trivial
  | cons piece rest inductionHypothesis =>
    obtain ⟨isName, areNames⟩ := List.forall_mem_cons.1 areNames
    exact ⟨fun _ => isName.ne_nil, inductionHypothesis areNames⟩

theorem Continues.route
    {files : FileSystem}
    {there : Path}
    (continues : Continues here pieces there) :
    files.route there = files.route here ++ pieces.filter fun segment => !isVoid segment := by
  rw [FileSystem.route, FileSystem.route, continues.isAbsolute, continues.steps,
    List.append_assoc]

end Entry

end FileSystem

/-! ## Trees of files -/

namespace FileTree

/-- A tree as a disk can hold it: the entries of a directory have names, all different. -/
inductive IsProper : FileTree → Prop
  | file (content : ByteArray) : IsProper (.file content)
  | directory {entries : List (List Char × FileTree)}
      (distinct : (entries.map Prod.fst).Nodup)
      (named : ∀ entry ∈ entries, IsFileName entry.1)
      (within : ∀ entry ∈ entries, IsProper entry.2) : IsProper (.directory entries)

theorem descendants_directory (entries : List (List Char × FileTree)) :
    (directory entries).descendants = entries.flatMap fun entry =>
      ([entry.1], entry.2) ::
        entry.2.descendants.map fun below => (entry.1 :: below.1, below.2) := by
  rw [descendants]
  induction entries with
  | nil => rfl
  | cons entry rest inductionHypothesis =>
    rw [entryDescendants, inductionHypothesis, List.flatMap_cons]

section Descendants

variable {tree inner : FileTree} {names : List (List Char)}
  {entries : List (List Char × FileTree)}

theorem mem_descendants_directory :
    (names, inner) ∈ (directory entries).descendants ↔
      ∃ entry ∈ entries, (names = [entry.1] ∧ inner = entry.2) ∨
        ∃ rest, (rest, inner) ∈ entry.2.descendants ∧ names = entry.1 :: rest := by
  rw [descendants_directory, List.mem_flatMap]
  simp only [List.mem_cons, List.mem_map, Prod.mk.injEq, Prod.exists]
  constructor
  · rintro ⟨name, sub, isEntry, ⟨rfl, rfl⟩ | ⟨rest, below, isBelow, rfl, rfl⟩⟩
    · exact ⟨name, inner, isEntry, Or.inl ⟨rfl, rfl⟩⟩
    · exact ⟨name, sub, isEntry, Or.inr ⟨rest, isBelow, rfl⟩⟩
  · rintro ⟨name, sub, isEntry, ⟨rfl, rfl⟩ | ⟨rest, isBelow, rfl⟩⟩
    · exact ⟨name, inner, isEntry, Or.inl ⟨rfl, rfl⟩⟩
    · exact ⟨name, sub, isEntry, Or.inr ⟨rest, inner, isBelow, rfl, rfl⟩⟩

theorem ne_nil_of_mem_descendants (isBelow : (names, inner) ∈ tree.descendants) : names ≠ [] := by
  cases tree with
  | file content => cases isBelow
  | directory entries =>
    obtain ⟨entry, _, ⟨rfl, _⟩ | ⟨rest, _, rfl⟩⟩ := mem_descendants_directory.1 isBelow
    · exact List.cons_ne_nil _ _
    · exact List.cons_ne_nil _ _

theorem isFileName_of_mem_descendants
    (proper : tree.IsProper)
    (isBelow : (names, inner) ∈ tree.descendants) :
    ∀ name ∈ names, IsFileName name := by
  induction proper generalizing names with
  | file content => cases isBelow
  | directory distinct named within inductionHypothesis =>
    obtain ⟨entry, isEntry, ⟨rfl, _⟩ | ⟨rest, isDeeper, rfl⟩⟩ :=
      mem_descendants_directory.1 isBelow
    · exact List.forall_mem_singleton.2 (named entry isEntry)
    · exact List.forall_mem_cons.2
        ⟨named entry isEntry, inductionHypothesis entry isEntry isDeeper⟩

theorem child?_of_mem
    {entry : List Char × FileTree}
    (distinct : (entries.map Prod.fst).Nodup)
    (isEntry : entry ∈ entries) :
    (directory entries).child? entry.1 = some entry.2 := by
  have found : entries.find? (fun other => other.1 == entry.1) = some entry := by
    induction entries with
    | nil => cases isEntry
    | cons first rest inductionHypothesis =>
      rw [List.map_cons, List.nodup_cons] at distinct
      rcases List.mem_cons.1 isEntry with rfl | isLater
      · exact List.find?_cons_of_pos (beq_self_eq_true _)
      · have other : first.1 ≠ entry.1 := by
          intro same
          exact distinct.1 (same ▸ List.mem_map_of_mem isLater)
        rw [List.find?_cons_of_neg (by simpa using other)]
        exact inductionHypothesis distinct.2 isLater
  rw [child?, found, Option.map_some]

/-- The names of an entry lead to it, whatever directories are around. -/
theorem walk_descendant
    (proper : tree.IsProper)
    (isBelow : (names, inner) ∈ tree.descendants)
    (above : List FileTree) :
    FileSystem.walk above tree names = .ok inner := by
  induction proper generalizing names above with
  | file content => cases isBelow
  | @directory entries distinct named within inductionHypothesis =>
    obtain ⟨entry, isEntry, below⟩ := mem_descendants_directory.1 isBelow
    have entered : FileSystem.enter above (.directory entries) entry.1 =
        .ok (.directory entries :: above, entry.2) :=
      FileSystem.enter_name (named entry isEntry) (child?_of_mem distinct isEntry)
    rcases below with ⟨rfl, rfl⟩ | ⟨rest, isDeeper, rfl⟩
    · rw [FileSystem.walk_cons, entered]
      rfl
    · rw [FileSystem.walk_cons, entered]
      exact inductionHypothesis entry isEntry isDeeper _

/-- Everything below a directory is told apart by its names. -/
theorem nodup_descendants (proper : tree.IsProper) : (tree.descendants.map Prod.fst).Nodup := by
  induction proper with
  | file content => exact List.nodup_nil
  | directory distinct named within inductionHypothesis =>
    rw [descendants_directory, List.map_flatMap, List.nodup_flatMap]
    constructor
    · intro entry isEntry
      have deeper : (entry.2.descendants.map fun below => (entry.1 :: below.1, below.2)).map
          Prod.fst = (entry.2.descendants.map Prod.fst).map (entry.1 :: ·) := by
        rw [List.map_map, List.map_map]
        rfl
      rw [List.map_cons, deeper, List.nodup_cons]
      constructor
      · intro isIn
        obtain ⟨names, isNames, same⟩ := List.mem_map.1 isIn
        obtain ⟨below, isBelow, rfl⟩ := List.mem_map.1 isNames
        exact ne_nil_of_mem_descendants isBelow (List.cons.inj same).2
      · exact (inductionHypothesis entry isEntry).map (List.cons_injective)
    · refine (List.pairwise_map.1 distinct).imp ?_
      intro first second differ names isFirst isSecond
      have headed {entry : List Char × FileTree}
          (isIn : names ∈ (([entry.1], entry.2) :: entry.2.descendants.map fun below =>
            (entry.1 :: below.1, below.2)).map Prod.fst) : names.head? = some entry.1 := by
        rw [List.map_cons, List.map_map] at isIn
        rcases List.mem_cons.1 isIn with rfl | isDeeper
        · rfl
        · obtain ⟨below, _, rfl⟩ := List.mem_map.1 isDeeper
          rfl
      exact differ (Option.some.inj ((headed isFirst).symm.trans (headed isSecond)))

end Descendants

end FileTree

/-! ## What is below a directory -/

namespace FileSystem

section Below

variable {files : FileSystem} {base : Path} {tree inner : FileTree} {names : List (List Char)}

theorem steps_entryPaths
    (nonempty : base.text ≠ [])
    (areNames : ∀ name ∈ names, IsFileName name) :
    (entryPaths base names).steps = base.steps ++ names := by
  rw [(entryPaths_continues nonempty (fun name isIn => (areNames name isIn).noSlash)
      (keepsWay_of_names areNames)).steps,
    List.filter_eq_self.2 fun name isIn => by rw [(areNames name isIn).notVoid]; rfl]

/-- Different names are seen as different paths. -/
theorem entryPaths_inj
    {others : List (List Char)}
    (nonempty : base.text ≠ [])
    (areNames : ∀ name ∈ names, IsFileName name)
    (areOthers : ∀ name ∈ others, IsFileName name)
    (same : entryPaths base names = entryPaths base others) :
    names = others := by
  have sameSteps := congrArg Path.steps same
  rw [steps_entryPaths nonempty areNames, steps_entryPaths nonempty areOthers] at sameSteps
  exact List.append_cancel_left sameSteps

theorem fileName?_entryPaths
    {name : List Char}
    (nonempty : base.text ≠ [])
    (areNames : ∀ other ∈ names ++ [name], IsFileName other) :
    (entryPaths base (names ++ [name])).fileName? = some name := by
  have steps : (entryPaths base (names ++ [name])).steps = (base.steps ++ names) ++ [name] := by
    rw [steps_entryPaths nonempty areNames, List.append_assoc]
  exact Path.fileName?_of_steps steps (areNames name (by simp)).notParent

/-- What is below a directory is found at the path that its names give. -/
theorem find_entryPaths
    (found : files.find base = .ok tree)
    (proper : tree.IsProper)
    (isBelow : (names, inner) ∈ tree.descendants) :
    files.find (entryPaths base names) = .ok inner := by
  have nonempty := text_ne_nil_of_find found
  have areNames := FileTree.isFileName_of_mem_descendants proper isBelow
  have noSlash name isIn := (areNames name isIn).noSlash
  have continues := entryPaths_continues nonempty noSlash (keepsWay_of_names areNames)
  obtain ⟨before, last, rfl⟩ : ∃ before last, names = before ++ [last] :=
    ⟨_, _, (List.dropLast_append_getLast (FileTree.ne_nil_of_mem_descendants isBelow)).symm⟩
  have namesBefore : ∀ name ∈ before, IsFileName name :=
    fun name isIn => areNames name (List.mem_append_left _ isIn)
  have isName : IsFileName last := areNames last (by simp)
  obtain ⟨start, segments⟩ : ∃ start,
      (entryPaths base (before ++ [last])).segments = start ++ [last] := by
    rw [entryPaths, List.foldl_concat]
    exact exists_segments_entryPath
      (entryPaths_continues nonempty (fun name isIn => (namesBefore name isIn).noSlash)
        (keepsWay_of_names namesBefore)).nonempty isName.noSlash
  rw [find_of_name segments isName.notVoid, continues.route,
    List.filter_eq_self.2 fun name isIn => by rw [(areNames name isIn).notVoid]; rfl]
  cases tree with
  | file content => cases isBelow
  | directory entries =>
    exact walk_append ((find_directory_iff nonempty).1 found)
      fun around => FileTree.walk_descendant proper isBelow around

end Below

end FileSystem
end StyleSense
