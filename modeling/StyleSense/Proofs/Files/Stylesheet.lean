import StyleSense.Proofs.Files.Pattern
import StyleSense.Proofs.Text.Case

/-!
Contract: the stylesheets that are found below a directory, and those that a single path is asked
about.

The search takes a name as it is written, the question about a path passes over the case of letters.

Owns:
- `Path.endsIn`, what the search asks of a name, against `Path.isStylesheet`;
- how often the search finds an entry;
- `stylesheets_below`, the result.

Does not own: what one pattern stands for (`StyleSense.Proofs.Files.Pattern`).
-/

namespace StyleSense

open Text (lowercase)

/-! ## Names and extensions -/

/-- Extensions that differ, in small letters and without a dot in them. -/
structure AreUsual (extensions : List String) : Prop where
  distinct : extensions.Nodup
  small : ∀ extension ∈ extensions, lowercase extension.toList = extension.toList
  noDot : ∀ extension ∈ extensions, '.' ∉ extension.toList

namespace Path

/-- Whether a name ends in a dot and an extension. -/
def endsIn (name : List Char) (extension : String) : Bool :=
  ('.' :: extension.toList).isSuffixOf name

section Usual

variable {path : Path} {name : List Char} {extensions : List String}

theorem endsIn_iff
    (named : path.fileName? = some name)
    {extension : String}
    (noDot : '.' ∉ extension.toList) :
    endsIn name extension = true ↔
      name = '.' :: extension.toList ∨ path.extension? = some extension.toList := by
  rw [endsIn, List.isSuffixOf_iff_suffix, extension?_eq_some_iff named]
  constructor
  · rintro ⟨stem, rfl⟩
    cases stem with
    | nil => exact Or.inl rfl
    | cons c rest => exact Or.inr ⟨c :: rest, List.cons_ne_nil _ _, rfl, noDot⟩
  · rintro (rfl | ⟨stem, _, rfl, _⟩)
    · exact List.suffix_rfl
    · exact List.suffix_append _ _

/-- A dot at the start of a name is not that of an extension. -/
theorem ne_of_extension?
    {extension written : List Char}
    (named : path.fileName? = some name)
    (found : path.extension? = some written)
    (noDot : '.' ∉ extension) :
    name ≠ '.' :: extension := by
  rintro rfl
  have dotted : path.fileName? = some ([] ++ '.' :: extension) := named
  rw [extension?_of_dot dotted noDot, if_pos rfl] at found
  cases found

theorem isStylesheet_iff (usual : AreUsual extensions) :
    path.isStylesheet extensions = true ↔
      ∃ written, path.extension? = some written ∧
        String.ofList (lowercase written) ∈ extensions := by
  rw [isStylesheet]
  cases path.extension? with
  | none => simp
  | some written =>
    have same extension (isIn : extension ∈ extensions) :
        Text.equalIgnoringAsciiCase extension.toList (lowercase written) = true ↔
          extension = String.ofList (lowercase written) := by
      have small : extension.toList.map Char.toLower = extension.toList := by
        rw [← usual.small extension isIn, Text.map_toLower_lowercase]
      rw [Text.equalIgnoringAsciiCase, beq_iff_eq, small, Text.map_toLower_lowercase,
        ← String.toList_inj, String.toList_ofList]
    simp only [List.any_eq_true, Option.some.injEq, exists_eq_left']
    constructor
    · rintro ⟨extension, isIn, equal⟩
      exact (same extension isIn).1 equal ▸ isIn
    · intro isIn
      exact ⟨_, isIn, (same _ isIn).2 rfl⟩

/-- A name with an extension ends in that one only. -/
theorem countP_endsIn_of_extension?
    {written : List Char}
    (usual : AreUsual extensions)
    (named : path.fileName? = some name)
    (found : path.extension? = some written) :
    extensions.countP (endsIn name) = if String.ofList written ∈ extensions then 1 else 0 := by
  have same : extensions.countP (endsIn name) = extensions.count (String.ofList written) := by
    rw [List.count_eq_countP]
    apply List.countP_congr
    intro extension isIn
    have noDot := usual.noDot extension isIn
    rw [endsIn_iff named noDot, found, beq_iff_eq, ← String.toList_inj, String.toList_ofList,
      Option.some.injEq, or_iff_right (ne_of_extension? named found noDot), eq_comm]
  rw [same, usual.distinct.count]

/-- The search and the question differ on a name that is a dot and an extension, and on a name whose
extension is not in small letters. -/
theorem countP_endsIn_eq_iff
    (usual : AreUsual extensions)
    (named : path.fileName? = some name) :
    (extensions.countP (endsIn name) = if path.isStylesheet extensions then 1 else 0) ↔
      (∀ extension ∈ extensions, name ≠ '.' :: extension.toList) ∧
        ∀ written, path.extension? = some written →
          String.ofList (lowercase written) ∈ extensions → lowercase written = written := by
  cases found : path.extension? with
  | none =>
    have noStylesheet : path.isStylesheet extensions = false := by rw [isStylesheet, found]
    rw [noStylesheet, if_neg Bool.false_ne_true, List.countP_eq_zero]
    have same extension (isIn : extension ∈ extensions) :
        endsIn name extension = true ↔ name = '.' :: extension.toList := by
      rw [endsIn_iff named (usual.noDot extension isIn), found, or_iff_left nofun]
    constructor
    · intro noEnd
      exact ⟨fun extension isIn => mt (same extension isIn).2 (noEnd extension isIn), nofun⟩
    · rintro ⟨noDotFile, _⟩ extension isIn
      exact mt (same extension isIn).1 (noDotFile extension isIn)
  | some written =>
    have noDotFile : ∀ extension ∈ extensions, name ≠ '.' :: extension.toList :=
      fun extension isIn => ne_of_extension? named found (usual.noDot extension isIn)
    have asked : path.isStylesheet extensions = true ↔
        String.ofList (lowercase written) ∈ extensions := by
      simp [isStylesheet_iff usual, found]
    rw [countP_endsIn_of_extension? usual named found]
    constructor
    · intro agree
      refine ⟨noDotFile, ?_⟩
      rintro _ ⟨⟩ isIn
      rw [asked.2 isIn, if_pos rfl] at agree
      by_cases isWritten : String.ofList written ∈ extensions
      · have small := usual.small _ isWritten
        rwa [String.toList_ofList] at small
      · rw [if_neg isWritten] at agree
        cases agree
    · rintro ⟨_, isSmall⟩
      by_cases isIn : String.ofList (lowercase written) ∈ extensions
      · rw [asked.2 isIn, if_pos rfl, ← isSmall written rfl isIn, if_pos isIn]
      · have notWritten : String.ofList written ∉ extensions := by
          intro isWritten
          have small := usual.small _ isWritten
          rw [String.toList_ofList] at small
          exact isIn (small.symm ▸ isWritten)
        rw [if_neg notWritten, if_neg (mt asked.1 isIn)]

end Usual

end Path

/-! ## The search -/

namespace FileSystem

section Search

variable {files : FileSystem} {directory : Path} {entries : List (List Char × FileTree)}
  {extension : String} {extensions : List String}

/-- What the search for one extension finds. -/
theorem getD_glob?_stylesheetPattern
    (searchable : directory.IsSearchable)
    (found : files.find directory = .ok (.directory entries))
    (plain : Glob.IsPlain extension.toList)
    (noSlash : '/' ∉ extension.toList) :
    (files.glob? (stylesheetPattern directory extension.toList)).getD [] =
      ((FileTree.directory entries).sortedDescendants.filter fun below =>
        Path.endsIn (below.1.getLastD []) extension).map fun below =>
          entryPaths directory.searched below.1 := by
  have same (name : List Char) :
      Glob.accepts (Glob.endingTokens extension.toList) name = Path.endsIn name extension := by
    rw [Bool.eq_iff_iff, Glob.accepts_ending_iff, Path.endsIn, List.isSuffixOf_iff_suffix]
  rw [glob?_stylesheetPattern searchable found plain noSlash, Option.getD_some]
  simp only [same]

/-- Everything below a directory has a path of its own. -/
theorem nodup_paths
    {base : Path}
    (nonempty : base.text ≠ [])
    (proper : (FileTree.directory entries).IsProper) :
    ((FileTree.directory entries).sortedDescendants.map fun below =>
      entryPaths base below.1).Nodup := by
  have order : List.Perm (FileTree.directory entries).sortedDescendants
      (FileTree.directory entries).descendants := List.mergeSort_perm _ _
  have paths : ((FileTree.directory entries).descendants.map fun below =>
      entryPaths base below.1) =
        ((FileTree.directory entries).descendants.map Prod.fst).map (entryPaths base) := by
    rw [List.map_map]
    rfl
  rw [(order.map _).nodup_iff, paths]
  refine (FileTree.nodup_descendants proper).map_on ?_
  intro names areNames others areOthers same
  obtain ⟨below, isBelow, rfl⟩ := List.mem_map.1 areNames
  obtain ⟨other, isOther, rfl⟩ := List.mem_map.1 areOthers
  exact entryPaths_inj nonempty (FileTree.isFileName_of_mem_descendants proper isBelow)
    (FileTree.isFileName_of_mem_descendants proper isOther) same

/-- The search for one extension finds an entry once if its name has that ending. -/
theorem count_glob?_stylesheetPattern
    {names : List (List Char)}
    {inner : FileTree}
    (searchable : directory.IsSearchable)
    (found : files.find directory = .ok (.directory entries))
    (proper : (FileTree.directory entries).IsProper)
    (plain : Glob.IsPlain extension.toList)
    (noSlash : '/' ∉ extension.toList)
    (isBelow : (names, inner) ∈ (FileTree.directory entries).descendants) :
    ((files.glob? (stylesheetPattern directory extension.toList)).getD []).count
        (entryPaths directory.searched names) =
      if Path.endsIn (names.getLastD []) extension then 1 else 0 := by
  have nonempty : directory.searched.text ≠ [] := (searched_continues searchable).nonempty
  have areNames := FileTree.isFileName_of_mem_descendants proper isBelow
  rw [getD_glob?_stylesheetPattern searchable found plain noSlash]
  generalize listed : (FileTree.directory entries).sortedDescendants.filter (fun below =>
    Path.endsIn (below.1.getLastD []) extension) = found
  have distinct : (found.map fun below => entryPaths directory.searched below.1).Nodup :=
    (nodup_paths nonempty proper).sublist (listed ▸ List.filter_sublist.map _)
  have isFound : entryPaths directory.searched names ∈
      (found.map fun below => entryPaths directory.searched below.1) ↔
        Path.endsIn (names.getLastD []) extension = true := by
    rw [List.mem_map]
    constructor
    · rintro ⟨other, isOther, same⟩
      obtain ⟨isOther, ends⟩ := List.mem_filter.1 (listed ▸ isOther)
      have areOthers := FileTree.isFileName_of_mem_descendants proper
        (List.mem_mergeSort.1 isOther)
      rwa [entryPaths_inj nonempty areOthers areNames same] at ends
    · intro ends
      exact ⟨(names, inner),
        listed ▸ List.mem_filter.2 ⟨List.mem_mergeSort.2 isBelow, ends⟩, rfl⟩
  rw [distinct.count]
  simp only [isFound]

/-- The search finds an entry once for each extension that its name ends in. -/
theorem count_stylesheets
    {names : List (List Char)}
    {inner : FileTree}
    (searchable : directory.IsSearchable)
    (found : files.find directory = .ok (.directory entries))
    (proper : (FileTree.directory entries).IsProper)
    (plain : ∀ extension ∈ extensions, Glob.IsPlain extension.toList ∧ '/' ∉ extension.toList)
    (isBelow : (names, inner) ∈ (FileTree.directory entries).descendants) :
    (files.stylesheets directory extensions).count (entryPaths directory.searched names) =
      extensions.countP (Path.endsIn (names.getLastD [])) := by
  rw [stylesheets, (List.mergeSort_perm _ _).count_eq]
  induction extensions with
  | nil => rfl
  | cons extension later inductionHypothesis =>
    obtain ⟨⟨plainHere, noSlash⟩, plainLater⟩ := List.forall_mem_cons.1 plain
    rw [List.flatMap_cons, List.count_append, inductionHypothesis plainLater,
      count_glob?_stylesheetPattern searchable found proper plainHere noSlash isBelow,
      List.countP_cons, Nat.add_comm]

/-- The search finds nothing but entries below the directory. -/
theorem exists_of_mem_stylesheets
    {path : Path}
    (searchable : directory.IsSearchable)
    (found : files.find directory = .ok (.directory entries))
    (plain : ∀ extension ∈ extensions, Glob.IsPlain extension.toList ∧ '/' ∉ extension.toList)
    (isListed : path ∈ files.stylesheets directory extensions) :
    ∃ below ∈ (FileTree.directory entries).descendants,
      path = entryPaths directory.searched below.1 := by
  rw [stylesheets, List.mem_mergeSort, List.mem_flatMap] at isListed
  obtain ⟨extension, isExtension, isFound⟩ := isListed
  obtain ⟨plainHere, noSlash⟩ := plain extension isExtension
  rw [getD_glob?_stylesheetPattern searchable found plainHere noSlash] at isFound
  obtain ⟨below, isBelow, rfl⟩ := List.mem_map.1 isFound
  exact ⟨below, List.mem_mergeSort.1 (List.mem_of_mem_filter isBelow), rfl⟩

theorem pairwise_stylesheets (files : FileSystem) (directory : Path) (extensions : List String) :
    (files.stylesheets directory extensions).Pairwise fun left right =>
      left.lessEqual right = true :=
  List.pairwise_mergeSort Path.lessEqual_trans Path.lessEqual_total _

end Search

end FileSystem

/-! ## All stylesheets -/

/-- For every file system, directory and extensions without wildcards, the search lists in order
entries below the directory and nothing else, each once for every extension that its name ends in.
With usual extensions an entry is listed once or not at all as its path is a stylesheet or not,
unless its name is only a dot and an extension, or its extension is not in small letters. -/
theorem stylesheets_below
    (files : FileSystem)
    (directory : Path)
    (entries : List (List Char × FileTree))
    (extensions : List String)
    (found : files.find directory = .ok (.directory entries))
    (proper : (FileTree.directory entries).IsProper)
    (searchable : directory.IsSearchable)
    (plain : ∀ extension ∈ extensions, Glob.IsPlain extension.toList ∧ '/' ∉ extension.toList) :
    let listed := files.stylesheets directory extensions
    let tree := FileTree.directory entries
    let seen := FileSystem.entryPaths directory.searched
    listed.Pairwise (fun left right => left.lessEqual right = true) ∧
      (∀ path ∈ listed, ∃ below ∈ tree.descendants, path = seen below.1) ∧
      ∀ names inner, (names, inner) ∈ tree.descendants →
        let name := names.getLastD []
        (files.find (seen names) = .ok inner ∧
          ∀ below ∈ tree.descendants, seen below.1 = seen names → below.1 = names) ∧
        listed.count (seen names) = extensions.countP (Path.endsIn name) ∧
        (AreUsual extensions →
          ((listed.count (seen names) =
              if (seen names).isStylesheet extensions then 1 else 0) ↔
            (∀ extension ∈ extensions, name ≠ '.' :: extension.toList) ∧
              ∀ written, (seen names).extension? = some written →
                String.ofList (lowercase written) ∈ extensions →
                  lowercase written = written)) := by
  intro listed tree seen
  have nonempty : directory.searched.text ≠ [] :=
    (FileSystem.searched_continues searchable).nonempty
  refine ⟨files.pairwise_stylesheets directory extensions,
    fun path => FileSystem.exists_of_mem_stylesheets searchable found plain, ?_⟩
  intro names inner isBelow name
  have areNames := FileTree.isFileName_of_mem_descendants proper isBelow
  have counted : listed.count (seen names) = extensions.countP (Path.endsIn name) :=
    FileSystem.count_stylesheets searchable found proper plain isBelow
  refine ⟨⟨?_, ?_⟩, counted, ?_⟩
  · exact FileSystem.find_entryPaths (FileSystem.find_searched searchable found) proper isBelow
  · intro below isOther same
    exact FileSystem.entryPaths_inj nonempty
      (FileTree.isFileName_of_mem_descendants proper isOther) areNames same
  · intro usual
    have named : (seen names).fileName? = some name := by
      obtain ⟨before, last, rfl⟩ : ∃ before last, names = before ++ [last] :=
        ⟨_, _, (List.dropLast_append_getLast (FileTree.ne_nil_of_mem_descendants isBelow)).symm⟩
      have isLast : name = last := List.getLastD_concat ..
      rw [isLast]
      exact FileSystem.fileName?_entryPaths nonempty areNames
    rw [counted, Path.countP_endsIn_eq_iff usual named]

/-- Of a file in small letters and one in capitals the search lists the first. -/
theorem stylesheets_below_capitals :
    let entries := ["a.styl".toList, "b.STYL".toList, ".styl".toList].map fun name =>
      (name, FileTree.file .empty)
    let files : FileSystem := ⟨.directory [("d".toList, .directory entries)], []⟩
    let directory := Path.ofString "d"
    let listed := files.stylesheets directory ["styl"]
    files.find directory = .ok (.directory entries) ∧
      (FileTree.directory entries).IsProper ∧
      directory.IsSearchable ∧
      listed.count (.ofString "d/a.styl") = 1 ∧
      listed.count (.ofString "d/b.STYL") = 0 ∧
      (Path.ofString "d/b.STYL").isStylesheet ["styl"] = true := by
  intro entries files directory listed
  have found : files.find directory = .ok (.directory entries) := rfl
  have proper : (FileTree.directory entries).IsProper := by
    refine .directory (by decide) (by decide) ?_
    intro entry isEntry
    obtain ⟨name, _, rfl⟩ := List.mem_map.1 isEntry
    exact .file _
  have searchable : directory.IsSearchable := ⟨by decide, by decide⟩
  obtain ⟨_, _, each⟩ := stylesheets_below files directory entries ["styl"] found proper searchable
    (by decide)
  have isBelow name (isEntry : (name, FileTree.file .empty) ∈ entries) :
      ([name], FileTree.file .empty) ∈ (FileTree.directory entries).descendants :=
    FileTree.mem_descendants_directory.2 ⟨_, isEntry, Or.inl ⟨rfl, rfl⟩⟩
  refine ⟨found, proper, searchable, ?_, ?_, by decide⟩
  · exact (each _ _ (isBelow "a.styl".toList (by simp [entries]))).2.1
  · exact (each _ _ (isBelow "b.STYL".toList (by simp [entries]))).2.1

end StyleSense
