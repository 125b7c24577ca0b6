import StyleSense.Proofs.Files.Ancestor
import StyleSense.Proofs.Files.Place
import StyleSense.Settings.Discovery

/-!
Contract: which settings file holds.

The nearest settings file hides all that are farther up, one that is found hides that of the user,
and one that is named hides both. Whether a directory has settings does not depend on how its path
is written.

Owns:
- `FileSystem.IsNearest`, the directory whose settings count for a path;
- `FileSystem.SettingsIn`, the settings in a file or the reason why it has none, and
  `FileSystem.readSettings_eq_iff`, that these are read;
- `FileSystem.nearest_settings_win`.

Does not own: what the settings are (`StyleSense.Proofs.Settings.Validity`).
-/

namespace StyleSense

/-- The directory with settings of the user: the one that is configured, or else one at home. -/
inductive Environment.IsUserDirectory (environment : Environment) : Path → Prop
  | configured {directory : Path} (set : environment.configHome = some directory) :
      IsUserDirectory environment directory
  | atHome {home : Path} (unset : environment.configHome = none)
      (set : environment.home = some home) :
      IsUserDirectory environment (home.join (.ofString ".config"))

/-- Where the settings of the user are in a directory for settings. -/
def settingsBelow (directory : Path) : Path :=
  (directory.join (.ofString "stylus-lens")).join settingsFileName

/-- The settings that the text of a file is read as; they are not checked yet. -/
def Settings.ofText? (text : String) : Option Settings :=
  (Toml.read? text).bind (Settings.ofJson? Toml.dialect)

namespace FileSystem

variable {files : FileSystem} {environment : Environment}

/-- Whether there is a settings file in a directory. -/
def HasSettings (files : FileSystem) (directory : Path) : Prop :=
  files.pathExists (directory.join settingsFileName) = true

/-- The last one on the way down to a path, the path included, that has settings. -/
structure IsNearest (files : FileSystem) (start directory : Path) : Prop where
  above : directory.IsAbove start
  has : files.HasSettings directory
  closest : ∀ other, other.IsAbove start → files.HasSettings other → other.IsAbove directory

/-- There are no settings on the way down to a path. -/
def HasNoSettings (files : FileSystem) (start : Path) : Prop :=
  ∀ directory, directory.IsAbove start → ¬files.HasSettings directory

/-- The settings in a file, or the reason why none are read from it. A relative schema is looked for in
the directory of the file. -/
inductive SettingsIn (files : FileSystem) (file : Path) : Except SettingsError Settings → Prop
  | unreadable {fault : FileFault} (failed : files.read file = .error fault) :
      SettingsIn files file (.error (.unreadable fault))
  | malformed {text : String} (isText : files.read file = .ok text)
      (noSettings : Settings.ofText? text = none) :
      SettingsIn files file (.error .malformedFile)
  | invalid {text : String} {settings : Settings} (isText : files.read file = .ok text)
      (holds : Settings.ofText? text = some settings) (faulty : settings.faults ≠ []) :
      SettingsIn files file (.error (.invalid settings.faults))
  | valid {text : String} {settings : Settings} {directory : Path} (isText : files.read file = .ok text)
      (holds : Settings.ofText? text = some settings) (faultless : settings.faults = [])
      (isIn : file.parent? = some directory) :
      SettingsIn files file (.ok { settings with
        completion.schema := settings.completion.schema.map directory.resolve })

/-! ## Settings in a directory -/

theorem noSlash_settingsFileName : '/' ∉ settingsFileName.text := by
  decide

theorem find_settings
    {directory : Path}
    (nonempty : directory.text ≠ []) :
    files.find (directory.join settingsFileName) =
      walk [] files.root (files.route directory ++ [settingsFileName.text]) := by
  obtain ⟨start, _, segments, _⟩ := Path.exists_segments_join nonempty noSlash_settingsFileName
  have isStep : Path.isVoid settingsFileName.text = false := by decide
  have sameRoot : (directory.join settingsFileName).isAbsolute = directory.isAbsolute :=
    Path.isAbsolute_join nonempty noSlash_settingsFileName
  have steps : (directory.join settingsFileName).steps =
      directory.steps ++ [settingsFileName.text] :=
    Path.steps_join nonempty noSlash_settingsFileName
  rw [find_of_name segments isStep, route, route, sameRoot, steps, ← List.append_assoc]

/-- Paths with the same components lead to the same settings. -/
theorem hasSettings_congr
    {left right : Path}
    (sameRoot : left.isAbsolute = right.isAbsolute)
    (same : left.components = right.components) :
    files.HasSettings left ↔ files.HasSettings right := by
  by_cases relative : left.isAbsolute = false ∧ left.components = []
  · -- Both are written as the empty text.
    have nothing := Path.text_eq_nil_of_components relative.1 relative.2
    have nothingRight := Path.text_eq_nil_of_components (sameRoot ▸ relative.1) (same ▸ relative.2)
    have equal : left = right := by
      cases left
      cases right
      exact congrArg Path.mk (nothing.trans nothingRight.symm)
    rw [equal]
  · have nonempty {path : Path} (sameRoot : left.isAbsolute = path.isAbsolute)
        (same : left.components = path.components) : path.text ≠ [] := by
      obtain ⟨text⟩ := path
      rintro rfl
      exact relative ⟨sameRoot, same⟩
    have sameSteps : left.steps = right.steps := by
      rw [Path.steps_eq_filterMap, Path.steps_eq_filterMap, same]
    have sameRoute : files.route left = files.route right := by
      rw [route, route, sameRoot, sameSteps]
    rw [HasSettings, HasSettings, pathExists, pathExists, find_settings (nonempty rfl rfl),
      find_settings (nonempty sameRoot same), sameRoute]

/-! ## The nearest settings -/

theorem IsNearest.unique
    {start first second : Path}
    (isFirst : files.IsNearest start first)
    (isSecond : files.IsNearest start second) :
    first.components = second.components := by
  have up := (isSecond.closest first isFirst.above isFirst.has).starts
  have down := (isFirst.closest second isSecond.above isSecond.has).starts
  exact up.eq_of_length (Nat.le_antisymm up.length_le down.length_le)

/-- The walk up stops at the nearest settings, or finds out that there are none. -/
theorem nearestSettings?_cases (files : FileSystem) (start : Path) :
    (∃ directory, files.IsNearest start directory ∧
        files.nearestSettings? start = some (directory.join settingsFileName)) ∨
      files.HasNoSettings start ∧ files.nearestSettings? start = none := by
  rw [nearestSettings?, List.find?_map]
  cases found : start.ancestors.find?
      (files.pathExists ∘ fun directory => directory.join settingsFileName) with
  | none =>
    refine Or.inr ⟨fun directory above has => ?_, rfl⟩
    obtain ⟨same, isAncestor, sameRoot, components⟩ := Path.exists_ancestor above
    exact List.find?_eq_none.1 found same isAncestor
      ((hasSettings_congr sameRoot components).2 has)
  | some directory =>
    obtain ⟨has, before, after, split, passed⟩ := List.find?_eq_some_iff_append.1 found
    have isAncestor : directory ∈ start.ancestors := by
      rw [split]
      exact List.mem_append_right _ List.mem_cons_self
    have isAbove := Path.isAbove_of_mem_ancestors isAncestor
    refine Or.inl ⟨directory, ⟨isAbove, has, fun other above hasToo => ?_⟩, rfl⟩
    obtain ⟨same, isIn, sameRoot, components⟩ := Path.exists_ancestor above
    refine ⟨above.sameRoot.trans isAbove.sameRoot.symm, ?_⟩
    have notFarther : same.components.length ≤ directory.components.length := by
      have nearestFirst := split ▸ Path.ancestors_nearest_first start
      rw [split] at isIn
      rcases List.mem_append.1 isIn with isBefore | isNot
      · have hasSame : files.HasSettings same := (hasSettings_congr sameRoot components).2 hasToo
        have refused := passed same isBefore
        rw [Function.comp_apply, hasSame] at refused
        cases refused
      · rcases List.mem_cons.1 isNot with rfl | isAfter
        · exact Nat.le_refl _
        · have behind := (List.pairwise_append.1 nearestFirst).2.1
          exact Nat.le_of_lt ((List.pairwise_cons.1 behind).1 same isAfter)
    exact List.prefix_of_prefix_length_le above.starts isAbove.starts (components ▸ notFarther)

/-! ## The settings in a file -/

/-- Void texts between slashes ask for a directory. -/
theorem isDirectory_of_walk_voids
    {above : List FileTree}
    {here tree : FileTree}
    {segments : List (List Char)}
    (nonempty : segments ≠ [])
    (areVoid : ∀ segment ∈ segments, Path.isVoid segment = true)
    (found : walk above here segments = .ok tree) :
    tree.isDirectory = true := by
  induction segments generalizing here with
  | nil => exact absurd rfl nonempty
  | cons segment later inductionHypothesis =>
    obtain ⟨isVoid, others⟩ := List.forall_mem_cons.1 areVoid
    rw [walk_cons] at found
    cases here with
    | file content => cases found
    | directory entries =>
      rw [enter_void isVoid] at found
      by_cases atEnd : later = []
      · rw [atEnd] at found
        cases found
        rfl
      · exact inductionHypothesis atEnd others found

/-- A path without a parent leads to the root if it leads anywhere. -/
theorem isDirectory_of_noParent
    {path : Path}
    {tree : FileTree}
    (noParent : path.parent? = none)
    (found : files.find path = .ok tree) :
    tree.isDirectory = true := by
  have nonempty := text_ne_nil_of_find found
  have isRoot : path.components = [.root] := by
    rcases Path.parent?_cases path with ⟨-, nothing | isRoot⟩ | ⟨_, _, isParent, -⟩
    · have relative : path.isAbsolute = false := by
        rw [← Bool.not_eq_true, ← Path.head?_components_iff, nothing]
        exact nofun
      exact absurd (Path.text_eq_nil_of_components relative nothing) nonempty
    · exact isRoot
    · rw [noParent] at isParent
      cases isParent
  have absolute : path.isAbsolute = true := by
    rw [← Path.head?_components_iff, isRoot]
    rfl
  have areVoid : ∀ segment ∈ path.segments.tail, Path.isVoid segment = true := by
    have noSteps : path.segments.tail.filter (fun segment => !Path.isVoid segment) = [] := by
      rw [Path.steps_of_isAbsolute absolute, Path.steps_eq_filterMap, isRoot]
      rfl
    simpa using noSteps
  have behindSlash : path.segments.tail ≠ [] := by
    obtain ⟨text⟩ := path
    cases text with
    | nil => cases absolute
    | cons c rest =>
      obtain rfl : c = '/' := by simpa [Path.isAbsolute] using absolute
      exact List.splitOn_ne_nil '/' rest
  rw [find, if_neg (by simpa using nonempty), if_pos absolute] at found
  exact isDirectory_of_walk_voids behindSlash areVoid found

/-- What can be read stands in some directory. -/
theorem exists_parent_of_read
    {file : Path}
    {text : String}
    (isText : files.read file = .ok text) :
    ∃ directory, file.parent? = some directory := by
  rw [← Option.isSome_iff_exists, Option.isSome_iff_ne_none]
  intro noParent
  cases found : files.find file with
  | error fault =>
    rw [read, found] at isText
    cases isText
  | ok tree =>
    have isDirectory := isDirectory_of_noParent noParent found
    cases tree with
    | file content => cases isDirectory
    | directory entries =>
      rw [read, found] at isText
      cases isText

/-- What a text holds is checked after its schema has been looked for in the directory of the file. -/
theorem readSettings_of_holds
    {file directory : Path}
    {text : String}
    {settings : Settings}
    (isText : files.read file = .ok text)
    (holds : Settings.ofText? text = some settings)
    (isIn : file.parent? = some directory) :
    files.readSettings file = Settings.check { settings with
      completion.schema := settings.completion.schema.map directory.resolve } := by
  unfold Settings.ofText? at holds
  simp only [readSettings, isText, holds, isIn]
  cases settings.completion.schema <;> rfl

theorem SettingsIn.readSettings_eq
    {file : Path}
    {result : Except SettingsError Settings}
    (isResult : files.SettingsIn file result) :
    files.readSettings file = result := by
  cases isResult with
  | unreadable failed => simp only [readSettings, failed]
  | malformed isText noSettings =>
    unfold Settings.ofText? at noSettings
    simp only [readSettings, isText, noSettings]
  | invalid isText holds faulty =>
    obtain ⟨directory, isIn⟩ := exists_parent_of_read isText
    rw [readSettings_of_holds isText holds isIn]
    exact if_neg (mt List.isEmpty_iff.1 faulty)
  | valid isText holds faultless isIn =>
    rw [readSettings_of_holds isText holds isIn]
    exact if_pos (List.isEmpty_iff.2 faultless)

/-- Every file holds settings, or there is a reason why it does not. -/
theorem exists_settingsIn (files : FileSystem) (file : Path) :
    ∃ result, files.SettingsIn file result := by
  cases isText : files.read file with
  | error fault => exact ⟨_, .unreadable isText⟩
  | ok text =>
    cases holds : Settings.ofText? text with
    | none => exact ⟨_, .malformed isText holds⟩
    | some settings =>
      by_cases faultless : settings.faults = []
      · obtain ⟨directory, isIn⟩ := exists_parent_of_read isText
        exact ⟨_, .valid isText holds faultless isIn⟩
      · exact ⟨_, .invalid isText holds faultless⟩

/-- Reading a settings file gives what it holds, and nothing else. -/
theorem readSettings_eq_iff
    {file : Path}
    {result : Except SettingsError Settings} :
    files.readSettings file = result ↔ files.SettingsIn file result := by
  constructor
  · rintro rfl
    obtain ⟨result, isResult⟩ := exists_settingsIn files file
    exact isResult.readSettings_eq ▸ isResult
  · exact SettingsIn.readSettings_eq

/-! ## Precedence -/

theorem userFile?_eq_some_iff {file : Path} :
    environment.userFile? = some file ↔
      ∃ directory, environment.IsUserDirectory directory ∧ file = settingsBelow directory := by
  obtain ⟨configHome, home⟩ := environment
  rw [Environment.userFile?, Environment.configDirectory?]
  constructor
  · intro found
    cases configHome with
    | some directory => exact ⟨directory, .configured rfl, (Option.some.inj found).symm⟩
    | none =>
      cases home with
      | none => cases found
      | some home => exact ⟨_, .atHome rfl rfl, (Option.some.inj found).symm⟩
  · rintro ⟨directory, ⟨set⟩ | ⟨unset, set⟩, rfl⟩
    · cases set
      rfl
    · cases unset
      cases set
      rfl

/-- Without a named file and without settings nearby, those of the user hold if there are any. -/
theorem loadSettings_ofUser
    (notNearby : files.nearestSettings? files.workingPath = none) :
    (∃ directory, environment.IsUserDirectory directory ∧
        files.pathExists (settingsBelow directory) = true ∧
        files.loadSettings environment none = files.readSettings (settingsBelow directory)) ∨
      (∀ directory, environment.IsUserDirectory directory →
        files.pathExists (settingsBelow directory) = false) ∧
      files.loadSettings environment none = .ok .default := by
  have load : files.loadSettings environment none =
      (environment.userFile?.filter files.pathExists).elim (.ok .default) files.readSettings := by
    rw [loadSettings, settingsFile?, notNearby, Option.orElse_eq_orElse, Option.orElse_eq_or,
      Option.none_or]
    cases environment.userFile?.filter files.pathExists <;> rfl
  rw [load]
  cases kept : environment.userFile?.filter files.pathExists with
  | some path =>
    obtain ⟨ofUser, isThere⟩ := Option.filter_eq_some_iff.1 kept
    obtain ⟨directory, isDirectory, rfl⟩ := userFile?_eq_some_iff.1 ofUser
    exact Or.inl ⟨directory, isDirectory, isThere, rfl⟩
  | none =>
    refine Or.inr ⟨fun directory isDirectory => ?_, rfl⟩
    have ofUser := userFile?_eq_some_iff.2 ⟨directory, isDirectory, rfl⟩
    simpa using Option.filter_eq_none_iff.1 kept _ ofUser

/-- The walk up from a path ends at the nearest settings, or there are none. The settings that hold are
those in the file that is named; else those nearest to the working directory; else those of the user;
else the defaults. -/
theorem nearest_settings_win (files : FileSystem) (environment : Environment) :
    (∀ start,
      (∃ directory, files.IsNearest start directory ∧
          files.nearestSettings? start = some (directory.join settingsFileName)) ∨
        files.HasNoSettings start ∧ files.nearestSettings? start = none) ∧
    (∀ named result, files.loadSettings environment (some named) = result ↔
      files.SettingsIn named result) ∧
    ((∃ directory, files.IsNearest files.workingPath directory ∧
        files.nearestSettings? files.workingPath = some (directory.join settingsFileName) ∧
        ∀ result, files.loadSettings environment none = result ↔
          files.SettingsIn (directory.join settingsFileName) result) ∨
      files.HasNoSettings files.workingPath ∧
        ((∃ directory, environment.IsUserDirectory directory ∧
            files.pathExists (settingsBelow directory) = true ∧
            ∀ result, files.loadSettings environment none = result ↔
              files.SettingsIn (settingsBelow directory) result) ∨
          (∀ directory, environment.IsUserDirectory directory →
            files.pathExists (settingsBelow directory) = false) ∧
          files.loadSettings environment none = .ok .default)) := by
  refine ⟨nearestSettings?_cases files, fun named result => readSettings_eq_iff, ?_⟩
  rcases nearestSettings?_cases files files.workingPath with
    ⟨directory, isNearest, found⟩ | ⟨hasNone, notFound⟩
  · have load : files.loadSettings environment none =
        files.readSettings (directory.join settingsFileName) := by
      rw [loadSettings, settingsFile?, found]
      rfl
    exact Or.inl ⟨directory, isNearest, found, fun result => load ▸ readSettings_eq_iff⟩
  · refine Or.inr ⟨hasNone, (loadSettings_ofUser notFound).imp_left ?_⟩
    rintro ⟨directory, isDirectory, isThere, load⟩
    exact ⟨directory, isDirectory, isThere, fun result => load ▸ readSettings_eq_iff⟩

/-- The settings of a site hide those at the root, unless these are named, and the schema of the site is
looked for in the directory of its settings. A missing file that is named is not replaced by another. -/
theorem nearest_settings_win_site :
    let ofRoot := "[colors]\nmax_decorations = 9\n"
    let ofSite := "[colors]\nmax_decorations = 20\n[completion]\nschema = 'css.json'\n"
    let file (text : String) : List Char × FileTree := (settingsFileName.text, .file text.toUTF8)
    let site : FileTree := .directory [file ofSite, ("parts".toList, .empty)]
    let files : FileSystem :=
      ⟨.directory [file ofRoot, ("site".toList, site)], ["site".toList, "parts".toList]⟩
    files.loadSettings ⟨none, none⟩ none = .ok
        { colors.maxDecorations := 20
          completion.schema := some (.ofString "/site/css.json") } ∧
      files.loadSettings ⟨none, none⟩ (some (.ofString "/stylus-lens.toml")) = .ok
        { colors.maxDecorations := 9 } ∧
      files.loadSettings ⟨none, none⟩ (some (.ofString "/parts.toml")) =
        .error (.unreadable .notFound) := by
  intro ofRoot ofSite file site files
  obtain ⟨-, ofNamed, ofFound⟩ := nearest_settings_win files ⟨none, none⟩
  refine ⟨?_, ?_, ?_⟩
  · rcases ofFound with ⟨directory, -, found, load⟩ | ⟨hasNone, -⟩
    · have nearest : files.nearestSettings? files.workingPath =
          some (.ofString "/site/stylus-lens.toml") := by
        decide +kernel
      have isText : files.read (.ofString "/site/stylus-lens.toml") = .ok ofSite := by decide +kernel
      have holds : Settings.ofText? ofSite = some
          { colors.maxDecorations := 20, completion.schema := some (.ofString "css.json") } := by
        decide +kernel
      have isIn : (Path.ofString "/site/stylus-lens.toml").parent? = some (.ofString "/site") := by
        decide +kernel
      have resolved : (Path.ofString "/site").resolve (.ofString "css.json") =
          .ofString "/site/css.json" := by
        decide +kernel
      rw [load, Option.some.inj (found.symm.trans nearest), ← resolved]
      exact .valid isText holds rfl isIn
    · have above : (Path.ofString "/site").IsAbove files.workingPath :=
        ⟨by decide +kernel, by decide +kernel⟩
      have has : files.pathExists ((Path.ofString "/site").join settingsFileName) = true := by
        decide +kernel
      exact absurd has (hasNone _ above)
  · have isText : files.read (.ofString "/stylus-lens.toml") = .ok ofRoot := by decide +kernel
    have holds : Settings.ofText? ofRoot = some { colors.maxDecorations := 9 } := by decide +kernel
    have isIn : (Path.ofString "/stylus-lens.toml").parent? = some (.ofString "/") := by decide +kernel
    rw [ofNamed]
    exact .valid isText holds rfl isIn
  · rw [ofNamed]
    exact .unreadable (by decide +kernel)

end FileSystem
end StyleSense
