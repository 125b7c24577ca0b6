import Mathlib.Data.List.Infix
import Mathlib.Data.List.TakeWhile
import StyleSense.Files.Glob

/-!
Contract: paths by the steps that they take.

A slash more or less, or a `.` in between, does not change where a path leads; what is left of a
path without them are its steps.

Owns:
- that `Path.lessEqual` orders all paths;
- `Path.steps` and `Path.IsFileName`, and how a name put behind a path adds a step to it;
- the name at the end of a path and its extension.

Does not own: what is found at a path (`StyleSense.Proofs.Files.Place`).
-/

namespace StyleSense

namespace Path

/-! ## Order -/

/-- The text of a component that is a name. -/
def Component.text : Component → String
  | name text => String.ofList text
  | _ => ""

/-- Components are compared by their kinds and then by their names. -/
theorem Component.compare_eq :
    Component.compare = compareLex (compareOn Component.rank) (compareOn Component.text) := by
  funext left right
  cases left <;> cases right <;> rfl

instance : Std.TransCmp Component.compare := by
  rw [Component.compare_eq]
  infer_instance

theorem compareComponents_eq : compareComponents = List.compareLex Component.compare := by
  funext left right
  induction left generalizing right with
  | nil => cases right <;> rfl
  | cons first rest inductionHypothesis =>
    cases right with
    | nil => rfl
    | cons other others =>
      rw [compareComponents, List.compareLex_cons_cons, inductionHypothesis]

/-- The order of paths is that of their components. -/
theorem lessEqual_eq (left right : Path) :
    left.lessEqual right =
      (List.compareLex Component.compare left.components right.components).isLE := by
  rw [lessEqual, compareComponents_eq]
  cases List.compareLex Component.compare left.components right.components <;> rfl

theorem lessEqual_trans
    (first second third : Path)
    (low : first.lessEqual second = true)
    (high : second.lessEqual third = true) :
    first.lessEqual third = true := by
  rw [lessEqual_eq] at low high ⊢
  exact Std.TransCmp.isLE_trans low high

theorem lessEqual_total (left right : Path) :
    (left.lessEqual right || right.lessEqual left) = true := by
  have swap : List.compareLex Component.compare right.components left.components =
      (List.compareLex Component.compare left.components right.components).swap :=
    Std.OrientedCmp.eq_swap
  rw [lessEqual_eq, lessEqual_eq, swap]
  cases List.compareLex Component.compare left.components right.components <;> rfl

/-! ## Steps -/

/-- The texts between slashes that lead somewhere. -/
def steps (path : Path) : List (List Char) :=
  path.segments.filter fun segment => !isVoid segment

/-- A name that an entry of a directory can have. -/
structure IsFileName (name : List Char) : Prop where
  notVoid : isVoid name = false
  notParent : name ≠ ['.', '.']
  noSlash : '/' ∉ name

instance (name : List Char) : Decidable (IsFileName name) :=
  decidable_of_iff (isVoid name = false ∧ name ≠ ['.', '.'] ∧ '/' ∉ name)
    ⟨fun ⟨notVoid, notParent, noSlash⟩ => ⟨notVoid, notParent, noSlash⟩,
      fun isName => ⟨isName.notVoid, isName.notParent, isName.noSlash⟩⟩

theorem IsFileName.ne_nil {name : List Char} (isName : IsFileName name) : name ≠ [] := by
  rintro rfl
  cases isName.notVoid

theorem segments_of_noSlash {text : List Char} (noSlash : '/' ∉ text) :
    (⟨text⟩ : Path).segments = [text] :=
  List.splitOn_eq_singleton noSlash

theorem segments_append_slash (first rest : List Char) :
    (⟨first ++ '/' :: rest⟩ : Path).segments =
      (⟨first⟩ : Path).segments ++ (⟨rest⟩ : Path).segments :=
  List.splitOnP_append_cons first rest (beq_self_eq_true '/')

theorem not_isAbsolute_of_noSlash {text : List Char} (noSlash : '/' ∉ text) :
    (⟨text⟩ : Path).isAbsolute = false := by
  cases text with
  | nil => rfl
  | cons c rest =>
    have notSlash : c ≠ '/' := fun same => noSlash (same ▸ List.mem_cons_self)
    simpa [isAbsolute] using notSlash

theorem segments_of_isAbsolute {path : Path} (absolute : path.isAbsolute = true) :
    path.segments = [] :: path.segments.tail := by
  obtain ⟨text⟩ := path
  cases text with
  | nil => cases absolute
  | cons c rest =>
    obtain rfl : c = '/' := by simpa [isAbsolute] using absolute
    exact segments_append_slash [] rest

/-- An absolute path takes its steps behind the first slash. -/
theorem steps_of_isAbsolute {path : Path} (absolute : path.isAbsolute = true) :
    path.segments.tail.filter (fun segment => !isVoid segment) = path.steps := by
  rw [steps, segments_of_isAbsolute absolute]
  rfl

/-! ## A name behind a path -/

section Join

variable {here : Path} {name : List Char}

/-- A slash is put before the name unless there is one. -/
theorem exists_join (nonempty : here.text ≠ []) (noSlash : '/' ∉ name) :
    ∃ first, (here.join ⟨name⟩).text = first ++ '/' :: name ∧
      (here.text = first ∨ here.text = first ++ ['/']) := by
  have relative := not_isAbsolute_of_noSlash noSlash
  by_cases atSlash : here.text.getLast? = some '/'
  · refine ⟨here.text.dropLast, ?_, Or.inr (List.dropLast_append_getLast? '/' atSlash).symm⟩
    have joined : (here.join ⟨name⟩).text = here.text ++ name := by
      simp [join, relative, atSlash]
    rw [joined, ← List.singleton_append, ← List.append_assoc,
      List.dropLast_append_getLast? '/' atSlash]
  · refine ⟨here.text, ?_, Or.inl rfl⟩
    simp [join, relative, atSlash, nonempty]

/-- A slash at the end of the path does not count as a segment of its own. -/
theorem exists_segments_join (nonempty : here.text ≠ []) (noSlash : '/' ∉ name) :
    ∃ start, start ≠ [] ∧ (here.join ⟨name⟩).segments = start ++ [name] ∧
      (here.segments = start ∨ here.segments = start ++ [[]]) := by
  obtain ⟨first, joined, before⟩ := exists_join nonempty noSlash
  refine ⟨(⟨first⟩ : Path).segments, List.splitOn_ne_nil _ _, ?_, ?_⟩
  · rw [← segments_of_noSlash noSlash, ← segments_append_slash, ← joined]
  · rcases before with same | slash
    · exact Or.inl (congrArg (fun text => (⟨text⟩ : Path).segments) same)
    · refine Or.inr ?_
      rw [segments, slash]
      exact segments_append_slash first []

theorem text_join_ne_nil (nonempty : here.text ≠ []) (noSlash : '/' ∉ name) :
    (here.join ⟨name⟩).text ≠ [] := by
  obtain ⟨first, joined, _⟩ := exists_join nonempty noSlash
  rw [joined]
  exact List.append_ne_nil_of_right_ne_nil _ (List.cons_ne_nil _ _)

theorem isAbsolute_join (nonempty : here.text ≠ []) (noSlash : '/' ∉ name) :
    (here.join ⟨name⟩).isAbsolute = here.isAbsolute := by
  obtain ⟨first, joined, before⟩ := exists_join nonempty noSlash
  rw [isAbsolute, isAbsolute, joined]
  rcases before with same | slash
  · obtain ⟨c, rest, text⟩ := List.exists_cons_of_ne_nil (same ▸ nonempty)
    rw [same, text]
    rfl
  · rw [slash]
    cases first <;> rfl

theorem head?_segments_join (nonempty : here.text ≠ []) (noSlash : '/' ∉ name) :
    (here.join ⟨name⟩).segments.head? = here.segments.head? := by
  obtain ⟨start, starts, joined, before⟩ := exists_segments_join nonempty noSlash
  rw [joined, List.head?_append_of_ne_nil _ starts]
  rcases before with same | slash
  · rw [same]
  · rw [slash, List.head?_append_of_ne_nil _ starts]

theorem steps_join (nonempty : here.text ≠ []) (noSlash : '/' ∉ name) :
    (here.join ⟨name⟩).steps = here.steps ++ [name].filter fun segment => !isVoid segment := by
  obtain ⟨start, _, joined, before⟩ := exists_segments_join nonempty noSlash
  rw [steps, joined, List.filter_append, steps]
  rcases before with same | slash
  · rw [same]
  · rw [slash, List.filter_append]
    simp [isVoid]

end Join

theorem Component.ofSegment_ne_current (segment : List Char) : ofSegment segment ≠ .current := by
  unfold ofSegment
  split <;> exact nofun

/-- The working directory is written with dots and slashes only, a dot first. -/
theorem isCurrent_iff (path : Path) :
    path.isCurrent = true ↔
      path.isAbsolute = false ∧ path.segments.head? = some ['.'] ∧ path.steps = [] := by
  rw [isCurrent, beq_iff_eq, components, ← steps]
  by_cases absolute : path.isAbsolute = true
  · simp [absolute]
  · by_cases dotted : path.segments.head? = some ['.']
    · simp [absolute, dotted]
    · cases path.steps with
      | nil => simp [absolute, dotted]
      | cons segment rest => simp [absolute, dotted, Component.ofSegment_ne_current]

/-- A path with a name behind it is the working directory only if the path is. -/
theorem isCurrent_of_join
    {here : Path}
    {name : List Char}
    (nonempty : here.text ≠ [])
    (noSlash : '/' ∉ name)
    (isCurrent : (here.join ⟨name⟩).isCurrent = true) :
    here.isCurrent = true := by
  rw [isCurrent_iff, isAbsolute_join nonempty noSlash, head?_segments_join nonempty noSlash,
    steps_join nonempty noSlash] at isCurrent
  obtain ⟨relative, dotted, noSteps⟩ := isCurrent
  exact (isCurrent_iff here).2 ⟨relative, dotted, (List.append_eq_nil_iff.1 noSteps).1⟩

/-! ## The name at the end -/

theorem fileName?_of_steps
    {path : Path}
    {before : List (List Char)}
    {name : List Char}
    (steps : path.steps = before ++ [name])
    (notParent : name ≠ ['.', '.']) :
    path.fileName? = some name := by
  have last : path.components.getLast? = some (.name name) := by
    rw [components, ← Path.steps, steps, List.map_append, List.map_singleton,
      Component.ofSegment, if_neg notParent, ← List.append_assoc, List.getLast?_concat]
  rw [fileName?, last]

section Extension

variable {path : Path} {stem extension : List Char}

theorem extension?_of_noDot
    (named : path.fileName? = some stem)
    (noDot : '.' ∉ stem) :
    path.extension? = none := by
  have allOther : stem.reverse.dropWhile (fun c => !(c == '.')) = [] := by
    rw [List.dropWhile_eq_nil_iff]
    intro c isIn
    have other : c ≠ '.' := fun same => noDot (same ▸ List.mem_reverse.1 isIn)
    simpa using other
  rw [extension?, named, Option.bind_some]
  simp only [allOther]

theorem extension?_of_dot
    (named : path.fileName? = some (stem ++ '.' :: extension))
    (noDot : '.' ∉ extension) :
    path.extension? = if stem = [] then none else some extension := by
  have allOther : ∀ c ∈ extension.reverse, (!(c == '.')) = true := by
    intro c isIn
    have other : c ≠ '.' := fun same => noDot (same ▸ List.mem_reverse.1 isIn)
    simpa using other
  have reversed : (stem ++ '.' :: extension).reverse =
      extension.reverse ++ '.' :: stem.reverse := by simp
  have dropped : (stem ++ '.' :: extension).reverse.dropWhile (fun c => !(c == '.')) =
      '.' :: stem.reverse := by
    rw [reversed, List.dropWhile_append_of_pos allOther]
    rfl
  have taken : (stem ++ '.' :: extension).reverse.takeWhile (fun c => !(c == '.')) =
      extension.reverse := by
    rw [reversed, List.takeWhile_append_of_pos allOther]
    exact List.append_nil _
  rw [extension?, named, Option.bind_some]
  simp only [dropped, taken, List.isEmpty_reverse, List.isEmpty_iff, List.reverse_reverse]

/-- The extension is what stands behind the last dot, and something stands before that dot. -/
theorem extension?_eq_some_iff
    {name : List Char}
    (named : path.fileName? = some name) :
    path.extension? = some extension ↔
      ∃ stem, stem ≠ [] ∧ name = stem ++ '.' :: extension ∧ '.' ∉ extension := by
  constructor
  · intro found
    by_cases noDot : '.' ∈ name
    · obtain ⟨later, before, reversed, noLater⟩ :=
        List.eq_append_cons_of_mem (List.mem_reverse.2 noDot)
      have split : name = before.reverse ++ '.' :: later.reverse := by
        rw [← List.reverse_reverse name, reversed]
        simp
      have noLater : '.' ∉ later.reverse := fun isIn => noLater (List.mem_reverse.1 isIn)
      rw [extension?_of_dot (split ▸ named) noLater] at found
      split at found
      · cases found
      · rename_i nonempty
        cases found
        exact ⟨before.reverse, nonempty, split, noLater⟩
    · rw [extension?_of_noDot named noDot] at found
      cases found
  · rintro ⟨stem, nonempty, rfl, noDot⟩
    rw [extension?_of_dot named noDot, if_neg nonempty]

end Extension

end Path
end StyleSense
