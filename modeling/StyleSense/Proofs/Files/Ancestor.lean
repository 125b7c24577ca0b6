import Mathlib.Data.List.Infix
import StyleSense.Proofs.Files.Path
import StyleSense.Proofs.Statement.Comment

/-!
Contract: the directories above a path.

Going up takes the last component off a path as it is written, until nothing is left to take off.
What is above a path is told without that walk: its components are a start of those of the path.

Owns:
- `Path.parent?_cases`, all that one step up can do;
- `Path.IsAbove`, and `Path.isAbove_of_mem_ancestors`, `Path.exists_ancestor` and
  `Path.ancestors_nearest_first`: the walk comes to every directory above a path and to nothing
  else, the nearest first.

Does not own: what is found there (`StyleSense.Proofs.Settings.Nearest`).
-/

namespace StyleSense.Path

/-! ## Components -/

/-- What a path starts with, before its steps. -/
def origin (path : Path) : List Component :=
  if path.isAbsolute then [.root]
  else if path.segments.head? == some ['.'] then [.current]
  else []

theorem components_eq (path : Path) :
    path.components = path.origin ++ path.steps.map Component.ofSegment :=
  rfl

/-- The text between slashes that a component stands for. -/
def Component.segment? : Component → Option (List Char)
  | .parent => some ['.', '.']
  | .name text => some text
  | .root | .current => none

theorem Component.segment?_ofSegment (segment : List Char) :
    (ofSegment segment).segment? = some segment := by
  unfold ofSegment
  split
  · rw [‹segment = ['.', '.']›]
    rfl
  · rfl

/-- The components tell the steps. -/
theorem steps_eq_filterMap (path : Path) :
    path.steps = path.components.filterMap Component.segment? := by
  have noOrigin : path.origin.filterMap Component.segment? = [] := by
    unfold origin
    repeat' split
    all_goals rfl
  have each : Component.segment? ∘ Component.ofSegment = some :=
    funext Component.segment?_ofSegment
  rw [components_eq, List.filterMap_append, noOrigin, List.filterMap_map, each,
    List.filterMap_some, List.nil_append]

theorem head?_components_iff (path : Path) :
    path.components.head? = some .root ↔ path.isAbsolute = true := by
  rw [components_eq, origin]
  by_cases absolute : path.isAbsolute = true
  · simp [absolute]
  · by_cases dotted : path.segments.head? = some ['.']
    · simp [absolute, dotted]
    · cases path.steps with
      | nil => simp [absolute, dotted]
      | cons segment rest =>
        have notRoot : Component.ofSegment segment ≠ .root := by
          unfold Component.ofSegment
          split <;> exact nofun
        simp [absolute, dotted, notRoot]

/-! ## Texts between slashes -/

theorem segments_withSlashes
    {first : List Char}
    {segments : List (List Char)}
    (noSlashFirst : '/' ∉ first)
    (noSlash : ∀ segment ∈ segments, '/' ∉ segment) :
    (⟨first ++ withSlashes segments⟩ : Path).segments = first :: segments := by
  induction segments generalizing first with
  | nil =>
    rw [withSlashes, List.flatMap_nil, List.append_nil]
    exact segments_of_noSlash noSlashFirst
  | cons second rest inductionHypothesis =>
    obtain ⟨noSlashSecond, noSlashRest⟩ := List.forall_mem_cons.1 noSlash
    have text : first ++ withSlashes (second :: rest) =
        first ++ '/' :: (second ++ withSlashes rest) := by
      rw [withSlashes, List.flatMap_cons, withSlashes, List.cons_append]
    rw [text, segments_append_slash, segments_of_noSlash noSlashFirst,
      inductionHypothesis noSlashSecond noSlashRest]
    rfl

/-- The segments that lead somewhere. -/
abbrev solid (segments : List (List Char)) : List (List Char) :=
  segments.filter fun segment => !isVoid segment

theorem dropVoid_starts (segments : List (List Char)) : dropVoid segments <+: segments := by
  rw [dropVoid, ← List.reverse_suffix, List.reverse_reverse]
  exact List.dropWhile_suffix _

theorem solid_dropVoid (segments : List (List Char)) :
    solid (dropVoid segments) = solid segments := by
  have dropped : (segments.reverse.dropWhile isVoid).filter (fun segment => !isVoid segment) =
      segments.reverse.filter fun segment => !isVoid segment := by
    generalize segments.reverse = reversed
    induction reversed with
    | nil => rfl
    | cons segment rest inductionHypothesis =>
      by_cases void : isVoid segment = true
      · rw [List.dropWhile_cons_of_pos void, inductionHypothesis,
          List.filter_cons_of_neg (by simp [void])]
      · rw [List.dropWhile_cons_of_neg void]
  rw [dropVoid, solid, List.filter_reverse, dropped, List.filter_reverse, List.reverse_reverse]

/-- Without void segments at the end, either nothing is left or the last segment is a step. -/
theorem dropVoid_cases (segments : List (List Char)) :
    dropVoid segments = [] ∧ solid segments = [] ∨
      ∃ first later last, dropVoid segments = first :: later ∧
        solid segments = solid (first :: later).dropLast ++ [last] := by
  cases kept : dropVoid segments with
  | nil =>
    refine Or.inl ⟨rfl, ?_⟩
    rw [← solid_dropVoid, kept]
    rfl
  | cons first later =>
    refine Or.inr ⟨first, later, (first :: later).getLast (List.cons_ne_nil _ _), rfl, ?_⟩
    have whole := List.dropLast_append_getLast (List.cons_ne_nil first later)
    generalize (first :: later).getLast _ = last at whole ⊢
    have isStep : isVoid last = false := by
      have reversed : segments.reverse.dropWhile isVoid =
          last :: (first :: later).dropLast.reverse := by
        rw [dropVoid, List.reverse_eq_iff] at kept
        rw [kept, ← whole, List.reverse_concat, List.dropLast_concat]
      have found := List.head?_dropWhile_not isVoid segments.reverse
      rw [reversed] at found
      exact found
    rw [← solid_dropVoid, kept, solid, solid]
    conv_lhs => rw [← whole]
    rw [List.filter_append, List.filter_cons_of_pos (by simp [isStep])]
    rfl

theorem noSlash_of_mem_segments
    {path : Path}
    {segment : List Char}
    (isSegment : segment ∈ path.segments) :
    '/' ∉ segment :=
  notMem_of_mem_splitOn isSegment

/-! ## One step up -/

section Parent

variable {path : Path}

variable {segments : List (List Char)}

/-- The segments that are left one step up are a start of those that were there. -/
theorem dropVoid_dropLast_starts
    {kept : List (List Char)}
    (whole : dropVoid segments = kept) :
    dropVoid kept.dropLast <+: segments :=
  (dropVoid_starts _).trans ((List.dropLast_prefix kept).trans (whole ▸ dropVoid_starts segments))

/-! The three forms of a path, told by the segments behind its start. -/

theorem steps_of_rooted (noSlash : ∀ segment ∈ segments, '/' ∉ segment) :
    (⟨'/' :: (withSlashes segments).tail⟩ : Path).steps = solid segments := by
  cases segments with
  | nil => rfl
  | cons first rest =>
    have text : '/' :: (withSlashes (first :: rest)).tail = [] ++ withSlashes (first :: rest) := by
      rw [withSlashes, List.flatMap_cons]
      rfl
    rw [steps, text, segments_withSlashes List.not_mem_nil noSlash]
    rfl

theorem components_of_rooted (noSlash : ∀ segment ∈ segments, '/' ∉ segment) :
    (⟨'/' :: (withSlashes segments).tail⟩ : Path).components =
      .root :: (solid segments).map Component.ofSegment := by
  rw [components_eq, steps_of_rooted noSlash]
  rfl

theorem components_of_dotted (noSlash : ∀ segment ∈ segments, '/' ∉ segment) :
    (⟨'.' :: withSlashes segments⟩ : Path).components =
      .current :: (solid segments).map Component.ofSegment := by
  have noSlashDot : '/' ∉ ['.'] := by decide
  have split : (⟨'.' :: withSlashes segments⟩ : Path).segments = ['.'] :: segments :=
    segments_withSlashes noSlashDot noSlash
  have relative : (⟨'.' :: withSlashes segments⟩ : Path).isAbsolute = false := rfl
  rw [components_eq, origin, steps, split, relative]
  rfl

theorem components_of_plain
    (noSlash : ∀ segment ∈ segments, '/' ∉ segment)
    (solidFirst : ∀ segment ∈ segments.head?, isVoid segment = false) :
    (⟨(withSlashes segments).tail⟩ : Path).isAbsolute = false ∧
      (⟨(withSlashes segments).tail⟩ : Path).components =
        (solid segments).map Component.ofSegment := by
  cases segments with
  | nil => exact ⟨rfl, rfl⟩
  | cons first rest =>
    obtain ⟨noSlashFirst, noSlashRest⟩ := List.forall_mem_cons.1 noSlash
    have isStep : isVoid first = false := solidFirst first rfl
    have text : (withSlashes (first :: rest)).tail = first ++ withSlashes rest := by
      rw [withSlashes, List.flatMap_cons]
      rfl
    have split := segments_withSlashes noSlashFirst noSlashRest
    have relative : (⟨first ++ withSlashes rest⟩ : Path).isAbsolute = false := by
      cases first with
      | nil => cases isStep
      | cons c later =>
        have notSlash : c ≠ '/' := fun same => noSlashFirst (same ▸ List.mem_cons_self)
        simpa [isAbsolute] using notSlash
    have notDot : first ≠ ['.'] := by
      rintro rfl
      cases isStep
    rw [text, components_eq, origin, steps, split, relative]
    exact ⟨rfl, by simp [notDot]⟩

/-- The first segment of a relative path that does not start with a dot alone is a step, unless the
path has no segments but an empty one. -/
theorem isVoid_head
    {segment : List Char}
    (relative : path.isAbsolute = false)
    (notDotted : path.segments.head? ≠ some ['.'])
    (isFirst : path.segments.head? = some segment) :
    isVoid segment = false ∨ path.segments = [[]] := by
  obtain ⟨text⟩ := path
  cases text with
  | nil => exact Or.inr rfl
  | cons c later =>
    have notSlash : c ≠ '/' := by simpa [isAbsolute] using relative
    obtain ⟨rest, rfl⟩ : ∃ rest, segment = c :: rest := by
      obtain ⟨first, others, split⟩ := List.exists_cons_of_ne_nil (List.splitOn_ne_nil '/' later)
      rw [Path.segments, List.splitOn_cons_eq_if_modifyHead, if_neg (by simpa using notSlash),
        split] at isFirst
      exact ⟨first, (Option.some.inj isFirst).symm⟩
    refine Or.inl ?_
    have notDot : c :: rest ≠ ['.'] := fun same => notDotted (same ▸ isFirst)
    simpa [isVoid] using notDot

/-- A step up either is not possible, and then the path is the root or has no components, or it
takes the last component off. -/
theorem parent?_cases (path : Path) :
    path.parent? = none ∧ (path.components = [] ∨ path.components = [.root]) ∨
      ∃ parent last, path.parent? = some parent ∧ parent.isAbsolute = path.isAbsolute ∧
        path.components = parent.components ++ [last] := by
  have noSlash segment (isSegment : segment ∈ path.segments) := noSlash_of_mem_segments isSegment
  rw [parent?, components_eq, origin]
  by_cases absolute : path.isAbsolute = true
  · have steps : path.steps = solid path.segments.tail := (steps_of_isAbsolute absolute).symm
    rw [if_pos absolute, if_pos absolute, steps]
    rcases dropVoid_cases path.segments.tail with
      ⟨nothing, noSteps⟩ | ⟨first, later, last, whole, split⟩
    · exact Or.inl ⟨by rw [nothing], Or.inr (by rw [noSteps]; rfl)⟩
    · refine Or.inr ⟨⟨'/' :: (withSlashes (dropVoid (first :: later).dropLast)).tail⟩,
        Component.ofSegment last, by rw [whole], absolute.symm, ?_⟩
      rw [components_of_rooted fun segment isSegment => noSlash segment
          (List.mem_of_mem_tail ((dropVoid_dropLast_starts whole).subset isSegment)),
        solid_dropVoid, split, List.map_append]
      rfl
  · rw [if_neg absolute, if_neg absolute]
    rw [Bool.not_eq_true] at absolute
    by_cases dotted : (path.segments.head? == some ['.']) = true
    · have steps : path.steps = solid path.segments.tail := by
        obtain ⟨rest, segments⟩ := List.head?_eq_some_iff.1 (beq_iff_eq.1 dotted)
        rw [Path.steps, segments]
        rfl
      rw [if_pos dotted, if_pos dotted, steps]
      rcases dropVoid_cases path.segments.tail with
        ⟨nothing, noSteps⟩ | ⟨first, later, last, whole, split⟩
      · exact Or.inr ⟨⟨[]⟩, .current, by rw [nothing], absolute.symm, by rw [noSteps]; rfl⟩
      · refine Or.inr ⟨⟨'.' :: withSlashes (dropVoid (first :: later).dropLast)⟩,
          Component.ofSegment last, by rw [whole], absolute.symm, ?_⟩
        rw [components_of_dotted fun segment isSegment => noSlash segment
            (List.mem_of_mem_tail ((dropVoid_dropLast_starts whole).subset isSegment)),
          solid_dropVoid, split, List.map_append]
        rfl
    · have steps : path.steps = solid path.segments := rfl
      rw [if_neg dotted, if_neg dotted, steps]
      rcases dropVoid_cases path.segments with
        ⟨nothing, noSteps⟩ | ⟨first, later, last, whole, split⟩
      · exact Or.inl ⟨by rw [nothing], Or.inl (by rw [noSteps]; rfl)⟩
      · have isStart := dropVoid_dropLast_starts whole
        have solidFirst : ∀ segment ∈ (dropVoid (first :: later).dropLast).head?,
            isVoid segment = false := by
          intro segment isFirst
          have isFirst : path.segments.head? = some segment := by
            obtain ⟨rest, whole⟩ := isStart
            rw [← whole, List.head?_append, isFirst, Option.some_or]
          rcases isVoid_head absolute (by simpa using dotted) isFirst with isStep | single
          · exact isStep
          · rw [single] at whole
            cases whole
        obtain ⟨relative, components⟩ := components_of_plain
          (fun segment isSegment => noSlash segment (isStart.subset isSegment)) solidFirst
        refine Or.inr ⟨_, Component.ofSegment last, by rw [whole],
          relative.trans absolute.symm, ?_⟩
        rw [components, solid_dropVoid, split, List.map_append]
        rfl

end Parent

/-! ## The way up -/

/-- A directory above a path, or the path itself: its components are the first ones of the path. -/
structure IsAbove (directory path : Path) : Prop where
  sameRoot : directory.isAbsolute = path.isAbsolute
  starts : directory.components <+: path.components

section Ancestors

variable {directory path : Path} {count : Nat}

theorem IsAbove.refl (path : Path) : path.IsAbove path :=
  ⟨rfl, List.prefix_rfl⟩

theorem IsAbove.trans
    {other : Path}
    (first : directory.IsAbove path)
    (second : path.IsAbove other) :
    directory.IsAbove other :=
  ⟨first.sameRoot.trans second.sameRoot, first.starts.trans second.starts⟩

theorem isAbove_of_mem_ancestorsUpTo (isIn : directory ∈ path.ancestorsUpTo count) :
    directory.IsAbove path := by
  induction count generalizing path with
  | zero =>
    rw [ancestorsUpTo, List.mem_singleton] at isIn
    exact isIn ▸ IsAbove.refl _
  | succ count inductionHypothesis =>
    rw [ancestorsUpTo] at isIn
    rcases List.mem_cons.1 isIn with rfl | isLater
    · exact IsAbove.refl _
    · rcases parent?_cases path with ⟨noParent, _⟩ | ⟨parent, last, step, sameRoot, components⟩
      · rw [noParent] at isLater
        cases isLater
      · rw [step] at isLater
        have parentAbove : parent.IsAbove path :=
          ⟨sameRoot, components ▸ List.prefix_append _ _⟩
        exact (inductionHypothesis isLater).trans parentAbove

/-- A path that is above another one but not the same is above the parent of it. -/
theorem IsAbove.cases (above : directory.IsAbove path) :
    directory.components = path.components ∨
      ∃ parent last, path.parent? = some parent ∧ directory.IsAbove parent ∧
        path.components = parent.components ++ [last] := by
  rcases parent?_cases path with ⟨_, atEnd⟩ | ⟨parent, last, step, sameRoot, components⟩
  · left
    rcases atEnd with nothing | atRoot
    · have starts := above.starts
      rw [nothing] at starts ⊢
      exact List.prefix_nil.1 starts
    · have starts := above.starts
      have isRooted : directory.components.head? = some .root := by
        rw [head?_components_iff, above.sameRoot, ← head?_components_iff, atRoot]
        rfl
      obtain ⟨rest, components⟩ := List.head?_eq_some_iff.1 isRooted
      rw [atRoot, components] at starts ⊢
      rw [List.prefix_nil.1 (List.cons_prefix_cons.1 starts).2]
  · rcases List.prefix_concat_iff.1 (components ▸ above.starts) with same | within
    · exact Or.inl (same.trans components.symm)
    · exact Or.inr ⟨parent, last, step, ⟨above.sameRoot.trans sameRoot.symm, within⟩, components⟩

/-- The walk comes to every directory above the path, if it may take enough steps. -/
theorem exists_mem_ancestorsUpTo
    (above : directory.IsAbove path)
    (enough : path.components.length ≤ count) :
    ∃ found ∈ path.ancestorsUpTo count,
      found.isAbsolute = directory.isAbsolute ∧ found.components = directory.components := by
  induction count generalizing path with
  | zero =>
    have nothing : path.components = [] := List.length_eq_zero_iff.1 (Nat.le_zero.1 enough)
    have starts := above.starts
    rw [nothing] at starts
    refine ⟨path, List.mem_singleton.2 rfl, above.sameRoot.symm, ?_⟩
    rw [nothing, List.prefix_nil.1 starts]
  | succ count inductionHypothesis =>
    rw [ancestorsUpTo]
    rcases above.cases with same | ⟨parent, last, step, within, components⟩
    · exact ⟨path, List.mem_cons_self, above.sameRoot.symm, same.symm⟩
    · have enoughLater : parent.components.length ≤ count := by
        rw [components, List.length_append, List.length_singleton] at enough
        omega
      obtain ⟨found, isIn, found⟩ := inductionHypothesis within enoughLater
      exact ⟨_, List.mem_cons_of_mem _ (by rwa [step]), found⟩

/-- The way goes up. -/
theorem pairwise_ancestorsUpTo (path : Path) (count : Nat) :
    (path.ancestorsUpTo count).Pairwise fun near far =>
      far.components.length < near.components.length := by
  induction count generalizing path with
  | zero => exact List.pairwise_singleton _ _
  | succ count inductionHypothesis =>
    rw [ancestorsUpTo]
    rcases parent?_cases path with ⟨noParent, _⟩ | ⟨parent, last, step, sameRoot, components⟩
    · rw [noParent]
      exact List.pairwise_singleton _ _
    · rw [step, Option.map_some, Option.getD_some, List.pairwise_cons]
      refine ⟨fun far isIn => ?_, inductionHypothesis parent⟩
      have shorter := (isAbove_of_mem_ancestorsUpTo isIn).starts.length_le
      rw [components, List.length_append, List.length_singleton]
      omega

end Ancestors

/-! ## How long the way is -/

theorem withSlashes_segments (path : Path) : withSlashes path.segments = '/' :: path.text := by
  obtain ⟨text⟩ := path
  rw [segments]
  induction text with
  | nil => rfl
  | cons c later inductionHypothesis =>
    obtain ⟨first, others, split⟩ := List.exists_cons_of_ne_nil (List.splitOn_ne_nil '/' later)
    rw [split, withSlashes, List.flatMap_cons] at inductionHypothesis
    rw [List.splitOn_cons_eq_if_modifyHead, split]
    by_cases slash : c = '/'
    · subst slash
      rw [if_pos (beq_self_eq_true _), withSlashes, List.flatMap_cons, List.flatMap_cons,
        inductionHypothesis]
      rfl
    · rw [if_neg (by simpa using slash), List.modifyHead_cons, withSlashes, List.flatMap_cons]
      exact congrArg (fun text => '/' :: c :: text) (List.cons.inj inductionHypothesis).2

theorem length_solid_le (segments : List (List Char)) :
    (solid segments).length + segments.length ≤ (withSlashes segments).length := by
  induction segments with
  | nil => rfl
  | cons segment later inductionHypothesis =>
    rw [solid] at inductionHypothesis ⊢
    rw [withSlashes, List.flatMap_cons, ← withSlashes, List.length_append, List.length_cons,
      List.length_cons]
    by_cases void : isVoid segment = true
    · rw [List.filter_cons_of_neg (by simp [void])]
      omega
    · have nonempty : segment.length ≠ 0 := by
        intro nothing
        rw [List.length_eq_zero_iff.1 nothing] at void
        exact void rfl
      rw [List.filter_cons_of_pos (by simp [void]), List.length_cons]
      omega

theorem length_components_le (path : Path) : path.components.length ≤ path.text.length := by
  have text := withSlashes_segments path
  rw [components_eq, List.length_append, List.length_map, origin]
  by_cases absolute : path.isAbsolute = true
  · rw [segments_of_isAbsolute absolute, withSlashes, List.flatMap_cons] at text
    have tailText : withSlashes path.segments.tail = path.text := (List.cons.inj text).2
    have bound := length_solid_le path.segments.tail
    have steps : path.steps = solid path.segments.tail := (steps_of_isAbsolute absolute).symm
    have later : path.segments.tail.length ≠ 0 := by
      intro nothing
      rw [List.length_eq_zero_iff.1 nothing] at tailText
      rw [isAbsolute, ← tailText] at absolute
      cases absolute
    rw [if_pos absolute, List.length_singleton, steps, ← tailText]
    omega
  · rw [if_neg absolute]
    by_cases dotted : path.segments.head? = some ['.']
    · obtain ⟨rest, split⟩ := List.head?_eq_some_iff.1 dotted
      have steps : path.steps = solid rest := by
        rw [Path.steps, split]
        rfl
      rw [split, withSlashes, List.flatMap_cons] at text
      have restText : '.' :: withSlashes rest = path.text := (List.cons.inj text).2
      have bound := length_solid_le rest
      rw [if_pos (beq_iff_eq.2 dotted), List.length_singleton, steps, ← restText, List.length_cons]
      omega
    · have bound := length_solid_le path.segments
      have first : 0 < path.segments.length := List.length_pos_iff.2 (List.splitOn_ne_nil _ _)
      have steps : path.steps = solid path.segments := rfl
      rw [if_neg (by simpa using dotted), List.length_nil, steps]
      rw [text, List.length_cons] at bound
      omega

/-- Only the empty path has no components. -/
theorem text_eq_nil_of_components
    {path : Path}
    (relative : path.isAbsolute = false)
    (nothing : path.components = []) :
    path.text = [] := by
  obtain ⟨noOrigin, noSteps⟩ := List.append_eq_nil_iff.1 (components_eq path ▸ nothing)
  have notDotted : path.segments.head? ≠ some ['.'] := by
    intro dotted
    rw [origin, relative, dotted] at noOrigin
    cases noOrigin
  obtain ⟨first, later, split⟩ := List.exists_cons_of_ne_nil (List.splitOn_ne_nil '/' path.text)
  have isFirst : path.segments.head? = some first := congrArg List.head? split
  rcases isVoid_head relative notDotted isFirst with isStep | single
  · have among : first ∈ path.steps :=
      List.mem_filter.2 ⟨List.mem_of_mem_head? isFirst, by simp [isStep]⟩
    rw [List.map_eq_nil_iff.1 noSteps] at among
    cases among
  · have text := withSlashes_segments path
    rw [single] at text
    exact (List.cons.inj text).2.symm

/-! ## All ancestors -/

section All

variable {directory path : Path}

theorem isAbove_of_mem_ancestors (isIn : directory ∈ path.ancestors) : directory.IsAbove path :=
  isAbove_of_mem_ancestorsUpTo isIn

/-- The walk comes to every directory above a path; it may write it in another way. -/
theorem exists_ancestor (above : directory.IsAbove path) :
    ∃ found ∈ path.ancestors,
      found.isAbsolute = directory.isAbsolute ∧ found.components = directory.components :=
  exists_mem_ancestorsUpTo above (length_components_le path)

/-- The nearest directory comes first. -/
theorem ancestors_nearest_first (path : Path) :
    path.ancestors.Pairwise fun near far => far.components.length < near.components.length :=
  pairwise_ancestorsUpTo path _

end All

end StyleSense.Path
