import StyleSense.Proofs.Files.Pattern

/-!
Contract: a name that is read as a pattern.

Most names accept themselves: `?` and `*` stand for themselves among others. A name with brackets
need not, since a class stands for one character.

Owns:
- `Glob.Component.Fits`, that the pattern of a component lets a search pass at a name;
- `Glob.AcceptsItself`, and that a path without brackets accepts itself;
- `Glob.fits_of_ofText?`.

Does not own: where a search goes (`StyleSense.Proofs.Files.Named`).
-/

namespace StyleSense.Glob

open StyleSense.Path (IsFileName isVoid)

/-! ## Names without wildcards -/

theorem literal?_cons_char (c : Char) (tokens : List Token) :
    literal? (.char c :: tokens) = (literal? tokens).map (c :: ·) := by
  rw [literal?, List.mapM_cons]
  change (literal? tokens).bind (fun chars => some (c :: chars)) = _
  cases literal? tokens <;> rfl

theorem eq_map_char_of_literal?
    {tokens : List Token}
    {text : List Char}
    (literal : literal? tokens = some text) :
    tokens = text.map .char := by
  induction tokens generalizing text with
  | nil =>
    cases literal
    rfl
  | cons token later inductionHypothesis =>
    cases token with
    | char c =>
      rw [literal?_cons_char] at literal
      obtain ⟨chars, rest, rfl⟩ := Option.map_eq_some_iff.1 literal
      rw [inductionHypothesis rest]
      rfl
    | _ => cases literal

/-- The first of several single characters. -/
theorem exists_cons_of_map_cons
    {token : Token}
    {later : Option (List Token)}
    {chars : List Char}
    (read : later.map (token :: ·) = some (chars.map .char)) :
    ∃ c rest, token = .char c ∧ later = some (rest.map .char) ∧ chars = c :: rest := by
  obtain ⟨tokens, rfl, same⟩ := Option.map_eq_some_iff.1 read
  cases chars with
  | nil => cases same
  | cons c rest =>
    obtain ⟨first, others⟩ := List.cons.inj same
    exact ⟨c, rest, first, congrArg some others, rfl⟩

theorem class?_ne_char {text after : List Char} {c : Char} :
    class? text ≠ some (.char c, after) := by
  unfold class?
  split
  all_goals
    intro found
    obtain ⟨⟨inside, rest⟩, _, same⟩ := Option.map_eq_some_iff.1 found
    cases same

/-- Tokens that are single characters come from these characters. -/
theorem eq_of_tokensFrom
    {fuel : Nat}
    {atStart : Bool}
    {text chars : List Char}
    (read : tokensFrom fuel atStart text = some (chars.map .char)) :
    text = chars := by
  fun_induction tokensFrom fuel atStart text generalizing chars with
  | case1 => exact (List.map_eq_nil_iff.1 (Option.some.inj read).symm).symm
  | case2 | case6 | case8 => cases read
  | case3 | case5 | case7 =>
    obtain ⟨c, rest, isChar, _⟩ := exists_cons_of_map_cons read
    cases isChar
  | case4 => cases chars <;> cases read
  | case9 fuel atStart first rest _ _ _ token after found inductionHypothesis =>
    obtain ⟨c, later, rfl, _⟩ := exists_cons_of_map_cons read
    exact absurd found class?_ne_char
  | case10 fuel atStart c rest _ _ _ inductionHypothesis =>
    obtain ⟨d, later, same, readLater, rfl⟩ := exists_cons_of_map_cons read
    cases same
    rw [inductionHypothesis readLater]

/-! ## Names with wildcards -/

/-- Without brackets `?` and `*` stand for themselves among others. -/
theorem accepts_of_tokensFrom
    {fuel : Nat}
    {atStart : Bool}
    {text : List Char}
    {tokens : List Token}
    (noClass : '[' ∉ text)
    (noSlash : '/' ∉ text)
    (read : tokensFrom fuel atStart text = some tokens) :
    atStart = true ∧ tokens = [.anyDirectories] ∨ accepts tokens text = true := by
  fun_induction tokensFrom fuel atStart text generalizing tokens with
  | case1 =>
    cases read
    exact Or.inr (by rw [accepts]; rfl)
  | case2 | case6 | case8 => cases read
  | case3 fuel atStart c rest isAny inductionHypothesis =>
    obtain ⟨later, readLater, rfl⟩ := Option.map_eq_some_iff.1 read
    rcases inductionHypothesis (List.not_mem_of_not_mem_cons noClass)
      (List.not_mem_of_not_mem_cons noSlash) readLater with ⟨isStart, _⟩ | accepted
    · cases isStart
    · exact Or.inr (by rwa [accepts])
  | case4 =>
    cases read
    exact Or.inl ⟨rfl, rfl⟩
  | case5 fuel c _ isStar others inductionHypothesis =>
    exact absurd (List.mem_cons_of_mem _ (List.mem_cons_of_mem _ List.mem_cons_self)) noSlash
  | case7 fuel atStart c rest _ isStar _ inductionHypothesis =>
    obtain ⟨later, readLater, rfl⟩ := Option.map_eq_some_iff.1 read
    rcases inductionHypothesis (List.not_mem_of_not_mem_cons noClass)
      (List.not_mem_of_not_mem_cons noSlash) readLater with ⟨isStart, _⟩ | accepted
    · cases isStart
    · exact Or.inr ((accepts_anySequence_iff _ _).2 ⟨rest, List.suffix_cons c rest, accepted⟩)
  | case9 fuel atStart c rest _ _ isBracket =>
    exact absurd (beq_iff_eq.1 isBracket ▸ List.mem_cons_self) noClass
  | case10 fuel atStart c rest _ _ _ inductionHypothesis =>
    obtain ⟨later, readLater, rfl⟩ := Option.map_eq_some_iff.1 read
    have notSlash : (c == '/') = false := by
      rw [beq_eq_false_iff_ne]
      exact fun same => noSlash (same ▸ List.mem_cons_self)
    rcases inductionHypothesis (List.not_mem_of_not_mem_cons noClass)
      (List.not_mem_of_not_mem_cons noSlash) readLater with ⟨isStart, _⟩ | accepted
    · rw [notSlash] at isStart
      cases isStart
    · exact Or.inr (by rw [accepts, beq_self_eq_true, accepted]; rfl)

/-! ## Components -/

namespace Component

/-- The pattern of a component lets a search pass at a name that is written like the pattern. -/
inductive Fits : Component → List Char → Prop
  | directories {piece : List Char} (isName : IsFileName piece) : Fits .directories piece
  | name (piece : List Char) : Fits (.name piece) piece
  | wildcard {tokens : List Token} {piece : List Char} (isName : IsFileName piece)
      (accepted : Glob.accepts tokens piece = true) : Fits (.wildcard tokens) piece

theorem eq_of_ofText?_name
    {piece text : List Char}
    (read : ofText? piece = some (.name text)) :
    text = piece := by
  rw [ofText?] at read
  obtain ⟨tokens, readTokens, same⟩ := Option.map_eq_some_iff.1 read
  split at same
  · cases same
  · split at same
    · rename_i literal found
      cases same
      rw [eq_map_char_of_literal? found] at readTokens
      exact (eq_of_tokensFrom readTokens).symm
    · cases same

/-- A piece that is no name has no wildcards. -/
theorem isFileName_of_ofText?
    {piece : List Char}
    {component : Component}
    (noSlash : '/' ∉ piece)
    (read : ofText? piece = some component)
    (notName : ∀ text, component ≠ .name text) :
    IsFileName piece := by
  have special (plain : IsPlain piece) : False := by
    rw [ofText?_plain plain] at read
    exact notName piece (Option.some.inj read).symm
  refine ⟨?_, fun parent => special (parent ▸ by decide), noSlash⟩
  by_contra void
  rw [Bool.not_eq_false, isVoid, Bool.or_eq_true, List.isEmpty_iff, beq_iff_eq] at void
  rcases void with rfl | rfl
  · exact special (by decide)
  · exact special (by decide)

theorem fits_of_ofText?
    {piece : List Char}
    {component : Component}
    (noSlash : '/' ∉ piece)
    (read : ofText? piece = some component)
    (accepted : component = .directories ∨ component.accepts piece = true) :
    component.Fits piece := by
  cases component with
  | directories => exact .directories (isFileName_of_ofText? noSlash read nofun)
  | name text =>
    rw [eq_of_ofText?_name read]
    exact .name piece
  | wildcard tokens =>
    exact .wildcard (isFileName_of_ofText? noSlash read nofun) (accepted.resolve_left nofun)

theorem exists_of_mapM_cons
    {piece : List Char}
    {pieces : List (List Char)}
    {components : List Component}
    (read : (piece :: pieces).mapM ofText? = some components) :
    ∃ first rest, ofText? piece = some first ∧ pieces.mapM ofText? = some rest ∧
      components = first :: rest := by
  rw [List.mapM_cons] at read
  obtain ⟨first, readFirst, read⟩ := Option.bind_eq_some_iff.1 read
  obtain ⟨rest, readRest, read⟩ := Option.bind_eq_some_iff.1 read
  exact ⟨first, rest, readFirst, readRest, (Option.some.inj read).symm⟩

theorem forall₂_fits
    {pieces : List (List Char)}
    {components : List Component}
    (noSlash : ∀ piece ∈ pieces, '/' ∉ piece)
    (accepted : ∀ piece ∈ pieces, ∀ component, ofText? piece = some component →
      component = .directories ∨ component.accepts piece = true)
    (read : pieces.mapM ofText? = some components) :
    List.Forall₂ Fits components pieces := by
  induction pieces generalizing components with
  | nil =>
    cases read
    exact .nil
  | cons piece rest inductionHypothesis =>
    obtain ⟨noSlashHere, noSlashLater⟩ := List.forall_mem_cons.1 noSlash
    obtain ⟨acceptedHere, acceptedLater⟩ := List.forall_mem_cons.1 accepted
    obtain ⟨first, others, readFirst, readRest, rfl⟩ := exists_of_mapM_cons read
    exact .cons (fits_of_ofText? noSlashHere readFirst (acceptedHere first readFirst))
      (inductionHypothesis noSlashLater acceptedLater readRest)

/-- Without brackets a component accepts itself. -/
theorem accepts_itself
    {piece : List Char}
    {component : Component}
    (noClass : '[' ∉ piece)
    (noSlash : '/' ∉ piece)
    (read : ofText? piece = some component) :
    component = .directories ∨ component.accepts piece = true := by
  cases component with
  | directories => exact Or.inl rfl
  | name text =>
    rw [eq_of_ofText?_name read]
    exact Or.inr (beq_self_eq_true piece)
  | wildcard tokens =>
    right
    rw [ofText?] at read
    obtain ⟨others, readTokens, same⟩ := Option.map_eq_some_iff.1 read
    split at same
    · cases same
    · rename_i notDirectories
      split at same
      · cases same
      · cases same
        exact (accepts_of_tokensFrom noClass noSlash readTokens).resolve_left
          fun isDirectories => notDirectories isDirectories.2

end Component

/-! ## Paths -/

/-- A path that is, read as a pattern, a pattern of itself, part by part. -/
def AcceptsItself (path : Path) : Prop :=
  ∀ piece ∈ path.pieces, ∀ component, Component.ofText? piece = some component →
    component = .directories ∨ component.accepts piece = true

/-- Only brackets can keep a path from being a pattern of itself. -/
theorem acceptsItself_of_noClass
    {path : Path}
    (noClass : '[' ∉ path.text) :
    AcceptsItself path := by
  intro piece isPiece component read
  have isSegment : piece ∈ path.segments := by
    rw [Path.pieces] at isPiece
    split at isPiece
    · exact List.mem_of_mem_tail isPiece
    · exact isPiece
  exact Component.accepts_itself
    (fun isIn => noClass (FileSystem.mem_of_mem_segments isSegment isIn))
    (Path.noSlash_of_mem_pieces isPiece) read

end StyleSense.Glob
