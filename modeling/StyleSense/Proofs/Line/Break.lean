import StyleSense.Proofs.Expression.Layout
import StyleSense.Proofs.Token.Place

/-!
Contract: what a line break within a logical line is to the lexer.

Each fragment is cut into tokens by itself, and the start of a fragment counts as no blank. So the
tokens of a logical line are those of its fragments joined by blanks, but for the flag of the first
token of each fragment that continues the line.

Owns:
- `Line.tokensOf_breaks`: the kinds are always the same, the flags are the same just when each of
  these tokens has a blank before it in its own fragment, and the terms are the same if the reader
  looks at none of the breaks.

Does not own: which lines continue a logical line (`StyleSense.Line.Scan`).
-/

namespace StyleSense

/-! ## Blanks at the breaks -/

theorem spaceFirst_eq_self_iff (tokens : List Token) :
    kindsOf tokens = spaceFirst (kindsOf tokens) ↔ ∀ token ∈ tokens.head?, token.spaced = true := by
  cases tokens with
  | nil => simp [kindsOf, spaceFirst]
  | cons first rest => simp [kindsOf, spaceFirst]

theorem length_spaceFirst (kinds : List (Token.Kind × Bool)) :
    (spaceFirst kinds).length = kinds.length := by
  cases kinds <;> rfl

/-- Lists of tokens have the flags of joined ones just when a blank stands before each. -/
theorem kindsOf_flatten_eq_iff (lists : List (List Token)) :
    kindsOf lists.flatten = ((lists.map kindsOf).map spaceFirst).flatten ↔
      ∀ tokens ∈ lists, ∀ token ∈ tokens.head?, token.spaced = true := by
  induction lists with
  | nil => simp [kindsOf]
  | cons tokens lists inductionHypothesis =>
    have sameLength : (kindsOf tokens).length = (spaceFirst (kindsOf tokens)).length :=
      (length_spaceFirst _).symm
    rw [List.forall_mem_cons, ← inductionHypothesis, ← spaceFirst_eq_self_iff]
    simp only [List.flatten_cons, List.map_cons, kindsOf, List.map_append] at sameLength ⊢
    constructor
    · exact fun same => List.append_inj same sameLength
    · exact fun same => congrArg₂ (· ++ ·) same.1 same.2

namespace Line

/-! ## Tokens of fragments -/

theorem fragmentTokens_of_each
    {fragments : List Fragment}
    {lists : List (List Token)}
    (each : List.Forall₂ (fun fragment tokens => fragment.tokens = .ok tokens) fragments lists) :
    fragmentTokens fragments = .ok lists.flatten := by
  induction each with
  | nil => rfl
  | cons here _ inductionHypothesis =>
    rw [fragmentTokens, here, inductionHypothesis]
    rfl

theorem cuts_of_each
    {fragments : List Fragment}
    {lists : List (List Token)}
    (each : List.Forall₂ (fun fragment tokens => fragment.tokens = .ok tokens) fragments lists) :
    List.Forall₂ (Token.Cut false) (fragments.map Fragment.text) (lists.map kindsOf) := by
  rw [List.forall₂_map_left_iff, List.forall₂_map_right_iff]
  exact each.imp fun _ _ read => tokenizeFrom_cut read

/-- The tokens of a fragment stand on its line. -/
theorem onLine_of_tokens
    {fragment : Fragment}
    {tokens : List Token}
    (read : fragment.tokens = .ok tokens) :
    ∀ token ∈ tokens, token.pos.line = fragment.line :=
  fun token isIn => (tokenize_shows read token isIn).shows.bounds.1

theorem onLines_of_each
    {fragments : List Fragment}
    {lists : List (List Token)}
    (each : List.Forall₂ (fun fragment tokens => fragment.tokens = .ok tokens) fragments lists) :
    ∀ tokens ∈ lists, ∃ line, ∀ token ∈ tokens, token.pos.line = line := by
  induction each with
  | nil => exact fun _ isIn => nomatch isIn
  | cons here _ inductionHypothesis =>
    exact List.forall_mem_cons.mpr ⟨⟨_, onLine_of_tokens here⟩, inductionHypothesis⟩

/-- The tokens of a logical line beside those of its fragments joined by blanks: the same kinds in the
same order. The flags of joined tokens say that a blank stands before the first token of each
fragment; those of the line are the same just when it stands there within the fragment. The terms are
the same up to places if no break is between two tokens where the reader looks for one. -/
theorem tokensOf_breaks
    {line : Line}
    {first : List Token}
    {rests : List (List Token)}
    (each : List.Forall₂ (fun fragment tokens => fragment.tokens = .ok tokens) line.fragments
      (first :: rests))
    (number offset : Nat) :
    line.tokensOf line.head.text = .ok (first ++ rests.flatten) ∧
      ∃ joined,
        tokenize (joinTexts (line.fragments.map Fragment.text)) number offset = .ok joined ∧
        kindsOf joined = joinKinds ((first :: rests).map kindsOf) ∧
        (kindsOf (first ++ rests.flatten) = kindsOf joined ↔
          ∀ tokens ∈ rests, ∀ token ∈ tokens.head?, token.spaced = true) ∧
        (LooseBreaks first rests → SameReading (Expression.readTerms (first ++ rests.flatten))
          (Expression.readTerms joined)) := by
  obtain ⟨ofHead, ofTail⟩ := List.forall₂_cons.mp each
  obtain ⟨cutHead, cutTail⟩ := List.forall₂_cons.mp (cuts_of_each each)
  obtain ⟨joined, read, kinds⟩ := tokenize_of_cut (cutHead.joinTexts cutTail) number offset
  refine ⟨?_, joined, read, kinds, ?_, fun loose => ?_⟩
  · rw [tokensOf, Nat.sub_self]
    exact fragmentTokens_of_each each
  · have split : kindsOf (first ++ rests.flatten) = kindsOf first ++ kindsOf rests.flatten :=
      List.map_append
    rw [kinds, split, ← kindsOf_flatten_eq_iff, joinKinds, List.append_cancel_left_eq]
  · have onLine : ∀ token ∈ joined, token.pos.line = number :=
      fun token isIn => (tokenize_shows read token isIn).shows.bounds.1
    obtain ⟨start, start', follow⟩ := follow_joined kinds loose (onLine_of_tokens ofHead)
      (onLines_of_each ofTail) onLine
    exact (Expression.readTerms_follow follow).sameReading

/-- A call broken between two arguments: a blank before the second one is missed, and not needed. -/
theorem tokensOf_breaks_of_arguments :
    let line : Line := ⟨0, ⟨1, 0, "f(a".toList⟩, [⟨2, 2, "b)".toList⟩]⟩
    ∃ tokens joined, line.tokensOf line.head.text = .ok tokens ∧
      tokenize "f(a b)".toList 1 0 = .ok joined ∧ kindsOf tokens ≠ kindsOf joined ∧
      SameReading (Expression.readTerms tokens) (Expression.readTerms joined) := by
  intro line
  let f : Token := ⟨.name "f", ⟨1, 1⟩, false⟩
  let opening : Token := ⟨.opening .round, ⟨1, 2⟩, false⟩
  let a : Token := ⟨.name "a", ⟨1, 3⟩, false⟩
  let b : Token := ⟨.name "b", ⟨2, 3⟩, false⟩
  let closing : Token := ⟨.closing .round, ⟨2, 4⟩, false⟩
  have ofHead : line.head.tokens = .ok [f, opening, a] := by decide +kernel
  have ofTail : Fragment.tokens ⟨2, 2, "b)".toList⟩ = .ok [b, closing] := by decide +kernel
  have each : List.Forall₂ (fun fragment tokens => fragment.tokens = .ok tokens) line.fragments
      [[f, opening, a], [b, closing]] := .cons ofHead (.cons ofTail .nil)
  obtain ⟨read, joined, readJoined, _, flags, terms⟩ := tokensOf_breaks each 1 0
  have loose : LooseBreaks [f, opening, a] [[b, closing]] := by
    simp only [LooseBreaks, and_true]
    rintro left ⟨⟩ right ⟨⟩
    decide
  refine ⟨_, joined, read, readJoined, fun same => ?_, terms loose⟩
  exact absurd (flags.mp same _ (List.mem_singleton_self _) b rfl) (by decide)

end Line

end StyleSense
