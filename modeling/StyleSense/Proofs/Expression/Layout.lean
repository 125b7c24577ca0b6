import StyleSense.Proofs.Expression.Matching
import StyleSense.Proofs.Token.Cut

/-!
Contract: where a value is broken into lines does not matter to its terms.

Tokens on several lines are compared with the same tokens on one line. There is a blank in front of
every token that starts a line there, whether or not there is one in its own line.

Owns:
- `Matching.anywhere`, by which tokens correspond at whatever places they stand;
- `Loose`, two tokens between which the reader looks neither for blanks nor for a line break;
- `follow_joined`: tokens with all breaks between such two agree with the same tokens on one line;
- `SameReading`, the same terms up to their places, which such tokens give.

Does not own: the texts of these lines (`StyleSense.Proofs.Line.Break`).
-/

namespace StyleSense

/-! ## Tokens at any places -/

/-- What corresponds when nothing is known of the places: all but them is the same. -/
def Matching.anywhere : Matching where
  pos _ _ := True
  string := Eq
  word _ _ := True
  literal _ _ := True
  pos_unknown := trivial
  pos_column _ _ := trivial
  string_refl _ := rfl
  word_of_literal _ := trivial
  word_member _ _ _ := trivial
  word_selector _ := trivial

theorem Token.agrees_anywhere
    {left right : Token}
    (sameKind : left.kind = right.kind) :
    Token.Agrees .anywhere left right := by
  refine ⟨?_, trivial⟩
  rw [← sameKind]
  cases left.kind with
  | string value => exact rfl
  | hash text => exact ⟨rfl, trivial⟩
  | _ => exact ⟨rfl, fun _ _ => trivial⟩

/-- The same terms up to their places, or an error for the same cause. -/
def SameReading (left right : Except ParseError (List Node)) : Prop :=
  (left.map Node.unplacedList).mapError ParseError.fault =
    (right.map Node.unplacedList).mapError ParseError.fault

theorem Node.ListMatches.unplaced_eq
    {M : Matching}
    (equalStrings : ∀ {value value'}, M.string value value' → value = value')
    {nodes nodes' : List Node}
    (same : Node.ListMatches M nodes nodes') :
    Node.unplacedList nodes = Node.unplacedList nodes' := by
  induction nodes generalizing nodes' with
  | nil =>
    cases same
    rfl
  | cons node rest inductionHypothesis =>
    cases same with
    | cons first others =>
      rw [Node.unplacedList, Node.unplacedList, first.unplaced_eq equalStrings,
        inductionHypothesis others]

theorem Matching.Outcome.sameReading
    {left right : Except ParseError (List Node)}
    (outcome : Matching.anywhere.Outcome (Node.ListMatches .anywhere) left right) :
    SameReading left right := by
  cases outcome with
  | ok nodes => exact congrArg Except.ok (nodes.unplaced_eq id)
  | error errors => exact congrArg Except.error errors.1

/-! ## Breaks -/

/-- The open brackets after some tokens. -/
def framesOf (frames : List Frame) (tokens : List Token) : List Frame :=
  tokens.foldl (fun frames token => framesAfter frames token.kind) frames

/-- The last of some tokens, or the one before them. -/
def lastOf (before : Token) (tokens : List Token) : Token :=
  tokens.getLast?.getD before

theorem lastOf_cons
    (before token : Token)
    (tokens : List Token) :
    lastOf before (token :: tokens) = lastOf token tokens := by
  rw [lastOf, List.getLast?_cons]
  rfl

/-- Between two such tokens, the reader looks neither for blanks nor for a line break. -/
def Loose (frames : List Frame) (left right : Token.Kind) : Prop :=
  left.glues right = false ∧
    (frames.head? = some .value → left.endsOperand = true → right.separates = true)

instance (frames : List Frame) (left right : Token.Kind) : Decidable (Loose frames left right) :=
  inferInstanceAs (Decidable (_ ∧ _))

theorem Loose.sameGap
    {frames : List Frame}
    {x x' y y' : Token}
    (loose : Loose frames x.kind y.kind) :
    SameGap frames x x' y y' := by
  refine ⟨fun glued => ?_, fun inValue ends notSeparated => ?_⟩
  · rw [loose.1] at glued
    cases glued
  · rw [loose.2 inValue ends] at notSeparated
    cases notSeparated

/-- Nothing is glued to a comma, and no value ends with one. -/
theorem loose_comma
    (frames : List Frame)
    (right : Token.Kind) :
    Loose frames .comma right := by
  refine ⟨?_, fun _ ends => nomatch ends⟩
  cases right with
  | op sign => cases sign <;> rfl
  | _ => rfl

/-- Tokens that stand on one line each, with the same blanks, agree as far as what follows does. -/
theorem follow_append
    {frames : List Frame}
    {x x' : Token}
    {tokens tokens' rest rest' : List Token}
    {line line' : Nat}
    (same : kindsOf tokens = kindsOf tokens')
    (onLine : ∀ token ∈ x :: tokens, token.pos.line = line)
    (onLine' : ∀ token ∈ x' :: tokens', token.pos.line = line')
    (later : Matching.anywhere.Follow (framesOf frames tokens) (lastOf x tokens) (lastOf x' tokens')
      rest rest') :
    Matching.anywhere.Follow frames x x' (tokens ++ rest) (tokens' ++ rest') := by
  induction tokens generalizing frames x x' tokens' with
  | nil =>
    obtain rfl : tokens' = [] := List.map_eq_nil_iff.mp same.symm
    exact later
  | cons y tokens inductionHypothesis =>
    cases tokens' with
    | nil => cases same
    | cons y' tokens' =>
      obtain ⟨sameFirst, sameRest⟩ := List.cons.inj same
      obtain ⟨sameKind, sameBlank⟩ := Prod.mk.inj sameFirst
      obtain ⟨here, others⟩ := List.forall_mem_cons.mp onLine
      obtain ⟨here', others'⟩ := List.forall_mem_cons.mp onLine'
      rw [lastOf_cons, lastOf_cons] at later
      refine .cons (Token.agrees_anywhere sameKind) ⟨fun _ => sameBlank, fun _ _ _ => ?_⟩ ?_
      · rw [here, here', others y (List.mem_cons_self ..), others' y' (List.mem_cons_self ..)]
        exact ⟨fun _ => rfl, fun _ => rfl⟩
      · exact inductionHypothesis sameRest others others' later

/-- Tokens after a break that is not looked at agree as far as what follows does. -/
theorem follow_break
    {frames : List Frame}
    {x x' : Token}
    {tokens tokens' rest rest' : List Token}
    {line line' : Nat}
    (same : kindsOf tokens' = spaceFirst (kindsOf tokens))
    (loose : ∀ token ∈ tokens.head?, Loose frames x.kind token.kind)
    (onLine : ∀ token ∈ tokens, token.pos.line = line)
    (onLine' : ∀ token ∈ tokens', token.pos.line = line')
    (later : Matching.anywhere.Follow (framesOf frames tokens) (lastOf x tokens) (lastOf x' tokens')
      rest rest') :
    Matching.anywhere.Follow frames x x' (tokens ++ rest) (tokens' ++ rest') := by
  cases tokens with
  | nil =>
    obtain rfl : tokens' = [] := List.map_eq_nil_iff.mp same
    exact later
  | cons y tokens =>
    cases tokens' with
    | nil => cases same
    | cons y' tokens' =>
      obtain ⟨sameFirst, sameRest⟩ := List.cons.inj same
      obtain ⟨sameKind, _⟩ := Prod.mk.inj sameFirst
      rw [lastOf_cons, lastOf_cons] at later
      exact .cons (Token.agrees_anywhere sameKind.symm) (loose y rfl).sameGap
        (follow_append sameRest.symm onLine onLine' later)

/-- All breaks between some lists of tokens, after `before`, are between tokens where the reader does
not look for them. -/
def LooseBreaks (before : List Token) : List (List Token) → Prop
  | [] => True
  | tokens :: later =>
    (∀ left ∈ before.getLast?, ∀ right ∈ tokens.head?,
      Loose (framesOf [] before) left.kind right.kind) ∧ LooseBreaks (before ++ tokens) later

theorem LooseBreaks.first
    {start : Token}
    {before tokens : List Token}
    {lists : List (List Token)}
    (startsAfresh : start.kind = .comma)
    (loose : LooseBreaks before (tokens :: lists)) :
    ∀ token ∈ tokens.head?, Loose (framesOf [] before) (lastOf start before).kind token.kind := by
  intro token isFirst
  cases last : before.getLast? with
  | none =>
    rw [lastOf, last]
    exact startsAfresh ▸ loose_comma _ _
  | some left =>
    rw [lastOf, last]
    exact loose.1 left last token isFirst

theorem framesOf_append
    (frames : List Frame)
    (first second : List Token) :
    framesOf frames (first ++ second) = framesOf (framesOf frames first) second :=
  List.foldl_append ..

theorem lastOf_append
    (before : Token)
    (first second : List Token) :
    lastOf before (first ++ second) = lastOf (lastOf before first) second := by
  rw [lastOf, lastOf, lastOf, List.getLast?_append]
  cases second.getLast? <;> rfl

/-- Tokens on several lines, after `before`, and on one line. -/
theorem follow_breaks
    {start x' : Token}
    {before tokens' : List Token}
    {lists : List (List Token)}
    {line' : Nat}
    (same : kindsOf tokens' = ((lists.map kindsOf).map spaceFirst).flatten)
    (startsAfresh : start.kind = .comma)
    (loose : LooseBreaks before lists)
    (onLines : ∀ tokens ∈ lists, ∃ line, ∀ token ∈ tokens, token.pos.line = line)
    (onLine' : ∀ token ∈ tokens', token.pos.line = line') :
    Matching.anywhere.Follow (framesOf [] before) (lastOf start before) x' lists.flatten tokens' := by
  induction lists generalizing before x' tokens' with
  | nil =>
    obtain rfl : tokens' = [] := List.map_eq_nil_iff.mp same
    exact .nil
  | cons tokens lists inductionHypothesis =>
    obtain ⟨here', others', rfl, sameHere, sameOthers⟩ := List.map_eq_append_iff.mp same
    obtain ⟨⟨line, here⟩, others⟩ := List.forall_mem_cons.mp onLines
    obtain ⟨onLineHere, onLineOthers⟩ := List.forall_mem_append.mp onLine'
    refine follow_break sameHere (loose.first startsAfresh) here onLineHere ?_
    rw [← framesOf_append, ← lastOf_append]
    exact inductionHypothesis sameOthers loose.2 others onLineOthers

/-- If no break of a value is where the reader looks for one, its tokens agree with those on one line
that have a blank for every break. -/
theorem follow_joined
    {first joined : List Token}
    {rests : List (List Token)}
    {line line' : Nat}
    (same : kindsOf joined = joinKinds ((first :: rests).map kindsOf))
    (loose : LooseBreaks first rests)
    (onLine : ∀ token ∈ first, token.pos.line = line)
    (onLines : ∀ tokens ∈ rests, ∃ line, ∀ token ∈ tokens, token.pos.line = line)
    (onLine' : ∀ token ∈ joined, token.pos.line = line') :
    ∃ start start', Matching.anywhere.Follow [] start start' (first ++ rests.flatten) joined := by
  obtain ⟨here', others', rfl, sameFirst, sameOthers⟩ := List.map_eq_append_iff.mp same
  obtain ⟨onLineFirst, onLineOthers⟩ := List.forall_mem_append.mp onLine'
  -- Before the value stands, on the line of its first token, something that nothing is glued to.
  let start : Token := { Expression.noToken with pos := ⟨line, 0⟩ }
  let start' : Token := { Expression.noToken with pos := ⟨line', 0⟩ }
  have later : Matching.anywhere.Follow (framesOf [] first) (lastOf start first) (lastOf start' here')
      rests.flatten others' := follow_breaks sameOthers rfl loose onLines onLineOthers
  exact ⟨start, start', follow_append sameFirst.symm (List.forall_mem_cons.mpr ⟨rfl, onLine⟩)
    (List.forall_mem_cons.mpr ⟨rfl, onLineFirst⟩) later⟩

end StyleSense
