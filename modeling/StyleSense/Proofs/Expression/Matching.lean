import Mathlib.Data.List.Forall2
import StyleSense.Proofs.Expression.Gap

/-!
Contract: the reader of values keeps a matching.

Owns:
- `Matching.Reads`, corresponding outcomes of a reader on tokens that agree;
- one lemma for each reader. A reader that needs whole terms is shown to keep the matching on the
  assumption that `term` does so on fewer than `bound` tokens; `termsMatch` closes the circle by
  induction on the bound;
- `Expression.readTerms_follow` and `Expression.read_follow`, the result for complete values whose
  tokens agree up to the gaps that are not looked at;
- `Expression.readTerms_matches` and `Expression.read_matches`, the same for tokens that correspond
  with all their blanks and lines.

Does not own: which gaps are looked at (`StyleSense.Proofs.Expression.Gap`), and where the tokens come
from (`StyleSense.Proofs.Token.Stretch`).
-/

namespace StyleSense

variable {M : Matching}

/-- Token lists that correspond one by one. -/
abbrev Matching.Tokens (M : Matching) : List Token → List Token → Prop :=
  List.Forall₂ (Token.Matches M)

/-- Outcomes of a reader that correspond: the values do and so do the tokens that are left. -/
def Matching.Reads
    (M : Matching)
    (whole whole' : List Token)
    (frames : List Frame)
    {α : Type}
    (related : α → α → Prop)
    {bound bound' : Nat}
    (left : Except ParseError (Expression.Read α bound))
    (right : Except ParseError (Expression.Read α bound')) : Prop :=
  M.Outcome
    (fun first second => related first.value second.value ∧
      ∃ x x', M.Past whole whole' frames x x' first.rest second.rest)
    left right

namespace Matching.Reads

variable {α : Type} {related : α → α → Prop} {bound bound' : Nat} {whole whole' : List Token}
  {frames : List Frame}

theorem ok
    {value value' : α}
    {x x' : Token}
    {rest rest' : List Token}
    (shorter : rest.length < bound)
    (shorter' : rest'.length < bound')
    (values : related value value')
    (past : M.Past whole whole' frames x x' rest rest') :
    M.Reads whole whole' frames related (.ok (⟨value, rest, shorter⟩ : Expression.Read α bound))
      (.ok (⟨value', rest', shorter'⟩ : Expression.Read α bound')) :=
  Matching.Outcome.ok ⟨values, x, x', past⟩

theorem error
    {first second : ParseError}
    (errors : M.error first second) :
    M.Reads whole whole' frames related (.error first : Except ParseError (Expression.Read α bound))
      (.error second : Except ParseError (Expression.Read α bound')) :=
  Matching.Outcome.error errors

/-- Corresponding outcomes are two errors, or two values with the tokens that are left. -/
theorem cases
    {left : Except ParseError (Expression.Read α bound)}
    {right : Except ParseError (Expression.Read α bound')}
    (reads : M.Reads whole whole' frames related left right) :
    (∃ first second, left = .error first ∧ right = .error second ∧ M.error first second) ∨
      ∃ value rest shorter value' rest' shorter',
        left = .ok ⟨value, rest, shorter⟩ ∧ right = .ok ⟨value', rest', shorter'⟩ ∧
          related value value' ∧ ∃ x x', M.Past whole whole' frames x x' rest rest' := by
  cases reads with
  | ok results => exact .inr ⟨_, _, _, _, _, _, rfl, rfl, results.1, results.2⟩
  | error errors => exact .inl ⟨_, _, rfl, rfl, errors⟩

end Matching.Reads

namespace Expression

section Readers

variable {last last' : SourcePos} {bound : Nat} {whole whole' : List Token} {frames : List Frame}
  {x x' : Token} {tokens tokens' : List Token}

/-! ## Signs and names -/

theorem joins_eq
    (isMinus : x.kind = .op .minus)
    (spaced : x.spaced = x'.spaced)
    (stands : M.At whole whole' frames x x' tokens tokens') :
    joins x tokens = joins x' tokens' := by
  rcases stands.cases with ⟨rfl, rfl⟩ | ⟨y, y', rest, rest', rfl, rfl, agrees, gap, next⟩
  · rfl
  · rw [joins, joins, spaced, gap.spaced (by rw [isMinus]; exact Token.Kind.glues_minus _)]

/-- The same binary operator, or none, stands in front of both readings. -/
theorem infixOp?_matches
    (steady : Steady frames)
    (past : M.Past whole whole' frames x x' tokens tokens') :
    (infixOp? tokens = none ∧ infixOp? tokens' = none) ∨
      ∃ sign level rest rest' y y',
        infixOp? tokens = some (sign, level, rest) ∧
          infixOp? tokens' = some (sign, level, rest') ∧
          M.At whole whole' frames y y' rest.val rest'.val := by
  rcases past.toAt.cases with ⟨rfl, rfl⟩ | ⟨y, y', rest, rest', rfl, rfl, agrees, gap, next⟩
  · exact .inl ⟨rfl, rfl⟩
  rcases agrees.kind.eq_or_string with equal | ⟨value, value', isString, isString'⟩
  · have after (inner : y.kind.isInner = true) : M.At whole whole' frames y y' rest rest' := by
      rw [← steady.after inner]
      exact next
    simp only [infixOp?]
    rw [← equal]
    split
    · rename_i sign isSign
      have beyond := after (by rw [isSign]; rfl)
      have sameJoins : (sign == .minus && !joins y rest) = (sign == .minus && !joins y' rest') := by
        by_cases isMinus : sign = .minus
        · subst isMinus
          have glued : x.kind.glues y.kind = true := by
            rw [isSign]
            refine Token.Kind.glues_of_endsOperand (past.ended.resolve_right ?_)
            simp [atBoundary, isSign]
          rw [joins_eq isSign (gap.spaced glued) next]
        · rw [beq_false_of_ne isMinus, Bool.false_and, Bool.false_and]
      rw [← sameJoins]
      split
      · exact .inl ⟨rfl, rfl⟩
      · cases level : sign.level? with
        | none => exact .inl ⟨rfl, rfl⟩
        | some level => exact .inr ⟨_, _, _, _, _, _, rfl, rfl, beyond⟩
    · rename_i isName
      exact .inr ⟨_, _, _, _, _, _, rfl, rfl, after (by rw [isName]; rfl)⟩
    · rename_i isName
      exact .inr ⟨_, _, _, _, _, _, rfl, rfl, after (by rw [isName]; rfl)⟩
    · rename_i isName
      have beyond := after (by rw [isName]; rfl)
      rcases beyond.cases with
        ⟨rfl, rfl⟩ | ⟨z, z', following, following', rfl, rfl, second, _, others⟩
      · exact .inr ⟨_, _, _, _, _, _, rfl, rfl, beyond⟩
      · dsimp only
        rw [← second.isName_eq]
        cases isNot : z.isName "not" with
        | true =>
          rw [steady.after (Token.isInner_of_isName isNot)] at others
          exact .inr ⟨_, _, _, _, _, _, rfl, rfl, others⟩
        | false => exact .inr ⟨_, _, _, _, _, _, rfl, rfl, beyond⟩
    · exact .inl ⟨rfl, rfl⟩
  · simp [infixOp?, isString, isString']

/-- Joined operands correspond when the operands do. -/
theorem joined_matches
    {left left' right right' : Node}
    (lefts : Node.Matches M left left')
    (sign : Operator)
    (rights : Node.Matches M right right') :
    Node.Matches M (joined left sign right) (joined left' sign right') :=
  .binary lefts rights lefts.pos

theorem negated_matches
    {minus minus' : SourcePos}
    (signs : M.pos minus minus')
    {node node' : Node}
    (nodes : Node.Matches M node node') :
    Node.Matches M (negated minus node) (negated minus' node') := by
  cases nodes with
  | unit places => exact .unit (M.pos_column places signs)
  | _ => exact .other

theorem hashTerm_matches
    {text : String}
    {pos pos' : SourcePos}
    (literal : M.literal text pos)
    (places : M.pos pos pos') :
    Node.Matches M (hashTerm text pos) (hashTerm text pos') := by
  unfold hashTerm
  split
  · exact .rgba literal places
  · exact .ident (M.word_of_literal literal) places

theorem urlTerm_matches
    {pos pos' : SourcePos}
    (body : String)
    (word : M.word "url" pos)
    (places : M.pos pos pos') :
    Node.Matches M (urlTerm body pos) (urlTerm body pos') :=
  .call word
    (.cons (.expression (.intro (.cons (.string (M.string_refl body) places) .nil) places)) .nil)
    places

/-- A member after a dot is glued to the name in both readings or in none. -/
theorem isMember_eq
    {name : String}
    (isName : x.kind = .name name)
    {dot dot' member member' : Token}
    (dots : Token.Agrees M dot dot')
    (gap : SameGap frames x x' dot dot')
    {inner : List Frame}
    (gap' : SameGap inner dot dot' member member')
    {key : String}
    (isKey : member.kind = .name key) :
    (dot.isOp .dot && !dot.spaced && !member.spaced) =
      (dot'.isOp .dot && !dot'.spaced && !member'.spaced) := by
  rw [← dots.isOp_eq]
  cases isDot : dot.isOp .dot with
  | false => rfl
  | true =>
    have dotKind : dot.kind = .op .dot := beq_iff_eq.mp isDot
    rw [gap.spaced (by rw [isName, dotKind]; rfl), gap'.spaced (by rw [dotKind, isKey]; rfl)]

/-- Tokens that agree extend a name in the same way. -/
theorem members_matches
    (steady : Steady frames)
    (name : String)
    (isName : ∃ text, x.kind = .name text)
    (stands : M.At whole whole' frames x x' tokens tokens') :
    (members name tokens).1 = (members name tokens').1 ∧
      ∃ y y', (∃ text, y.kind = .name text) ∧
        M.At whole whole' frames y y' (members name tokens).2.val (members name tokens').2.val := by
  fun_induction members name tokens generalizing x x' tokens' with
  | case1 =>
    rcases stands.cases with ⟨_, rfl⟩ | ⟨_, _, _, _, same, _⟩
    · exact ⟨rfl, x, x', isName, stands⟩
    · cases same
  | case2 token =>
    rcases stands.cases with ⟨same, _⟩ | ⟨y, y', rest, rest', same, rfl, agrees, gap, next⟩
    · cases same
    · cases same
      rcases next.cases with ⟨_, rfl⟩ | ⟨_, _, _, _, others, _⟩
      · exact ⟨rfl, x, x', isName, stands⟩
      · cases others
  | case3 name dot member following key isKey isMember longer rest extended inductionHypothesis =>
    rcases stands.cases with ⟨same, _⟩ | ⟨y, y', rest, rest', same, rfl, agrees, gap, next⟩
    · cases same
    cases same
    rcases next.cases with ⟨same, _⟩ | ⟨z, z', others, others', same, rfl, second, gap', beyond⟩
    · cases same
    cases same
    obtain ⟨text, isText⟩ := isName
    have isDot : dot.isOp .dot = true := by
      simp only [Bool.and_eq_true] at isMember
      exact isMember.1.1
    rw [isMember_eq isText agrees gap gap' isKey] at isMember
    rw [steady.after (Token.isInner_of_isOp isDot), steady.after (by rw [isKey]; rfl)] at beyond
    obtain ⟨sameName, sameRest⟩ := inductionHypothesis ⟨key, isKey⟩ beyond
    rw [extended] at sameName sameRest
    simp only [members, second.kind_eq_name isKey, isMember, if_true]
    exact ⟨sameName, sameRest⟩
  | case4 name dot member following key isKey isMember =>
    rcases stands.cases with ⟨same, _⟩ | ⟨y, y', rest, rest', same, rfl, agrees, gap, next⟩
    · cases same
    cases same
    rcases next.cases with ⟨same, _⟩ | ⟨z, z', others, others', same, rfl, second, gap', _⟩
    · cases same
    cases same
    obtain ⟨text, isText⟩ := isName
    rw [isMember_eq isText agrees gap gap' isKey] at isMember
    simp only [members, second.kind_eq_name isKey, isMember]
    exact ⟨rfl, x, x', ⟨text, isText⟩, stands⟩
  | case5 name dot member following notName =>
    rcases stands.cases with ⟨same, _⟩ | ⟨y, y', rest, rest', same, rfl, agrees, gap, next⟩
    · cases same
    cases same
    rcases next.cases with ⟨same, _⟩ | ⟨z, z', others, others', same, rfl, second, gap', _⟩
    · cases same
    cases same
    have notName' : ∀ key, z'.kind ≠ .name key := by
      intro key isKey
      rcases second.kind.eq_or_string with equal | ⟨value, value', _, isString⟩
      · exact notName key (equal.trans isKey)
      · rw [isKey] at isString
        cases isString
    have unextended : members name (y' :: z' :: others') = (name, ⟨y' :: z' :: others', by simp⟩) := by
      rw [members]
      split
      · exact absurd ‹_› (notName' _)
      · rfl
    rw [unextended]
    exact ⟨rfl, x, x', isName, stands⟩

theorem members_word
    {name : String}
    {pos : SourcePos}
    (word : M.word name pos)
    (tokens : List Token) :
    M.word (members name tokens).1 pos := by
  fun_induction members name tokens with
  | case1 => exact word
  | case2 => exact word
  | case3 name _ _ _ key _ _ longer rest extended inductionHypothesis =>
    rw [extended] at inductionHypothesis
    exact inductionHypothesis (M.word_member name key pos)
  | case4 => exact word
  | case5 => exact word

/-- An ellipsis is dropped by both readings or by none. -/
theorem dropEllipsis_matches
    (steady : Steady frames)
    (glues : x.kind.glues (.op .ellipsis) = true)
    (ends : x.kind.endsOperand = true)
    (stands : M.At whole whole' frames x x' tokens tokens') :
    ∃ y y', M.Past whole whole' frames y y' (dropEllipsis tokens).val (dropEllipsis tokens').val := by
  rcases stands.cases with ⟨rfl, rfl⟩ | ⟨y, y', rest, rest', rfl, rfl, agrees, gap, next⟩
  · exact ⟨x, x', stands, .inl ends⟩
  · simp only [dropEllipsis]
    rw [← agrees.isOp_eq]
    cases isEllipsis : y.isOp .ellipsis with
    | false => exact ⟨x, x', stands, .inl ends⟩
    | true =>
      have isSign : y.kind = .op .ellipsis := beq_iff_eq.mp isEllipsis
      rw [steady.after (Token.isInner_of_isOp isEllipsis)] at next
      rw [gap.spaced (by rw [isSign]; exact glues)]
      cases y'.spaced with
      | false => exact ⟨y, y', next, .inl (by rw [isSign]; rfl)⟩
      | true => exact ⟨x, x', stands, .inl ends⟩

/-! ## Readers that need whole terms -/

/-- `term` keeps the matching on fewer than `bound` tokens. -/
def TermsMatch
    (M : Matching)
    (whole whole' : List Token)
    (last last' : SourcePos)
    (bound : Nat) : Prop :=
  ∀ {frames : List Frame} {x x' : Token} {tokens tokens' : List Token}, Steady frames →
    tokens.length < bound → M.At whole whole' frames x x' tokens tokens' →
    M.Reads whole whole' frames (Node.Matches M) (term last tokens) (term last' tokens')

theorem branchTerms_matches
    (terms : TermsMatch M whole whole' last last' bound)
    (untilColon : Bool)
    (steady : Steady frames)
    {x x' : Token}
    {tokens tokens' : List Token}
    (short : tokens.length < bound)
    (past : M.Past whole whole' frames x x' tokens tokens') :
    M.Reads whole whole' frames (Node.ListMatches M) (branchTerms last untilColon tokens)
      (branchTerms last' untilColon tokens') := by
  rw [branchTerms, branchTerms, past.branchEnds_eq]
  split
  · exact .ok _ _ .nil past
  · rcases (terms steady short past.toAt).cases with
      ⟨_, _, left, right, errors⟩ |
        ⟨_, rest, shorter, _, _, _, left, right, nodes, _, _, between⟩
      <;> simp only [left, right]
    · exact .error errors
    · rcases (branchTerms_matches terms untilColon steady (by omega) between).cases with
        ⟨_, _, left, right, errors⟩ | ⟨_, _, _, _, _, _, left, right, others, _, _, after⟩
        <;> simp only [left, right]
      · exact .error errors
      · exact .ok _ _ (.cons nodes others) after
termination_by tokens.length

theorem branch_matches
    (lasts : M.pos last last')
    (terms : TermsMatch M whole whole' last last' bound)
    (untilColon : Bool)
    (steady : Steady frames)
    (short : tokens.length < bound)
    (stands : M.At whole whole' frames x x' tokens tokens') :
    M.Reads whole whole' frames (Expression.Matches M) (branch last untilColon tokens)
      (branch last' untilColon tokens') := by
  rw [branch, branch, stands.branchEnds_eq]
  split
  · exact .error ⟨rfl, stands.placeOf_matches lasts⟩
  · rcases (terms steady short stands).cases with
      ⟨_, _, left, right, errors⟩ |
        ⟨_, rest, shorter, _, _, _, left, right, nodes, _, _, between⟩
      <;> simp only [left, right]
    · exact .error errors
    · rcases (branchTerms_matches terms untilColon steady (by omega) between).cases with
        ⟨_, _, left, right, errors⟩ | ⟨_, _, _, _, _, _, left, right, others, _, _, after⟩
        <;> simp only [left, right]
      · exact .error errors
      · exact .ok _ _ (.intro (.cons nodes others) (stands.placeOf_matches M.pos_unknown)) after

/-- A closing bracket leaves the brackets around it. -/
theorem past_closing
    {frame : Frame}
    {bracket : Bracket}
    (isClosing : (x.kind == .closing bracket) = true)
    (stands : M.At whole whole' (framesAfter (frame :: frames) x.kind) x x' tokens tokens') :
    M.Past whole whole' frames x x' tokens tokens' := by
  have isBracket := beq_iff_eq.mp isClosing
  rw [isBracket] at stands
  exact ⟨stands, .inl (by rw [isBracket]; rfl)⟩

/-- A comma between brackets leaves them as they are. -/
theorem at_comma
    (isComma : (x.kind == .comma) = true)
    (stands : M.At whole whole' (framesAfter (.plain :: frames) x.kind) x x' tokens tokens') :
    M.At whole whole' (.plain :: frames) x x' tokens tokens' := by
  rw [beq_iff_eq.mp isComma] at stands
  exact stands

theorem group_matches
    (terms : TermsMatch M whole whole' last last' bound)
    {opened opened' : SourcePos}
    (openings : M.pos opened opened')
    {x x' : Token}
    {tokens tokens' : List Token}
    (short : tokens.length < bound)
    (stands : M.At whole whole' (.plain :: frames) x x' tokens tokens') :
    M.Reads whole whole' frames (Node.ListMatches M) (group last opened tokens)
      (group last' opened' tokens') := by
  rcases stands.cases with ⟨rfl, rfl⟩ | ⟨y, y', rest, rest', rfl, rfl, agrees, _, next⟩
  · rw [group, group]
    exact .error ⟨rfl, openings⟩
  · rw [group, group, ← agrees.beq_kind (by simp), ← agrees.beq_kind (by simp)]
    simp only [List.length_cons] at short
    split
    · rename_i isClosing
      exact .ok _ _ .nil (past_closing isClosing next)
    · split
      · rename_i isComma
        rcases (group_matches terms openings (by omega) (at_comma isComma next)).cases with
          ⟨_, _, left, right, errors⟩ | ⟨_, _, _, _, _, _, left, right, nodes, _, _, after⟩
          <;> simp only [left, right]
        · exact .error errors
        · exact .ok _ _ nodes after
      · rcases (terms (steady_plain frames) (by simpa using short) stands).cases with
          ⟨_, _, left, right, errors⟩ |
            ⟨_, _, shorter, _, _, _, left, right, nodes, _, _, between⟩
          <;> simp only [left, right]
        · exact .error errors
        · simp only [List.length_cons] at shorter
          rcases (group_matches terms openings (by omega) between.toAt).cases with
            ⟨_, _, left, right, errors⟩ | ⟨_, _, _, _, _, _, left, right, more, _, _, after⟩
            <;> simp only [left, right]
          · exact .error errors
          · exact .ok _ _ (.cons nodes more) after
termination_by tokens.length

theorem subscript_matches
    (terms : TermsMatch M whole whole' last last' bound)
    {opened opened' : SourcePos}
    (openings : M.pos opened opened')
    {x x' : Token}
    {tokens tokens' : List Token}
    (short : tokens.length < bound)
    (stands : M.At whole whole' (.plain :: frames) x x' tokens tokens') :
    M.Outcome
      (fun first second => ∃ y y', y.kind = .closing .square ∧
        M.At whole whole' frames y y' first.rest second.rest)
      (subscript last opened tokens) (subscript last' opened' tokens') := by
  rcases stands.cases with ⟨rfl, rfl⟩ | ⟨y, y', rest, rest', rfl, rfl, agrees, _, next⟩
  · rw [subscript, subscript]
    exact .error ⟨rfl, openings⟩
  · rw [subscript, subscript, ← agrees.beq_kind (by simp)]
    simp only [List.length_cons] at short
    split
    · rename_i isClosing
      exact .ok ⟨y, y', beq_iff_eq.mp isClosing, (past_closing isClosing next).toAt⟩
    · rcases (terms (steady_plain frames) (by simpa using short) stands).cases with
        ⟨_, _, left, right, errors⟩ |
          ⟨_, following, shorter, _, following', _, left, right, _, _, _, between⟩
        <;> simp only [left, right]
      · exact .error errors
      · simp only [List.length_cons] at shorter
        have more := subscript_matches terms openings (by omega) between.toAt
        generalize subscript last opened following = left at more ⊢
        generalize subscript last' opened' following' = right at more ⊢
        cases more with
        | error errors => exact .error errors
        | ok after => exact .ok after
termination_by tokens.length

/-- Arguments that are being read correspond. -/
def CurrentMatches (M : Matching) : Option Expression → Option Expression → Prop
  | none, none => True
  | some current, some current' => Expression.Matches M current current'
  | _, _ => False

theorem extendArgument_matches
    {current current' : Option Expression}
    (currents : CurrentMatches M current current')
    {node node' : Node}
    (nodes : Node.Matches M node node')
    {pos pos' : SourcePos}
    (places : M.pos pos pos') :
    Expression.Matches M (extendArgument current node pos) (extendArgument current' node' pos') := by
  match current, current', currents with
  | none, none, _ => exact .intro (.cons nodes .nil) places
  | some _, some _, .intro before start => exact .intro (before.append (.cons nodes .nil)) start

theorem arguments_matches
    (terms : TermsMatch M whole whole' last last' bound)
    {opened opened' : SourcePos}
    (openings : M.pos opened opened')
    {current current' : Option Expression}
    (currents : CurrentMatches M current current')
    {x x' : Token}
    {tokens tokens' : List Token}
    (short : tokens.length < bound)
    (stands : M.At whole whole' (.plain :: frames) x x' tokens tokens') :
    M.Reads whole whole' frames (Node.ListMatches M) (arguments last opened current tokens)
      (arguments last' opened' current' tokens') := by
  rcases stands.cases with ⟨rfl, rfl⟩ | ⟨y, y', rest, rest', rfl, rfl, agrees, _, next⟩
  · rw [arguments, arguments]
    exact .error ⟨rfl, openings⟩
  · rw [arguments, arguments, ← agrees.beq_kind (by simp), ← agrees.beq_kind (by simp)]
    simp only [List.length_cons] at short
    split
    · rename_i isClosing
      refine .ok _ _ ?_ (past_closing isClosing next)
      cases current <;> cases current'
      · exact .nil
      · exact currents.elim
      · exact currents.elim
      · exact .cons (.expression currents) .nil
    · split
      · rename_i isComma
        have fresh : CurrentMatches M none none := trivial
        rcases (arguments_matches terms openings fresh (by omega) (at_comma isComma next)).cases with
          ⟨_, _, left, right, errors⟩ | ⟨_, _, _, _, _, _, left, right, more, _, _, after⟩
          <;> simp only [left, right]
        · exact .error errors
        · refine .ok _ _ (.cons (.expression ?_) more) after
          cases current <;> cases current'
          · exact .intro .nil M.pos_unknown
          · exact currents.elim
          · exact currents.elim
          · exact currents
      · rcases (terms (steady_plain frames) (by simpa using short) stands).cases with
          ⟨_, _, left, right, errors⟩ |
            ⟨_, _, shorter, _, _, _, left, right, nodes, _, _, between⟩
          <;> simp only [left, right]
        · exact .error errors
        · simp only [List.length_cons] at shorter
          have extended : CurrentMatches M (some (extendArgument current _ _))
              (some (extendArgument current' _ _)) :=
            extendArgument_matches currents nodes agrees.pos
          rcases (arguments_matches terms openings extended (by omega) between.toAt).cases with
            ⟨_, _, left, right, errors⟩ | ⟨_, _, _, _, _, _, left, right, args, _, _, after⟩
            <;> simp only [left, right]
          · exact .error errors
          · exact .ok _ _ args after
termination_by tokens.length

/-! ## Objects -/

/-- The lines on which the last term of an entry has ended, if there is one, are those of `x` and
`x'`. -/
def PreviousMatches (x x' : Token) (tokens : List Token) : Option Nat → Option Nat → Prop
  | none, none => True
  | some previous, some previous' =>
    previous = x.pos.line ∧ previous' = x'.pos.line ∧
      (x.kind.endsOperand = true ∨ atBoundary tokens = true)
  | _, _ => False

/-- The value of an entry ends in both readings or in none. -/
theorem entryEnds_eq
    {previous previous' : Option Nat}
    (ends : PreviousMatches x x' tokens previous previous')
    (stands : M.At whole whole' (.value :: frames) x x' tokens tokens') :
    (atBoundary tokens || previous.any (· != (placeOf .unknown tokens).line)) =
      (atBoundary tokens' || previous'.any (· != (placeOf .unknown tokens').line)) := by
  rw [← stands.atBoundary_eq]
  match previous, previous', ends with
  | none, none, _ => rfl
  | some _, some _, ⟨rfl, rfl, ended⟩ =>
    rcases stands.cases with ⟨rfl, rfl⟩ | ⟨y, y', rest, rest', rfl, rfl, agrees, gap, _⟩
    · rfl
    · cases isBoundary : atBoundary (y :: rest) with
      | true => rfl
      | false =>
        have notSeparated : y.kind.separates = false := by
          rw [← isBoundary, atBoundary]
          cases y.kind <;> rfl
        have lines := gap.line rfl (ended.resolve_right (by simp [isBoundary])) notSeparated
        simp only [Bool.false_or, Option.any_some, placeOf, bne]
        rw [Bool.eq_iff_iff]
        simp [lines]

theorem entryTerms_matches
    (terms : TermsMatch M whole whole' last last' bound)
    {previous previous' : Option Nat}
    {x x' : Token}
    {tokens tokens' : List Token}
    (ends : PreviousMatches x x' tokens previous previous')
    (short : tokens.length < bound)
    (stands : M.At whole whole' (.value :: frames) x x' tokens tokens') :
    M.Reads whole whole' (.value :: frames) (Node.ListMatches M) (entryTerms last previous tokens)
      (entryTerms last' previous' tokens') := by
  rw [entryTerms, entryTerms, ← entryEnds_eq ends stands]
  split
  · rename_i isEnd
    refine .ok _ _ .nil ⟨stands, ?_⟩
    match previous, previous', ends with
    | none, none, _ => exact .inr (by simpa using isEnd)
    | some _, some _, ⟨_, _, ended⟩ => exact ended
  · rcases (terms (steady_value frames) short stands).cases with
      ⟨_, _, left, right, errors⟩ |
        ⟨_, rest, shorter, _, rest', shorter', left, right, nodes, y, y', between⟩
      <;> simp only [left, right]
    · exact .error errors
    · have next : PreviousMatches y y' rest (some (lineBefore tokens rest))
          (some (lineBefore tokens' rest')) :=
        ⟨lineBefore_of_suffix stands.left between.left shorter,
          lineBefore_of_suffix stands.right between.right shorter', between.ended⟩
      rcases (entryTerms_matches terms next (by omega) between.toAt).cases with
        ⟨_, _, left, right, errors⟩ | ⟨_, _, _, _, _, _, left, right, others, _, _, after⟩
        <;> simp only [left, right]
      · exact .error errors
      · exact .ok _ _ (.cons nodes others) after
termination_by tokens.length

/-- The key that a token is. -/
def key? (token : Token) : Option String :=
  match token.kind with
  | .name key => some key
  | .string key => some key
  | _ => none

theorem key?_matches
    {token token' : Token}
    (tokens : Token.Agrees M token token') :
    match key? token with
    | none => key? token' = none
    | some key => ∃ key', key? token' = some key' ∧ M.string key key' := by
  have kinds := tokens.kind
  unfold Token.Kind.Matches at kinds
  unfold key?
  split at kinds
  · rename_i left right
    rw [left, right]
    exact ⟨_, rfl, kinds⟩
  · rename_i left right
    rw [left, right]
  · rw [← kinds.1]
    cases token.kind with
    | name key => exact ⟨key, rfl, M.string_refl key⟩
    | string key => exact ⟨key, rfl, M.string_refl key⟩
    | _ => rfl

/-- In an object, a key or a further entry comes next. -/
def IsEntryFrame (frame : Frame) : Prop :=
  frame = .key ∨ frame = .value

/-- After a key and its colon comes a value. -/
theorem framesAfter_entry
    {frame : Frame}
    (isEntry : IsEntryFrame frame)
    {token colon : Token}
    {key : String}
    (isKey : key? token = some key)
    (isColon : colon.isOp .colon = true) :
    framesAfter (framesAfter (frame :: frames) token.kind) colon.kind = .value :: frames := by
  have isSign : colon.kind = .op .colon := beq_iff_eq.mp isColon
  rw [isSign]
  unfold key? at isKey
  split at isKey
  · rename_i isName
    rw [isName]
    rcases isEntry with rfl | rfl <;> rfl
  · rename_i isString
    rw [isString]
    rcases isEntry with rfl | rfl <;> rfl
  · cases isKey

theorem object_matches
    (lasts : M.pos last last')
    (terms : TermsMatch M whole whole' last last' bound)
    {opened opened' : SourcePos}
    (openings : M.pos opened opened')
    {entries entries' : List (String × Node)}
    (before : Node.EntriesMatch M entries entries')
    {frame : Frame}
    (isEntry : IsEntryFrame frame)
    {x x' : Token}
    {tokens tokens' : List Token}
    (short : tokens.length < bound)
    (stands : M.At whole whole' (frame :: frames) x x' tokens tokens') :
    M.Reads whole whole' frames (Node.EntriesMatch M) (object last opened entries tokens)
      (object last' opened' entries' tokens') := by
  rcases stands.cases with ⟨rfl, rfl⟩ | ⟨y, y', rest, rest', rfl, rfl, agrees, _, next⟩
  · rw [object, object]
    exact .error ⟨rfl, openings⟩
  · rw [object, object, ← agrees.beq_kind (by simp), ← agrees.beq_kind (by simp)]
    simp only [List.length_cons] at short
    change M.Reads _ _ _ _
      (if _ then _ else if _ then _ else match key? y with | none => _ | some _ => _)
      (if _ then _ else if _ then _ else match key? y' with | none => _ | some _ => _)
    split
    · rename_i isClosing
      exact .ok _ _ before (past_closing isClosing next)
    · split
      · rename_i isComma
        have inObject : M.At whole whole' (.key :: frames) y y' rest rest' := by
          rw [beq_iff_eq.mp isComma] at next
          rcases isEntry with rfl | rfl <;> exact next
        rcases (object_matches lasts terms openings before (.inl rfl) (by omega) inObject).cases with
          ⟨_, _, left, right, errors⟩ | ⟨_, _, _, _, _, _, left, right, results, _, _, after⟩
          <;> simp only [left, right]
        · exact .error errors
        · exact .ok _ _ results after
      · have keyed := key?_matches agrees
        cases left : key? y with
        | none =>
          simp only [left] at keyed
          simp only [keyed]
          exact .error ⟨rfl, agrees.pos⟩
        | some key =>
          simp only [left] at keyed
          obtain ⟨key', right, keys⟩ := keyed
          simp only [right]
          rcases next.cases with
            ⟨rfl, rfl⟩ | ⟨z, z', following, following', rfl, rfl, colons, _, beyond⟩
          · exact .error ⟨rfl, lasts⟩
          · dsimp only
            rw [← colons.isOp_eq]
            simp only [List.length_cons] at short
            split
            · rename_i isColon
              rw [framesAfter_entry isEntry left isColon] at beyond
              have start : PreviousMatches z z' following none none := trivial
              rcases (entryTerms_matches terms start (by omega) beyond).cases with
                ⟨_, _, left, right, errors⟩ |
                  ⟨_, _, shorter, _, _, _, left, right, nodes, _, _, between⟩
                <;> simp only [left, right]
              · exact .error errors
              · have more := Node.EntriesMatch.set keys (.expression (.intro nodes agrees.pos)) before
                rcases (object_matches lasts terms openings more (.inr rfl) (by omega)
                    between.toAt).cases with
                  ⟨_, _, left, right, errors⟩ | ⟨_, _, _, _, _, _, left, right, results, _, _, after⟩
                  <;> simp only [left, right]
                · exact .error errors
                · exact .ok _ _ results after
            · exact .error ⟨rfl, colons.pos⟩
termination_by tokens.length
decreasing_by
  all_goals
    subst_vars
    simp only [List.length_cons] at *
    omega

/-! ## Operands -/

/-- A bracket after a name is glued to it in both readings or in none. -/
theorem isGlued_eq
    {name : String}
    (isName : x.kind = .name name)
    {bracket : Bracket}
    (notCurly : bracket ≠ .curly)
    {y y' : Token}
    (agrees : Token.Agrees M y y')
    (gap : SameGap frames x x' y y') :
    (y.kind == .opening bracket && !y.spaced) = (y'.kind == .opening bracket && !y'.spaced) := by
  rw [← agrees.beq_kind (by simp)]
  cases isOpening : y.kind == .opening bracket with
  | false => rfl
  | true =>
    have isBracket : y.kind = .opening bracket := beq_iff_eq.mp isOpening
    have glued : x.kind.glues y.kind = true := by
      rw [isName, isBracket]
      cases bracket with
      | curly => exact absurd rfl notCurly
      | _ => rfl
    rw [gap.spaced glued]

/-- After an opening bracket that is glued to a name. -/
theorem at_opening
    {bracket : Bracket}
    (notCurly : bracket ≠ .curly)
    (isGlued : (x.kind == .opening bracket && !x.spaced) = true)
    (stands : M.At whole whole' (framesAfter frames x.kind) x x' tokens tokens') :
    M.At whole whole' (.plain :: frames) x x' tokens tokens' := by
  rw [Bool.and_eq_true] at isGlued
  rw [beq_iff_eq.mp isGlued.1] at stands
  cases bracket with
  | curly => exact absurd rfl notCurly
  | round => exact stands
  | square => exact stands

theorem named_matches
    (terms : TermsMatch M whole whole' last last' bound)
    (steady : Steady frames)
    {name : String}
    (isName : x.kind = .name name)
    {pos pos' : SourcePos}
    (word : M.word name pos)
    (places : M.pos pos pos')
    (short : tokens.length ≤ bound)
    (stands : M.At whole whole' frames x x' tokens tokens') :
    M.Reads whole whole' frames (Node.Matches M) (named last name pos tokens)
      (named last' name pos' tokens') := by
  have nameEnds {token : Token} (isText : ∃ text, token.kind = .name text) :
      token.kind.glues (.op .ellipsis) = true ∧ token.kind.endsOperand = true := by
    obtain ⟨text, isText⟩ := isText
    rw [isText]
    exact ⟨rfl, rfl⟩
  rcases stands.cases with ⟨rfl, rfl⟩ | ⟨y, y', rest, rest', rfl, rfl, agrees, gap, next⟩
  · rw [named, named]
    exact .ok _ _ (.ident word places) ⟨stands, .inl (nameEnds ⟨name, isName⟩).2⟩
  · rw [named, named, ← isGlued_eq isName (by decide) agrees gap]
    simp only [List.length_cons] at short
    split
    · rename_i isCall
      have fresh : CurrentMatches M none none := trivial
      have inCall := at_opening (by decide) isCall next
      rcases (arguments_matches terms places fresh (by omega) inCall).cases with
        ⟨_, _, left, right, errors⟩ | ⟨_, _, _, _, _, _, left, right, args, _, _, after⟩
        <;> simp only [left, right]
      · exact .error errors
      · exact .ok _ _ (.call word args places) after
    · obtain ⟨sameName, z, z', isText, beyond⟩ := members_matches steady name ⟨name, isName⟩ stands
      have longerWord := members_word word (y :: rest)
      have ends := nameEnds isText
      generalize members name (y :: rest) = extended at sameName beyond longerWord
      generalize members name (y' :: rest') = extended' at sameName beyond
      obtain ⟨longer, remaining, shorter⟩ := extended
      obtain ⟨longer', remaining', shorter'⟩ := extended'
      dsimp only at sameName beyond longerWord
      subst sameName
      rcases beyond.cases with
        ⟨rfl, rfl⟩ | ⟨bracket, bracket', following, following', rfl, rfl, brackets, gap', inside⟩
      · exact .ok _ _ (.ident longerWord places) ⟨beyond, .inl ends.2⟩
      · obtain ⟨text, isText⟩ := isText
        dsimp only
        rw [← isGlued_eq isText (by decide) brackets gap']
        simp only [List.length_cons] at shorter
        split
        · rename_i isSubscript
          have inSubscript := at_opening (by decide) isSubscript inside
          have terms := subscript_matches terms brackets.pos (by omega) inSubscript
          generalize subscript last bracket.pos following = left at terms ⊢
          generalize subscript last' bracket'.pos following' = right at terms ⊢
          cases terms with
          | error errors => exact .error errors
          | ok results =>
            obtain ⟨closing, closing', isClosing, after⟩ := results
            obtain ⟨_, _, past⟩ := dropEllipsis_matches steady (by rw [isClosing]; rfl)
              (by rw [isClosing]; rfl) after
            exact .ok _ _ (.ident longerWord places) past
        · obtain ⟨_, _, past⟩ := dropEllipsis_matches steady ends.1 ends.2 beyond
          exact .ok _ _ (.ident longerWord places) past

theorem primary_matches
    (lasts : M.pos last last')
    (terms : TermsMatch M whole whole' last last' bound)
    (steady : Steady frames)
    (short : tokens.length ≤ bound)
    (stands : M.At whole whole' frames x x' tokens tokens') :
    M.Reads whole whole' frames (Node.Matches M) (primary last tokens) (primary last' tokens') := by
  rcases stands.cases with ⟨rfl, rfl⟩ | ⟨y, y', rest, rest', rfl, rfl, agrees, _, next⟩
  · rw [primary, primary]
    exact .error ⟨rfl, lasts⟩
  · have single (inner : y.kind.isInner = true) (ends : y.kind.endsOperand = true) :
        M.Past whole whole' frames y y' rest rest' := by
      rw [steady.after inner] at next
      exact ⟨next, .inl ends⟩
    obtain ⟨kind, pos, spaced⟩ := y
    obtain ⟨kind', pos', spaced'⟩ := y'
    obtain ⟨kinds, places⟩ := agrees
    simp only [List.length_cons] at short
    rw [primary, primary]
    cases kind with
    | number value suffix =>
      obtain ⟨rfl, _⟩ := kinds
      exact .ok _ _ (.unit places) (single rfl rfl)
    | hash text =>
      obtain ⟨rfl, literal⟩ := kinds.hash_left
      exact .ok _ _ (hashTerm_matches literal places) (single rfl rfl)
    | string value =>
      obtain ⟨value', rfl, values⟩ := kinds.string_left
      exact .ok _ _ (.string values places) (single rfl rfl)
    | url body =>
      obtain ⟨rfl, words⟩ := kinds
      exact .ok _ _ (urlTerm_matches body (words "url" rfl) places) (single rfl rfl)
    | name text =>
      obtain ⟨rfl, words⟩ := kinds
      have afterName := (single rfl rfl).toAt
      rcases (named_matches terms steady rfl (words text rfl) places (by omega) afterName).cases with
        ⟨_, _, left, right, errors⟩ | ⟨_, _, _, _, _, _, left, right, nodes, _, _, after⟩
        <;> simp only [left, right]
      · exact .error errors
      · exact .ok _ _ nodes after
    | opening bracket =>
      obtain ⟨rfl, _⟩ := kinds
      cases bracket with
      | round =>
        rcases (group_matches terms places (by omega) next).cases with
          ⟨_, _, left, right, errors⟩ | ⟨_, _, _, _, _, _, left, right, nodes, _, _, after⟩
          <;> simp only [left, right]
        · exact .error errors
        · exact .ok _ _ (.expression (.intro nodes places)) after
      | curly =>
        rcases (object_matches lasts terms places .nil (.inl rfl) (by omega) next).cases with
          ⟨_, _, left, right, errors⟩ | ⟨_, _, _, _, _, _, left, right, entries, _, _, after⟩
          <;> simp only [left, right]
        · exact .error errors
        · exact .ok _ _ (.object entries places) after
      | square => exact .error ⟨rfl, places⟩
    | op sign =>
      obtain ⟨rfl, _⟩ := kinds
      exact .error ⟨rfl, places⟩
    | closing bracket =>
      obtain ⟨rfl, _⟩ := kinds
      exact .error ⟨rfl, places⟩
    | comma =>
      obtain ⟨rfl, _⟩ := kinds
      exact .error ⟨rfl, places⟩

theorem unary_matches
    (lasts : M.pos last last')
    (terms : TermsMatch M whole whole' last last' bound)
    (steady : Steady frames)
    {x x' : Token}
    {tokens tokens' : List Token}
    (short : tokens.length ≤ bound)
    (stands : M.At whole whole' frames x x' tokens tokens') :
    M.Reads whole whole' frames (Node.Matches M) (unary last tokens) (unary last' tokens') := by
  rcases stands.cases with ⟨rfl, rfl⟩ | ⟨y, y', rest, rest', rfl, rfl, agrees, _, next⟩
  · rw [unary, unary]
    exact primary_matches lasts terms steady short stands
  · have signed (inner : y.kind.isInner = true) : M.At whole whole' frames y y' rest rest' := by
      rw [← steady.after inner]
      exact next
    rw [unary, unary, ← agrees.isOp_eq, ← agrees.isOp_eq, ← agrees.isOp_eq, ← agrees.isName_eq]
    have fewer := short
    simp only [List.length_cons] at fewer
    split
    · rename_i isMinus
      have afterSign := signed (Token.isInner_of_isOp isMinus)
      rcases (unary_matches lasts terms steady (by omega) afterSign).cases with
        ⟨_, _, left, right, errors⟩ | ⟨_, _, _, _, _, _, left, right, nodes, _, _, after⟩
        <;> simp only [left, right]
      · exact .error errors
      · exact .ok _ _ (negated_matches agrees.pos nodes) after
    · split
      · rename_i isPlus
        have afterSign := signed (Token.isInner_of_isOp isPlus)
        rcases (unary_matches lasts terms steady (by omega) afterSign).cases with
          ⟨_, _, left, right, errors⟩ | ⟨_, _, _, _, _, _, left, right, nodes, _, _, after⟩
          <;> simp only [left, right]
        · exact .error errors
        · exact .ok _ _ nodes after
      · split
        · rename_i isNot
          have afterSign := signed ((Bool.or_eq_true _ _ ▸ isNot).elim Token.isInner_of_isOp
            Token.isInner_of_isName)
          rcases (unary_matches lasts terms steady (by omega) afterSign).cases with
            ⟨_, _, left, right, errors⟩ | ⟨_, _, _, _, _, _, left, right, _, _, _, after⟩
            <;> simp only [left, right]
          · exact .error errors
          · exact .ok _ _ .other after
        · exact primary_matches lasts terms steady short stands
termination_by tokens.length

mutual

theorem operand_matches
    (lasts : M.pos last last')
    (terms : TermsMatch M whole whole' last last' bound)
    (least : Nat)
    (steady : Steady frames)
    {x x' : Token}
    {tokens tokens' : List Token}
    (short : tokens.length ≤ bound)
    (stands : M.At whole whole' frames x x' tokens tokens') :
    M.Reads whole whole' frames (Node.Matches M) (operand last least tokens)
      (operand last' least tokens') := by
  rw [operand, operand]
  rcases (unary_matches lasts terms steady short stands).cases with
    ⟨_, _, left, right, errors⟩ | ⟨_, _, _, _, _, _, left, right, nodes, _, _, between⟩
    <;> simp only [left, right]
  · exact .error errors
  · rcases (chain_matches lasts terms least steady nodes (by omega) between).cases with
      ⟨_, _, left, right, errors⟩ | ⟨_, _, _, _, _, _, left, right, results, _, _, after⟩
      <;> simp only [left, right]
    · exact .error errors
    · exact .ok _ _ results after
termination_by (tokens.length, 1)

theorem chain_matches
    (lasts : M.pos last last')
    (terms : TermsMatch M whole whole' last last' bound)
    (least : Nat)
    (steady : Steady frames)
    {node node' : Node}
    (nodes : Node.Matches M node node')
    {x x' : Token}
    {tokens tokens' : List Token}
    (short : tokens.length ≤ bound)
    (past : M.Past whole whole' frames x x' tokens tokens') :
    M.Reads whole whole' frames (Node.Matches M) (chain last least node tokens)
      (chain last' least node' tokens') := by
  rw [chain, chain]
  rcases infixOp?_matches steady past with
    ⟨left, right⟩ |
      ⟨sign, level, ⟨rest, shorter⟩, ⟨rest', shorter'⟩, _, _, left, right, afterSign⟩
    <;> simp only [left, right]
  · exact .ok _ _ nodes past
  · dsimp only at afterSign
    split
    · exact .ok _ _ nodes past
    · rcases (operand_matches lasts terms (level.rank + 1) steady (by omega) afterSign).cases with
        ⟨_, _, left, right, errors⟩ | ⟨_, _, _, _, _, _, left, right, others, _, _, between⟩
        <;> simp only [left, right]
      · exact .error errors
      · rcases (chain_matches lasts terms least steady (joined_matches nodes sign others) (by omega)
            between).cases with
          ⟨_, _, left, right, errors⟩ | ⟨_, _, _, _, _, _, left, right, results, _, _, after⟩
          <;> simp only [left, right]
        · exact .error errors
        · exact .ok _ _ results after
termination_by (tokens.length, 0)

end

/-! ## Terms and values -/

/-- If `term` keeps the matching on fewer tokens than these, it keeps it on these. -/
theorem term_matches_of_fewer
    (lasts : M.pos last last')
    (terms : TermsMatch M whole whole' last last' tokens.length)
    (steady : Steady frames)
    (stands : M.At whole whole' frames x x' tokens tokens') :
    M.Reads whole whole' frames (Node.Matches M) (term last tokens) (term last' tokens') := by
  rw [term, term]
  rcases (operand_matches lasts terms 0 steady (Nat.le_refl _) stands).cases with
    ⟨_, _, left, right, errors⟩ |
      ⟨_, _, shorter, _, _, _, left, right, conditions, _, _, past⟩
    <;> simp only [left, right]
  · exact .error errors
  · rcases past.toAt.cases with
      ⟨rfl, rfl⟩ | ⟨mark, mark', following, following', rfl, rfl, marks, _, next⟩
    · exact .ok _ _ conditions past
    · dsimp only
      rw [← marks.isOp_eq]
      simp only [List.length_cons] at shorter
      split
      · rename_i isQuestion
        rw [steady.after (Token.isInner_of_isOp isQuestion)] at next
        rcases (branch_matches lasts terms true steady (by omega) next).cases with
          ⟨_, _, left, right, errors⟩ |
            ⟨_, _, shorterTrue, _, _, _, left, right, firsts, _, _, between⟩
          <;> simp only [left, right]
        · exact .error errors
        · rcases between.toAt.cases with
            ⟨rfl, rfl⟩ | ⟨colon, colon', after, after', rfl, rfl, colons, _, beyond⟩
          · exact .error ⟨rfl, lasts⟩
          · dsimp only
            rw [← colons.isOp_eq]
            simp only [List.length_cons] at shorterTrue
            split
            · rename_i isColon
              rw [steady.after (Token.isInner_of_isOp isColon)] at beyond
              rcases (branch_matches lasts terms false steady (by omega) beyond).cases with
                ⟨_, _, left, right, errors⟩ |
                  ⟨_, _, _, _, _, _, left, right, seconds, _, _, after⟩
                <;> simp only [left, right]
              · exact .error errors
              · exact .ok _ _
                  (.ternary conditions (.expression firsts) (.expression seconds) conditions.pos)
                  after
            · exact .error ⟨rfl, colons.pos⟩
      · exact .ok _ _ conditions past

theorem termsMatch
    (lasts : M.pos last last')
    (bound : Nat) :
    TermsMatch M whole whole' last last' bound := by
  induction bound with
  | zero =>
    intro frames x x' tokens tokens' _ short _
    exact absurd short (Nat.not_lt_zero _)
  | succ bound inductionHypothesis =>
    intro frames x x' tokens tokens' steady short stands
    refine term_matches_of_fewer lasts ?_ steady stands
    intro inner y y' fewer fewer' steadyInner shorter standsInner
    exact inductionHypothesis steadyInner (by omega) standsInner

theorem readTermsFrom_matches
    (lasts : M.pos last last')
    {x x' : Token}
    {tokens tokens' : List Token}
    (stands : M.At whole whole' [] x x' tokens tokens') :
    M.Outcome (Node.ListMatches M) (readTermsFrom last tokens) (readTermsFrom last' tokens') := by
  rcases stands.cases with ⟨rfl, rfl⟩ | ⟨y, y', rest, rest', rfl, rfl, agrees, _, next⟩
  · rw [readTermsFrom, readTermsFrom]
    exact .ok .nil
  · rw [readTermsFrom, readTermsFrom, ← agrees.beq_kind (by simp)]
    split
    · rename_i isComma
      rw [beq_iff_eq.mp isComma] at next
      exact readTermsFrom_matches lasts next
    · rcases (termsMatch lasts _ steady_nil (Nat.lt_succ_self _) stands).cases with
        ⟨_, _, left, right, errors⟩ |
          ⟨_, following, shorter, _, following', _, left, right, nodes, _, _, between⟩
        <;> simp only [left, right]
      · exact .error errors
      · have more := readTermsFrom_matches lasts between.toAt
        generalize readTermsFrom last following = left at more ⊢
        generalize readTermsFrom last' following' = right at more ⊢
        cases more with
        | error errors => exact .error errors
        | ok results => exact .ok (.cons nodes results)
termination_by tokens.length

end Readers

section Values

variable {x x' : Token} {tokens tokens' : List Token}

theorem lastPos_matches
    {frames : List Frame}
    (same : M.Follow frames x x' tokens tokens') :
    M.pos ((tokens.getLast?.map Token.pos).getD .unknown)
      ((tokens'.getLast?.map Token.pos).getD .unknown) := by
  induction same with
  | nil => exact M.pos_unknown
  | cons agrees gap others inductionHypothesis =>
    cases others with
    | nil => exact agrees.pos
    | cons _ _ _ =>
      rw [List.getLast?_cons_cons, List.getLast?_cons_cons]
      exact inductionHypothesis

/-- Complete values keep the matching: their terms correspond, or the errors in them do. -/
theorem readTerms_follow
    (same : M.Follow [] x x' tokens tokens') :
    M.Outcome (Node.ListMatches M) (readTerms tokens) (readTerms tokens') :=
  readTermsFrom_matches (lastPos_matches same)
    ⟨List.suffix_refl (x :: tokens), List.suffix_refl (x' :: tokens'), same⟩

theorem read_follow
    (same : M.Follow [] x x' tokens tokens')
    {pos pos' : SourcePos}
    (places : M.pos pos pos') :
    M.Outcome (Expression.Matches M) (Expression.read tokens pos) (Expression.read tokens' pos') := by
  have stands : M.At (x :: tokens) (x' :: tokens') [] x x' tokens tokens' :=
    ⟨List.suffix_refl _, List.suffix_refl _, same⟩
  have terms := readTerms_follow same
  unfold Expression.read
  generalize readTerms tokens = left at terms ⊢
  generalize readTerms tokens' = right at terms ⊢
  cases terms with
  | error errors => exact .error errors
  | ok nodes => exact .ok (.intro nodes (stands.placeOf_matches places))

/-- Tokens that correspond have the same gaps. -/
theorem follow_of_tokens
    [M.KeepsLines]
    (frames : List Frame)
    (before : M.pos x.pos x'.pos)
    (same : M.Tokens tokens tokens') :
    M.Follow frames x x' tokens tokens' := by
  induction same generalizing frames x x' with
  | nil => exact .nil
  | cons first others inductionHypothesis =>
    have gap : SameGap frames x x' _ _ :=
      ⟨fun _ => first.spaced, fun _ _ _ => Matching.KeepsLines.line_eq_iff before first.pos⟩
    exact .cons first.agrees gap (inductionHypothesis _ first.pos)

/-- What stands before a complete value: nothing that it could be glued to. -/
def noToken : Token :=
  ⟨.comma, .unknown, false⟩

theorem readTerms_matches
    [M.KeepsLines]
    (same : M.Tokens tokens tokens') :
    M.Outcome (Node.ListMatches M) (readTerms tokens) (readTerms tokens') := by
  have follow : M.Follow [] noToken noToken tokens tokens' := follow_of_tokens [] M.pos_unknown same
  exact readTerms_follow follow

theorem read_matches
    [M.KeepsLines]
    (same : M.Tokens tokens tokens')
    {pos pos' : SourcePos}
    (places : M.pos pos pos') :
    M.Outcome (Expression.Matches M) (Expression.read tokens pos) (Expression.read tokens' pos') := by
  have follow : M.Follow [] noToken noToken tokens tokens' := follow_of_tokens [] M.pos_unknown same
  exact read_follow follow places

end Values

end Expression

end StyleSense
