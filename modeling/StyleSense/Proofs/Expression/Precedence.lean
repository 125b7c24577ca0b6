import StyleSense.Proofs.Expression.Numeric
import StyleSense.Proofs.Expression.Rereading

/-!
Contract: binary operators bind by precedence and associate to the left.

Owns:
- `Numeral` and `Joint`, from which sequences of numbers with operators between them are made, and
  their tokens;
- `Node.inOrder`, the operands and the signs of a tree from left to right, and
  `Node.BindsByPrecedence`, how the operators of a tree bind;
- `Expression.operand_joins` and `Expression.chain_joins`: what the readers of operands make of such a
  sequence, by induction on its length;
- `Expression.readTerms_precedence`, the result for every sequence.

Does not own: operands other than numbers, and operators that are spelled as words.
-/

namespace StyleSense

/-! ## Trees of operators -/

/-- The level of the operator that is spelled so. -/
def spelledLevel? (spelling : String) : Option Operator.Level :=
  (Operator.all.find? fun sign => sign.spelling = spelling).bind Operator.level?

theorem spelledLevel?_spelling (sign : Operator) : spelledLevel? sign.spelling = sign.level? := by
  cases sign <;> decide

/-- A part of a tree of operators: an operand or a sign between two of them. -/
inductive OperatorWord where
  | operand (node : Node)
  | sign (spelling : String)

namespace Node

/-- The operands and the signs of a tree from left to right. -/
def inOrder : Node → List OperatorWord
  | .binary spelling left right _ => left.inOrder ++ .sign spelling :: right.inOrder
  | node => [.operand node]

/-- The level of the operator at the top of a tree. -/
def topLevel? : Node → Option Operator.Level
  | .binary spelling _ _ _ => spelledLevel? spelling
  | _ => none

/-- Every operator of a tree has a level; the one at the top of its left operand binds at least as
tightly as it does, and the one at the top of its right operand binds more tightly. -/
def BindsByPrecedence : Node → Prop
  | .binary spelling left right _ =>
    (∃ level, spelledLevel? spelling = some level ∧
      (∀ other ∈ left.topLevel?, level.rank ≤ other.rank) ∧
      ∀ other ∈ right.topLevel?, level.rank < other.rank) ∧
    left.BindsByPrecedence ∧ right.BindsByPrecedence
  | _ => True

theorem topLevel?_joined
    (left right : Node)
    (sign : Operator) :
    (Expression.joined left sign right).topLevel? = sign.level? :=
  spelledLevel?_spelling sign

theorem inOrder_joined
    (left right : Node)
    (sign : Operator) :
    (Expression.joined left sign right).inOrder =
      left.inOrder ++ .sign sign.spelling :: right.inOrder := by
  rw [Expression.joined, inOrder]

/-- Two trees joined by an operator that binds less tightly than the one at the top of the right tree,
and no more tightly than the one at the top of the left tree. -/
theorem BindsByPrecedence.joined
    {left right : Node}
    {sign : Operator}
    {level : Operator.Level}
    (isLevel : sign.level? = some level)
    (lefts : left.BindsByPrecedence)
    (tightLeft : ∀ other ∈ left.topLevel?, level.rank ≤ other.rank)
    (rights : right.BindsByPrecedence)
    (tightRight : ∀ other ∈ right.topLevel?, level.rank < other.rank) :
    (Expression.joined left sign right).BindsByPrecedence := by
  rw [Expression.joined, BindsByPrecedence]
  have spelled := (spelledLevel?_spelling sign).trans isLevel
  exact ⟨⟨level, spelled, tightLeft, tightRight⟩, lefts, rights⟩

end Node

/-! ## Numbers with operators between them -/

/-- A number in a value. -/
structure Numeral where
  value : Float
  suffix : Option String
  pos : SourcePos

namespace Numeral

/-- The token of a number, with a blank before it or not. -/
def token (number : Numeral) (spaced : Bool) : Token :=
  ⟨.number number.value number.suffix, number.pos, spaced⟩

/-- What a number is read as. -/
def node (number : Numeral) : Node :=
  .unit number.value number.suffix number.pos

end Numeral

/-- A binary operator and the number after it. -/
structure Joint where
  sign : Operator
  isBinary : sign.level?.isSome
  pos : SourcePos
  right : Numeral

namespace Joint

/-- How tightly the operator binds. -/
def level (joint : Joint) : Operator.Level :=
  joint.sign.level?.get joint.isBinary

theorem sign_level (joint : Joint) : joint.sign.level? = some joint.level :=
  (Option.some_get joint.isBinary).symm

/-- The tokens of a joint, with blanks around its operator. -/
def tokens (joint : Joint) : List Token :=
  [⟨.op joint.sign, joint.pos, true⟩, joint.right.token true]

/-- What a joint adds to the reading of a tree. -/
def words (joint : Joint) : List OperatorWord :=
  [.sign joint.sign.spelling, .operand joint.right.node]

end Joint

namespace Expression

variable {last : SourcePos}

/-- The tree that is made of the words of an operand and of the joints after it, up to the first whose
operator does not bind tightly enough. -/
structure JoinsUpTo
    (least : Nat)
    (before : List OperatorWord)
    (joints rest : List Joint)
    (node : Node) : Prop where
  shorter : rest.length ≤ joints.length
  words : node.inOrder ++ rest.flatMap Joint.words = before ++ joints.flatMap Joint.words
  binds : node.BindsByPrecedence
  tight : ∀ level ∈ node.topLevel?, least ≤ level.rank
  looser : ∀ joint ∈ rest.head?, joint.level.rank < least

/-- The operator of a joint is found at its tokens. -/
theorem infixOp?_joint
    (joint : Joint)
    (others : List Joint) :
    infixOp? ((joint :: others).flatMap Joint.tokens) =
      some (joint.sign, joint.level,
        ⟨joint.right.token true :: others.flatMap Joint.tokens, Nat.lt_succ_self _⟩) :=
  infixOp?_of_level joint.sign_level rfl rfl rfl _

theorem unary_numeral
    (number : Numeral)
    (spaced : Bool)
    (rest : List Token) :
    Gives (unary last (number.token spaced :: rest)) number.node rest := by
  apply unary_of_primary
  · intro sign
    simp [Numeral.token]
  · simp [Numeral.token]
  · exact primary_number rfl rest

mutual

/-- An operand takes the joints that bind at least as tightly as it asks for. -/
theorem operand_joins
    (least : Nat)
    (number : Numeral)
    (spaced : Bool)
    (joints : List Joint) :
    ∃ rest node, JoinsUpTo least [.operand number.node] joints rest node ∧
      Gives (operand last least (number.token spaced :: joints.flatMap Joint.tokens)) node
        (rest.flatMap Joint.tokens) := by
  have alone : number.node.inOrder = [.operand number.node] := by
    rw [Numeral.node, Node.inOrder]
    simp
  have binds : number.node.BindsByPrecedence := by
    rw [Numeral.node, Node.BindsByPrecedence]
    · trivial
    · simp
  have noLevel : number.node.topLevel? = none := rfl
  obtain ⟨rest, node, joins, read⟩ := chain_joins least number.node joints binds
    (by simp [noLevel]) (by simp [noLevel])
  rw [alone] at joins
  exact ⟨rest, node, joins, operand_of_chain (unary_numeral number spaced _) read⟩
termination_by (joints.length, 1)

/-- A chain joins the joints that bind tightly enough to what stands before them. -/
theorem chain_joins
    (least : Nat)
    (left : Node)
    (joints : List Joint)
    (lefts : left.BindsByPrecedence)
    (tight : ∀ level ∈ left.topLevel?, least ≤ level.rank)
    (tightEnough : ∀ joint ∈ joints.head?, ∀ level ∈ left.topLevel?,
      joint.level.rank ≤ level.rank) :
    ∃ rest node, JoinsUpTo least left.inOrder joints rest node ∧
      Gives (chain last least left (joints.flatMap Joint.tokens)) node
        (rest.flatMap Joint.tokens) := by
  cases joints with
  | nil =>
    refine ⟨[], left, ⟨Nat.le_refl _, rfl, lefts, tight, by simp⟩, ?_⟩
    exact chain_done (by simp [infixOp?]) left
  | cons joint others =>
    have found := infixOp?_joint joint others
    by_cases stops : joint.level.rank < least
    · refine ⟨joint :: others, left, ⟨Nat.le_refl _, rfl, lefts, tight, ?_⟩, ?_⟩
      · rintro _ ⟨⟩
        exact stops
      · apply chain_done
        rintro _ isFound
        obtain rfl := Option.mem_unique isFound found
        exact stops
    · -- The right operand takes what binds more tightly, so what is left joins to the whole.
      obtain ⟨unread, right, rights, readRight⟩ :=
        operand_joins (joint.level.rank + 1) joint.right true others
      have tightRight : ∀ level ∈ right.topLevel?, joint.level.rank < level.rank := rights.tight
      have isTop : (joined left joint.sign right).topLevel? = some joint.level :=
        (Node.topLevel?_joined left right joint.sign).trans joint.sign_level
      have whole : (joined left joint.sign right).BindsByPrecedence :=
        .joined joint.sign_level lefts (tightEnough joint rfl) rights.binds tightRight
      have shorter : unread.length < (joint :: others).length := Nat.lt_succ_of_le rights.shorter
      obtain ⟨rest, node, joins, read⟩ := chain_joins least (joined left joint.sign right) unread whole
        (by simpa [isTop] using stops)
        (by
          intro next isNext level isLevel
          rw [isTop] at isLevel
          obtain rfl := Option.some.inj isLevel
          exact Nat.le_of_lt_succ (rights.looser next isNext))
      refine ⟨rest, node, ⟨?_, ?_, joins.binds, joins.tight, joins.looser⟩, ?_⟩
      · exact Nat.le_trans joins.shorter (Nat.le_of_lt shorter)
      · rw [joins.words, Node.inOrder_joined, List.append_assoc, List.cons_append, rights.words]
        rfl
      · exact chain_join found (Nat.le_of_not_lt stops) readRight read
termination_by (joints.length, 0)

end

end Expression

end StyleSense
