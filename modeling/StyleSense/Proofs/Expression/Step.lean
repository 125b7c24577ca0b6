import StyleSense.Proofs.Expression.Derivation

/-!
Contract: what each reader of values gives, from what the readers that it calls give.

Owns:
- `Gives`, what a reader gives and which tokens it leaves;
- one lemma for each way in which a reader goes on: a chain of operands, a name, a term with a `? :` or
  without, the arguments of a call, and the entries of an object.

Does not own: which tokens are read in these ways (`StyleSense.Proofs.Expression.Numeric`,
`StyleSense.Proofs.Expression.Rereading`).
-/

namespace StyleSense.Expression

/-- The reader gives the value and leaves the tokens. -/
def Gives
    {α : Type}
    {bound : Nat}
    (result : Except ParseError (Read α bound))
    (value : α)
    (rest : List Token) : Prop :=
  ∃ shorter, result = .ok ⟨value, rest, shorter⟩

variable {last : SourcePos} {tokens mid rest : List Token} {node result : Node} {least : Nat}

/-! ## Operands -/

/-- A chain ends in front of tokens that do not join anything as tightly. -/
theorem chain_done
    (looser : ∀ found ∈ infixOp? rest, found.2.1.rank < least)
    (left : Node) :
    Gives (chain last least left rest) left rest := by
  rw [chain]
  split
  · exact ⟨_, rfl⟩
  · rename_i sign level after shorter found
    rw [if_pos (looser _ found)]
    exact ⟨_, rfl⟩

theorem chain_join
    {sign : Operator}
    {level : Operator.Level}
    {following : { following : List Token // following.length < tokens.length }}
    (found : infixOp? tokens = some (sign, level, following))
    (binds : least ≤ level.rank)
    {left right : Node}
    (rights : Gives (operand last (level.rank + 1) following.val) right mid)
    (later : Gives (chain last least (joined left sign right) mid) result rest) :
    Gives (chain last least left tokens) result rest := by
  obtain ⟨following, shorter⟩ := following
  obtain ⟨shorterRight, rights⟩ := rights
  obtain ⟨shorterAfter, later⟩ := later
  rw [chain, found]
  simp only [Nat.not_lt.mpr binds, if_false, rights, later]
  exact ⟨_, rfl⟩

theorem operand_of_chain
    {left : Node}
    (read : Gives (unary last tokens) left mid)
    (later : Gives (chain last least left mid) result rest) :
    Gives (operand last least tokens) result rest := by
  obtain ⟨shorter, read⟩ := read
  obtain ⟨shorterAfter, later⟩ := later
  rw [operand, read]
  simp only [later]
  exact ⟨_, rfl⟩

theorem unary_of_primary
    {token : Token}
    (notSign : ∀ sign, token.kind ≠ .op sign)
    (notDenial : token.kind ≠ .name "not")
    (read : Gives (primary last (token :: tokens)) node rest) :
    Gives (unary last (token :: tokens)) node rest := by
  rw [unary, if_neg (by simp [Token.isOp, notSign]), if_neg (by simp [Token.isOp, notSign]),
    if_neg (by simp [Token.isOp, Token.isName, notSign, notDenial])]
  exact read

/-! ## Names and objects -/

section Names

variable {name : String} {pos : SourcePos} {spaced : Bool}

theorem primary_name (read : Gives (named last name pos tokens) node rest) :
    Gives (primary last (⟨.name name, pos, spaced⟩ :: tokens)) node rest := by
  obtain ⟨shorter, read⟩ := read
  rw [primary]
  simp only [read]
  exact ⟨_, rfl⟩

theorem named_call
    {args : List Node}
    {token : Token}
    (isOpening : token.kind = .opening .round)
    (unspaced : token.spaced = false)
    (read : Gives (arguments last pos none tokens) args rest) :
    Gives (named last name pos (token :: tokens)) (.call name args pos) rest := by
  obtain ⟨shorter, read⟩ := read
  rw [named, if_pos (by simp [isOpening, unspaced]), read]
  exact ⟨_, rfl⟩

theorem primary_object
    {entries : List (String × Node)}
    (read : Gives (object last pos [] tokens) entries rest) :
    Gives (primary last (⟨.opening .curly, pos, spaced⟩ :: tokens)) (.object entries pos) rest := by
  obtain ⟨shorter, read⟩ := read
  rw [primary]
  simp only [read]
  exact ⟨_, rfl⟩

end Names

/-! ## Terms -/

theorem term_of_operand
    (read : Gives (operand last 0 tokens) node rest)
    (noMark : nextIs .question rest = false) :
    Gives (term last tokens) node rest := by
  obtain ⟨shorter, read⟩ := read
  rw [term, read]
  cases rest with
  | nil => exact ⟨shorter, rfl⟩
  | cons mark following =>
    have noQuestion : mark.isOp .question = false := noMark
    simp only [noQuestion]
    exact ⟨shorter, rfl⟩

theorem term_conditional
    {test : Node}
    {mark colon : Token}
    {following others : List Token}
    {whenTrue whenFalse : Expression}
    (tests : Gives (operand last 0 tokens) test (mark :: following))
    (isMark : mark.kind = .op .question)
    (firsts : Gives (branch last true following) whenTrue (colon :: others))
    (isColon : colon.kind = .op .colon)
    (seconds : Gives (branch last false others) whenFalse rest) :
    Gives (term last tokens)
      (.ternary test (.expression whenTrue) (.expression whenFalse) test.pos) rest := by
  obtain ⟨shorter, tests⟩ := tests
  obtain ⟨shorterTrue, firsts⟩ := firsts
  obtain ⟨shorterFalse, seconds⟩ := seconds
  have question : mark.isOp .question = true := by simp [Token.isOp, isMark]
  have isOp : colon.isOp .colon = true := by simp [Token.isOp, isColon]
  rw [term, tests]
  simp only [question, if_true, firsts, isOp, seconds]
  exact ⟨_, rfl⟩

/-! ## Arguments -/

section Arguments

variable {opened : SourcePos} {args : List Node}

theorem arguments_closing
    {token : Token}
    (isClosing : token.kind = .closing .round)
    (current : Option Expression)
    (rest : List Token) :
    Gives (arguments last opened current (token :: rest)) (current.toList.map .expression) rest := by
  rw [arguments, if_pos (by simp [isClosing])]
  exact ⟨_, rfl⟩

theorem arguments_comma
    {token : Token}
    (isComma : token.kind = .comma)
    (current : Option Expression)
    (later : Gives (arguments last opened none mid) args rest) :
    Gives (arguments last opened current (token :: mid))
      (.expression (current.getD ⟨[], .unknown⟩) :: args) rest := by
  obtain ⟨shorter, later⟩ := later
  rw [arguments, if_neg (by simp [isComma]), if_pos (by simp [isComma]), later]
  exact ⟨_, rfl⟩

theorem arguments_term
    {token : Token}
    {following : List Token}
    (notClosing : token.kind ≠ .closing .round)
    (notComma : token.kind ≠ .comma)
    {current : Option Expression}
    (isTerm : Gives (term last (token :: following)) node mid)
    (later : Gives (arguments last opened (some (extendArgument current node token.pos)) mid)
      args rest) :
    Gives (arguments last opened current (token :: following)) args rest := by
  obtain ⟨shorter, read⟩ := isTerm
  obtain ⟨shorterLater, readLater⟩ := later
  rw [arguments, if_neg (by simpa using notClosing), if_neg (by simpa using notComma), read]
  simp only [readLater]
  exact ⟨_, rfl⟩

end Arguments

/-! ## Entries -/

section Entries

variable {opened : SourcePos} {before entries : List (String × Node)}

theorem object_closing
    {token : Token}
    (isClosing : token.kind = .closing .curly)
    (before : List (String × Node))
    (rest : List Token) :
    Gives (object last opened before (token :: rest)) before rest := by
  obtain ⟨kind, pos, spaced⟩ := token
  obtain rfl : kind = .closing .curly := isClosing
  rw [object]
  exact ⟨_, rfl⟩

theorem object_comma
    {token : Token}
    (isComma : token.kind = .comma)
    (later : Gives (object last opened before mid) entries rest) :
    Gives (object last opened before (token :: mid)) entries rest := by
  obtain ⟨kind, pos, spaced⟩ := token
  obtain rfl : kind = .comma := isComma
  obtain ⟨shorter, later⟩ := later
  rw [object]
  simp only [later]
  exact ⟨_, rfl⟩

theorem object_entry
    {token colon : Token}
    {following unread : List Token}
    {key : String}
    {nodes : List Node}
    (isKey : token.kind = .name key)
    (isColon : colon.kind = .op .colon)
    (values : Gives (entryTerms last none following) nodes unread)
    (later : Gives (object last opened
      (Node.setEntry key (.expression ⟨nodes, token.pos⟩) before) unread) entries rest) :
    Gives (object last opened before (token :: colon :: following)) entries rest := by
  obtain ⟨kind, pos, spaced⟩ := token
  obtain rfl : kind = .name key := isKey
  have isOp : colon.isOp .colon = true := by simp [Token.isOp, isColon]
  obtain ⟨shorter, values⟩ := values
  obtain ⟨shorterAfter, later⟩ := later
  rw [object]
  have notStop : (Token.Kind.name key == .closing .curly) = false ∧
      (Token.Kind.name key == .comma) = false := ⟨rfl, rfl⟩
  simp only [notStop, isOp, values, later]
  exact ⟨_, rfl⟩

end Entries

end StyleSense.Expression
