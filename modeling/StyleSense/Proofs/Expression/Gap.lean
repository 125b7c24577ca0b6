import StyleSense.Expression.Parser
import StyleSense.Proofs.Node.Matching

/-!
Contract: what the reader of values sees of blanks and line breaks between tokens.

It looks for blanks only where two tokens could be glued together: around a minus and a dot, and
before a bracket or an ellipsis that a name may take. It looks for line breaks only in an object,
where one ends the value of an entry. Tokens with the same gaps in these places are read alike,
whatever blanks and lines they have elsewhere.

Owns:
- `Token.Kind.glues` and `Token.Kind.endsOperand`, the kinds of tokens between which it looks;
- `Frame` and `framesAfter`, the brackets around a token as far as it looks at them;
- `SameGap`, and `Matching.Follow`, tokens that agree up to the gaps it does not look at;
- `Matching.At`, two readings that have come to such tokens, and what its next token is.

Does not own: that the readers keep these (`StyleSense.Proofs.Expression.Matching`).
-/

namespace StyleSense

variable {M : Matching}

/-! ## Tokens that agree -/

namespace Token

/-- Tokens that correspond up to the blanks before them. -/
structure Agrees (M : Matching) (left right : Token) : Prop where
  kind : left.kind.Matches M left.pos right.kind
  pos : M.pos left.pos right.pos

theorem Matches.agrees
    {left right : Token}
    (tokens : Token.Matches M left right) :
    Token.Agrees M left right :=
  ⟨tokens.kind, tokens.pos⟩

/-- Corresponding kinds are equal, strings apart. -/
theorem Kind.Matches.eq_or_string
    {pos : SourcePos}
    {left right : Kind}
    (kinds : left.Matches M pos right) :
    left = right ∨ ∃ value value', left = .string value ∧ right = .string value' := by
  unfold Kind.Matches at kinds
  split at kinds
  · exact .inr ⟨_, _, rfl, rfl⟩
  · exact .inl (by rw [kinds.1])
  · exact .inl kinds.1

theorem Kind.Matches.string_left
    {pos : SourcePos}
    {value : String}
    {right : Kind}
    (kinds : (Kind.string value).Matches M pos right) :
    ∃ value', right = .string value' ∧ M.string value value' := by
  cases right with
  | string value' => exact ⟨value', rfl, kinds⟩
  | _ => exact absurd kinds.1 (by simp)

theorem Kind.Matches.hash_left
    {pos : SourcePos}
    {text : String}
    {right : Kind}
    (kinds : (Kind.hash text).Matches M pos right) :
    right = .hash text ∧ M.literal text pos := by
  cases right with
  | hash text' => exact ⟨by rw [kinds.1], kinds.2⟩
  | _ => exact absurd kinds.1 (by simp)

/-- A test for a kind that is no string has the same answer on corresponding tokens. -/
theorem Agrees.beq_kind
    {left right : Token}
    (tokens : Token.Agrees M left right)
    {kind : Kind}
    (notString : ∀ value, kind ≠ .string value) :
    (left.kind == kind) = (right.kind == kind) := by
  rcases tokens.kind.eq_or_string with equal | ⟨value, value', first, second⟩
  · rw [equal]
  · rw [first, second, beq_false_of_ne (notString value).symm, beq_false_of_ne (notString value').symm]

theorem Agrees.isOp_eq
    {left right : Token}
    (tokens : Token.Agrees M left right)
    (sign : Operator) :
    left.isOp sign = right.isOp sign :=
  tokens.beq_kind (by simp)

theorem Agrees.isName_eq
    {left right : Token}
    (tokens : Token.Agrees M left right)
    (text : String) :
    left.isName text = right.isName text :=
  tokens.beq_kind (by simp)

/-- A token that corresponds to a name is that name. -/
theorem Agrees.kind_eq_name
    {left right : Token}
    (tokens : Token.Agrees M left right)
    {name : String}
    (isName : left.kind = .name name) :
    right.kind = .name name := by
  rcases tokens.kind.eq_or_string with equal | ⟨value, value', isString, _⟩
  · rw [← equal, isName]
  · rw [isName] at isString
    cases isString

end Token

/-! ## Places where the reader looks -/

namespace Token.Kind

/-- An operand can end with such a token. -/
def endsOperand : Kind → Bool
  | .op .ellipsis => true
  | .op _ => false
  | .opening _ => false
  | .comma => false
  | _ => true

/-- A value or one of its terms ends before such a token. -/
def separates : Kind → Bool
  | .comma => true
  | .closing _ => true
  | _ => false

/-- Blanks between two such tokens may matter. -/
def glues : Kind → Kind → Bool
  | .op .minus, _ => true
  | .op .dot, .name _ => true
  | .name _, .opening .round => true
  | .name _, .opening .square => true
  | .name _, .op .dot => true
  | .name _, .op .ellipsis => true
  | .closing .square, .op .ellipsis => true
  | left, .op .minus => left.endsOperand
  | _, _ => false

/-- Neither a bracket nor a comma. -/
def isInner : Kind → Bool
  | .opening _ => false
  | .closing _ => false
  | .comma => false
  | _ => true

theorem glues_minus (right : Kind) : glues (.op .minus) right = true := by
  cases right <;> rfl

theorem glues_of_endsOperand
    {left : Kind}
    (ends : left.endsOperand = true) :
    left.glues (.op .minus) = true := by
  cases left with
  | op sign => cases sign <;> simp_all [endsOperand, glues]
  | closing bracket => cases bracket <;> rfl
  | opening _ => simp [endsOperand] at ends
  | comma => simp [endsOperand] at ends
  | _ => rfl

end Token.Kind

theorem Token.isInner_of_isOp
    {token : Token}
    {sign : Operator}
    (isOp : token.isOp sign = true) :
    token.kind.isInner = true := by
  rw [beq_iff_eq.mp isOp]
  rfl

theorem Token.isInner_of_isName
    {token : Token}
    {text : String}
    (isName : token.isName text = true) :
    token.kind.isInner = true := by
  rw [beq_iff_eq.mp isName]
  rfl

/-- What a bracket around a token is: an object of which a key, a colon or a value comes next, or any
other bracket. -/
inductive Frame where
  | plain
  | key
  | colon
  | value
deriving DecidableEq, Repr

/-- The open brackets after a token, innermost first. -/
def framesAfter (frames : List Frame) (kind : Token.Kind) : List Frame :=
  match kind, frames with
  | .opening .curly, _ => .key :: frames
  | .opening _, _ => .plain :: frames
  | .closing _, _ => frames.tail
  | .comma, .value :: outer => .key :: outer
  | .comma, _ => frames
  | _, .key :: outer => .colon :: outer
  | _, .colon :: outer => .value :: outer
  | _, _ => frames

/-- A term is read within brackets such as these. -/
def Steady (frames : List Frame) : Prop :=
  frames.head? ≠ some .key ∧ frames.head? ≠ some .colon

theorem steady_nil : Steady [] :=
  ⟨by simp, by simp⟩

theorem steady_plain (frames : List Frame) : Steady (.plain :: frames) :=
  ⟨by simp, by simp⟩

theorem steady_value (frames : List Frame) : Steady (.value :: frames) :=
  ⟨by simp, by simp⟩

/-- Within a term the brackets around it stay as they are. -/
theorem Steady.after
    {frames : List Frame}
    (steady : Steady frames)
    {kind : Token.Kind}
    (inner : kind.isInner = true) :
    framesAfter frames kind = frames := by
  obtain ⟨notKey, notColon⟩ := steady
  match frames with
  | [] => cases kind <;> first | rfl | simp [Token.Kind.isInner] at inner
  | .plain :: _ => cases kind <;> first | rfl | simp [Token.Kind.isInner] at inner
  | .value :: _ => cases kind <;> first | rfl | simp [Token.Kind.isInner] at inner
  | .key :: _ => exact absurd rfl notKey
  | .colon :: _ => exact absurd rfl notColon

/-- Two gaps look the same: that between `x` and `y`, and that between `x'` and `y'`. -/
structure SameGap (frames : List Frame) (x x' y y' : Token) : Prop where
  spaced : x.kind.glues y.kind = true → y.spaced = y'.spaced
  /-- In an object a value may end at the end of its line. -/
  line : frames.head? = some .value → x.kind.endsOperand = true → y.kind.separates = false →
    (x.pos.line = y.pos.line ↔ x'.pos.line = y'.pos.line)

/-- Tokens after `x` and `x'` that agree, with gaps that look the same. -/
inductive Matching.Follow (M : Matching) :
    List Frame → Token → Token → List Token → List Token → Prop
  | nil {frames : List Frame} {x x' : Token} : Follow M frames x x' [] []
  | cons {frames : List Frame} {x x' y y' : Token} {rest rest' : List Token}
      (agrees : Token.Agrees M y y')
      (gap : SameGap frames x x' y y')
      (others : Follow M (framesAfter frames y.kind) y y' rest rest') :
      Follow M frames x x' (y :: rest) (y' :: rest')

/-! ## Two readings -/

/-- Two readings, of `whole` and of `whole'`, have come to tokens that agree. -/
structure Matching.At
    (M : Matching)
    (whole whole' : List Token)
    (frames : List Frame)
    (x x' : Token)
    (tokens tokens' : List Token) : Prop where
  left : x :: tokens <:+ whole
  right : x' :: tokens' <:+ whole'
  follow : M.Follow frames x x' tokens tokens'

namespace Matching.At

variable {whole whole' tokens tokens' : List Token} {frames : List Frame} {x x' : Token}

/-- Both readings are at their end, or in front of tokens that agree. -/
theorem cases
    (stands : M.At whole whole' frames x x' tokens tokens') :
    (tokens = [] ∧ tokens' = []) ∨
      ∃ y y' rest rest', tokens = y :: rest ∧ tokens' = y' :: rest' ∧ Token.Agrees M y y' ∧
        SameGap frames x x' y y' ∧ M.At whole whole' (framesAfter frames y.kind) y y' rest rest' := by
  obtain ⟨left, right, follow⟩ := stands
  cases follow with
  | nil => exact .inl ⟨rfl, rfl⟩
  | cons agrees gap others =>
    exact .inr ⟨_, _, _, _, rfl, rfl, agrees, gap, (List.suffix_cons x _).trans left,
      (List.suffix_cons x' _).trans right, others⟩

theorem atBoundary_eq
    (stands : M.At whole whole' frames x x' tokens tokens') :
    Expression.atBoundary tokens = Expression.atBoundary tokens' := by
  rcases stands.cases with ⟨rfl, rfl⟩ | ⟨y, y', rest, rest', rfl, rfl, agrees, _⟩
  · rfl
  · simp only [Expression.atBoundary]
    rcases agrees.kind.eq_or_string with equal | ⟨value, value', isString, isString'⟩
    · rw [equal]
    · rw [isString, isString']

theorem nextIs_eq
    (stands : M.At whole whole' frames x x' tokens tokens')
    (sign : Operator) :
    Expression.nextIs sign tokens = Expression.nextIs sign tokens' := by
  rcases stands.cases with ⟨rfl, rfl⟩ | ⟨y, y', rest, rest', rfl, rfl, agrees, _⟩
  · rfl
  · exact agrees.isOp_eq sign

theorem branchEnds_eq
    (stands : M.At whole whole' frames x x' tokens tokens')
    (untilColon : Bool) :
    Expression.branchEnds untilColon tokens = Expression.branchEnds untilColon tokens' := by
  rw [Expression.branchEnds, Expression.branchEnds, stands.atBoundary_eq, stands.nextIs_eq]

theorem placeOf_matches
    (stands : M.At whole whole' frames x x' tokens tokens')
    {last last' : SourcePos}
    (lasts : M.pos last last') :
    M.pos (Expression.placeOf last tokens) (Expression.placeOf last' tokens') := by
  rcases stands.cases with ⟨rfl, rfl⟩ | ⟨y, y', rest, rest', rfl, rfl, agrees, _⟩
  · exact lasts
  · exact agrees.pos

end Matching.At

/-- The token before those that are left is the last one that was read. -/
theorem lineBefore_of_suffix
    {whole tokens rest : List Token}
    {x y : Token}
    (isEnd : x :: tokens <:+ whole)
    (restEnd : y :: rest <:+ whole)
    (shorter : rest.length < tokens.length) :
    Expression.lineBefore tokens rest = y.pos.line := by
  have tokensEnd : tokens <:+ whole := (List.suffix_cons x tokens).trans isEnd
  obtain ⟨read, rfl⟩ := List.suffix_of_suffix_length_le restEnd tokensEnd (Nat.succ_le_of_lt shorter)
  have taken : (read ++ y :: rest).take ((read ++ y :: rest).length - rest.length) = read ++ [y] := by
    have counted : (read ++ y :: rest).length - rest.length = (read ++ [y]).length := by
      simp only [List.length_append, List.length_cons, List.length_nil]
      omega
    rw [counted, List.append_cons read y rest, List.take_left]
  rw [Expression.lineBefore, taken, List.getLast?_concat]

/-- Two readings have come past an operand, or to where it cannot go on. -/
structure Matching.Past
    (M : Matching)
    (whole whole' : List Token)
    (frames : List Frame)
    (x x' : Token)
    (tokens tokens' : List Token) : Prop extends M.At whole whole' frames x x' tokens tokens' where
  ended : x.kind.endsOperand = true ∨ Expression.atBoundary tokens = true

end StyleSense
