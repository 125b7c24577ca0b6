import StyleSense.Proofs.Expression.Numeric
import StyleSense.Proofs.Expression.Printed
import StyleSense.Proofs.Expression.Run
import StyleSense.Proofs.Node.Unplaced

/-!
Contract: the tokens of a source text are read as the value that it was printed from.

Owns:
- `Apart` and `TermOver`, tokens that a name or a term does not go on with;
- `IsRead`, that some tokens are read as a piece up to its places, whatever follows them;
- `Printed.isRead`: tokens of the kinds that a piece is printed with are read as it;
- `readTerms_of_printed`, the result for the tokens of a single operand.

Does not own: the grammar of source texts (`StyleSense.Proofs.Expression.Printed`).
-/

namespace StyleSense.Expression

variable {last : SourcePos} {tokens rest : List Token} {node : Node}

/-! ## What follows a term -/

/-- Nothing is glued to what stands before the tokens. -/
def Apart (rest : List Token) : Prop :=
  ∀ token ∈ rest.head?, token.spaced = true ∨ token.kind = .comma ∨
    ∃ bracket, token.kind = .closing bracket

/-- A term does not go on with the tokens. -/
structure TermOver (rest : List Token) : Prop where
  apart : Apart rest
  noInfix : infixOp? rest = none
  noMark : nextIs .question rest = false

theorem termOver_nil : TermOver [] :=
  ⟨by simp [Apart], rfl, rfl⟩

theorem termOver_stop
    {mark : Token}
    {stop : Stop}
    (isStop : mark.kind = stop.kind)
    (rest : List Token) :
    TermOver (mark :: rest) ∧ atBoundary (mark :: rest) = true := by
  obtain ⟨kind, pos, spaced⟩ := mark
  obtain rfl : kind = stop.kind := isStop
  cases stop
  all_goals
    refine ⟨⟨?_, rfl, rfl⟩, rfl⟩
    rintro token ⟨⟩
    simp [Stop.kind]

theorem termOver_colon
    {mark : Token}
    (isColon : mark.kind = .op .colon)
    (spaced : mark.spaced = true)
    (rest : List Token) :
    TermOver (mark :: rest) := by
  obtain ⟨kind, pos, spaced⟩ := mark
  obtain rfl : kind = .op .colon := isColon
  refine ⟨?_, rfl, rfl⟩
  rintro token ⟨⟩
  exact .inl spaced

theorem exists_cons_of_kindsOf
    {kind : Token.Kind}
    {spaced : Bool}
    {kinds : List (Token.Kind × Bool)}
    (listed : kindsOf tokens = (kind, spaced) :: kinds) :
    ∃ token others, tokens = token :: others ∧ token.kind = kind ∧ token.spaced = spaced ∧
      kindsOf others = kinds := by
  obtain ⟨token, others, rfl, same, later⟩ := List.map_eq_cons_iff.mp listed
  obtain ⟨sameKind, sameBlank⟩ := Prod.mk.inj same
  exact ⟨token, others, rfl, sameKind, sameBlank, later⟩

/-- A term ends where another one starts after a blank. -/
theorem termOver_of_startsTerm
    {kinds : List (Token.Kind × Bool)}
    (starts : StartsTerm true kinds)
    (listed : kindsOf tokens = kinds)
    (rest : List Token) :
    TermOver (tokens ++ rest) := by
  cases starts with
  | @plain kind others isStart =>
    obtain ⟨⟨kind, pos, spaced⟩, later, rfl, rfl, rfl, _⟩ := exists_cons_of_kindsOf listed
    refine ⟨?_, ?_, ?_⟩
    · rintro token ⟨⟩
      exact .inl rfl
    · rw [List.cons_append]
      unfold infixOp?
      cases kind with
      | name text =>
        simp only [startsTerm, List.contains_cons, List.contains_nil, Bool.or_false,
          Bool.not_eq_true', Bool.or_eq_false_iff, beq_eq_false_iff_ne] at isStart
        dsimp only
        split
        · rename_i isOp
          cases isOp
        · rename_i isAnd
          cases isAnd
          exact absurd rfl isStart.1
        · rename_i isOr
          cases isOr
          exact absurd rfl isStart.2.1
        · rename_i isIs
          cases isIs
          exact absurd rfl isStart.2.2
        · rfl
      | op sign => cases isStart
      | _ => rfl
    · rw [List.cons_append, nextIs, Token.isOp, beq_eq_false_iff_ne]
      rintro rfl
      cases isStart
  | @negative value suffix others =>
    obtain ⟨⟨kind, pos, spaced⟩, later, rfl, rfl, rfl, numbered⟩ := exists_cons_of_kindsOf listed
    obtain ⟨⟨kind', pos', spaced'⟩, _, rfl, rfl, rfl, _⟩ := exists_cons_of_kindsOf numbered
    refine ⟨?_, rfl, rfl⟩
    rintro token ⟨⟩
    exact .inl rfl

/-! ## Names -/

theorem not_isOp_of_apart
    {token : Token}
    {sign : Operator}
    (apart : Apart (token :: rest)) :
    (token.isOp sign && !token.spaced) = false := by
  rcases apart token rfl with spaced | comma | ⟨bracket, closing⟩
  · simp [spaced]
  · simp [Token.isOp, comma]
  · simp [Token.isOp, closing]

theorem not_opening_of_apart
    {token : Token}
    {bracket : Bracket}
    (apart : Apart (token :: rest)) :
    (token.kind == .opening bracket && !token.spaced) = false := by
  rcases apart token rfl with spaced | comma | ⟨bracket, closing⟩
  · simp [spaced]
  · simp [comma]
  · simp [closing]

/-- A name has the members that are written after it. -/
theorem members_of_kinds
    {keys : List String}
    (listed : kindsOf tokens = memberKinds keys)
    (apart : Apart rest)
    (name : String) :
    (members name (tokens ++ rest)).1 = memberName name keys ∧
      (members name (tokens ++ rest)).2.val = rest := by
  induction keys generalizing name tokens with
  | nil =>
    obtain rfl : tokens = [] := List.map_eq_nil_iff.mp listed
    rw [List.nil_append]
    match rest with
    | [] => exact ⟨rfl, rfl⟩
    | [token] => exact ⟨rfl, rfl⟩
    | dot :: member :: following =>
      rw [members]
      split
      · rw [not_isOp_of_apart apart]
        exact ⟨rfl, rfl⟩
      · exact ⟨rfl, rfl⟩
  | cons key keys inductionHypothesis =>
    rw [memberKinds, List.flatMap_cons, ← memberKinds] at listed
    obtain ⟨⟨_, pos, _⟩, others, rfl, rfl, rfl, afterDot⟩ := exists_cons_of_kindsOf listed
    obtain ⟨⟨_, pos', _⟩, others, rfl, rfl, rfl, afterKey⟩ := exists_cons_of_kindsOf afterDot
    obtain ⟨longer, remains⟩ := inductionHypothesis afterKey (name ++ "." ++ key)
    rw [List.cons_append, List.cons_append, members]
    simp only [Token.isOp, beq_self_eq_true, Bool.not_false, Bool.and_self, if_true, longer, remains]
    exact ⟨rfl, trivial⟩

theorem dropEllipsis_of_apart (apart : Apart rest) : (dropEllipsis rest).val = rest := by
  cases rest with
  | nil => rfl
  | cons token following =>
    rw [dropEllipsis, not_isOp_of_apart apart]
    rfl

theorem named_ident
    {keys : List String}
    (listed : kindsOf tokens = memberKinds keys)
    (apart : Apart rest)
    (name : String)
    (pos : SourcePos) :
    Gives (named last name pos (tokens ++ rest)) (.ident (memberName name keys) none pos) rest := by
  obtain ⟨longer, remains⟩ := members_of_kinds listed apart name
  have noCall : ∀ token ∈ (tokens ++ rest).head?,
      (token.kind == .opening .round && !token.spaced) = false := by
    cases tokens with
    | nil =>
      cases rest with
      | nil => simp
      | cons token following =>
        rintro _ ⟨⟩
        exact not_opening_of_apart apart
    | cons token others =>
      rintro _ ⟨⟩
      cases keys with
      | nil => cases listed
      | cons key keys =>
        obtain ⟨_, _, same, isDot, _⟩ := exists_cons_of_kindsOf listed
        cases same
        rw [isDot]
        rfl
  generalize tokens ++ rest = whole at longer remains noCall
  cases whole with
  | nil =>
    rw [named]
    exact longer ▸ remains ▸ ⟨_, rfl⟩
  | cons token following =>
    rw [named, noCall token rfl]
    simp only [Bool.false_eq_true, if_false]
    generalize members name (token :: following) = extended at longer remains
    obtain ⟨extended, remaining, bound⟩ := extended
    obtain rfl : extended = memberName name keys := longer
    obtain rfl : remaining = rest := remains
    cases remaining with
    | nil => exact ⟨_, rfl⟩
    | cons bracket others =>
      simp only [not_opening_of_apart apart, Bool.false_eq_true, if_false, dropEllipsis_of_apart apart]
      exact ⟨_, rfl⟩

/-! ## Pieces -/

/-- The tokens are read as the piece, up to its places, whatever follows them. -/
def IsRead (last : SourcePos) (tokens : List Token) : Piece → Prop
  | .operand rank node => ∀ rest : List Token, Apart rest →
      (∀ found ∈ infixOp? rest, found.2.1.rank ≤ rank) →
        ∃ again : Node, again.unplaced = node.unplaced ∧
          -- What is read on from the operand is what is read on from the tokens.
          ∀ {least : Nat} {after : List Token} {result : Node}, least ≤ rank →
            Gives (chain last least again rest) result after →
              Gives (operand last least (tokens ++ rest)) result after
  | .value isOpen nodes => ∀ rest : List Token, TermOver rest →
      (isOpen = true → atBoundary rest = true) →
        ∃ again, Node.unplacedList again = Node.unplacedList nodes ∧
          TermRun last (tokens ++ rest) again rest
  | .ended nodes stop => ∃ front mark, tokens = front ++ [mark] ∧ mark.kind = stop.kind ∧
      ∀ rest, ∃ again, Node.unplacedList again = Node.unplacedList nodes ∧
        TermRun last (front ++ mark :: rest) again (mark :: rest)
  | .arguments args => ∀ opened rest, ∃ again, Node.unplacedList again = Node.unplacedList args ∧
      Gives (arguments last opened none (tokens ++ rest)) again rest
  | .entries members => ∀ opened before rest,
      (∀ key ∈ members.map Prod.fst, key ∉ before.map Prod.fst) →
        ∃ again, Node.unplacedEntries again = Node.unplacedEntries members ∧
          Gives (object last opened before (tokens ++ rest)) (before ++ again) rest

/-- What is no operation is read before any operator is looked at. -/
theorem IsRead.of_unary
    (read : ∀ {rest}, Apart rest → ∃ again : Node, again.unplaced = node.unplaced ∧
      Gives (unary last (tokens ++ rest)) again rest)
    (rank : Nat) :
    IsRead last tokens (.operand rank node) := by
  intro rest apart _
  obtain ⟨again, same, read⟩ := read apart
  exact ⟨again, same, fun _ later => operand_of_chain read later⟩

/-- A value that is a single token. -/
theorem IsRead.of_token
    {kind : Token.Kind}
    {spaced : Bool}
    (listed : kindsOf tokens = [(kind, spaced)])
    (notSign : ∀ sign, kind ≠ .op sign)
    (notDenial : kind ≠ .name "not")
    (value : SourcePos → Node)
    (same : ∀ pos, (value pos).unplaced = node.unplaced)
    (read : ∀ {pos rest}, Gives (primary last (⟨kind, pos, spaced⟩ :: rest)) (value pos) rest)
    (rank : Nat) :
    IsRead last tokens (.operand rank node) := by
  obtain ⟨⟨_, pos, _⟩, others, rfl, rfl, rfl, nothing⟩ := exists_cons_of_kindsOf listed
  obtain rfl : others = [] := List.map_eq_nil_iff.mp nothing
  exact IsRead.of_unary (fun _ => ⟨_, same pos, unary_of_primary notSign notDenial read⟩) rank

/-- An operand that no operator goes on with. -/
theorem IsRead.operand_gives
    {rank : Nat}
    (isRead : IsRead last tokens (.operand rank node))
    (apart : Apart rest)
    (looser : ∀ found ∈ infixOp? rest, found.2.1.rank < rank) :
    ∃ again : Node, again.unplaced = node.unplaced ∧
      Gives (operand last rank (tokens ++ rest)) again rest := by
  obtain ⟨again, same, reads⟩ := isRead _ apart fun found isFound => Nat.le_of_lt (looser found isFound)
  exact ⟨again, same, reads (Nat.le_refl _) (chain_done looser again)⟩

theorem IsRead.term_gives
    (isRead : IsRead last tokens (.operand 0 node))
    (isOver : TermOver rest) :
    ∃ again : Node, again.unplaced = node.unplaced ∧
      Gives (term last (tokens ++ rest)) again rest := by
  obtain ⟨again, same, reads⟩ := isRead.operand_gives isOver.apart (by simp [isOver.noInfix])
  exact ⟨again, same, term_of_operand reads isOver.noMark⟩

theorem eq_nil_iff_of_unplaced
    {again nodes : List Node}
    (same : Node.unplacedList again = Node.unplacedList nodes) :
    again = [] ↔ nodes = [] := by
  cases again with
  | nil =>
    cases nodes with
    | nil => exact Iff.rfl
    | cons node rest => cases same
  | cons node rest =>
    cases nodes with
    | nil => cases same
    | cons node rest => simp

theorem IsRead.branch_gives
    {isOpen : Bool}
    {nodes : List Node}
    (isRead : IsRead last tokens (.value isOpen nodes))
    (nonempty : nodes ≠ [])
    (isOver : TermOver rest)
    (boundary : isOpen = true → atBoundary rest = true)
    {untilColon : Bool}
    (ends : branchEnds untilColon rest = true) :
    ∃ again : Expression, Node.unplacedList again.terms = Node.unplacedList nodes ∧
      Gives (branch last untilColon (tokens ++ rest)) again rest := by
  obtain ⟨again, same, run⟩ := isRead _ isOver boundary
  have againNonempty : again ≠ [] := mt (eq_nil_iff_of_unplaced same).mp nonempty
  obtain ⟨pos, read⟩ := branch_of_run run againNonempty ends
  exact ⟨⟨again, pos⟩, same, read⟩

theorem Printed.nodes_ne_nil
    {isOpen spaced : Bool}
    {nodes : List Node}
    {kinds : List (Token.Kind × Bool)}
    (printed : Printed (.value isOpen nodes) spaced kinds) :
    nodes ≠ [] := by
  cases printed <;> exact List.cons_ne_nil _ _

/-- The first token of an operand or of several terms has the blank that they have. -/
theorem Printed.exists_cons
    {piece : Piece}
    {spaced : Bool}
    {kinds : List (Token.Kind × Bool)}
    (printed : Printed piece spaced kinds) :
    ∃ kind others, kinds = (kind, spaced) :: others := by
  induction printed with
  | unit number =>
    unfold WrittenNumber.signed
    split <;> exact ⟨_, _, rfl⟩
  | binary _ _ _ _ lefts _ =>
    obtain ⟨kind, others, rfl⟩ := lefts
    exact ⟨kind, _, rfl⟩
  | conditional _ _ _ tests _ _ =>
    obtain ⟨kind, others, rfl⟩ := tests
    exact ⟨kind, _, rfl⟩
  | cons _ _ _ first _ =>
    obtain ⟨kind, others, rfl⟩ := first
    exact ⟨kind, _, rfl⟩
  | something _ _ terms =>
    obtain ⟨kind, others, rfl⟩ := terms
    exact ⟨kind, _, rfl⟩
  | argument _ _ first _ =>
    obtain ⟨kind, others, rfl⟩ := first
    exact ⟨kind, _, rfl⟩
  | single _ only => exact only
  | lastArgument _ _ last => exact last
  | ident | hash | string | url | call | object | nothing | noArguments | noEntries | lastEntry
    | entry => exact ⟨_, _, rfl⟩

/-- A sign between two operands joins them. -/
theorem infixOp?_of_level
    {sign : Operator}
    {level : Operator.Level}
    (isLevel : sign.level? = some level)
    {mark next : Token}
    (isSign : mark.kind = .op sign)
    (spaced : mark.spaced = true)
    (spacedNext : next.spaced = true)
    (rest : List Token) :
    infixOp? (mark :: next :: rest) = some (sign, level, ⟨next :: rest, Nat.lt_succ_self _⟩) := by
  have joined : joins mark (next :: rest) = true := by simp [joins, spaced, spacedNext]
  unfold infixOp?
  simp only [isSign, joined, isLevel]
  simp

/-- A number with a suffix is read as it, with the sign before it. -/
theorem IsRead.unit
    {value : Float}
    {suffix : Option String}
    {number : WrittenNumber}
    {spaced : Bool}
    (same : number.channel.value = value)
    (listed : kindsOf tokens = number.signed suffix spaced)
    (pos : SourcePos)
    (rank : Nat) :
    IsRead last tokens (.operand rank (.unit value suffix pos)) := by
  have numeric : Numeric ⟨value, suffix⟩ tokens := by
    rw [← same, WrittenNumber.channel]
    rw [WrittenNumber.signed] at listed
    split at listed
    · rename_i isNegative
      obtain ⟨sign, others, rfl, isMinus, _, afterSign⟩ := exists_cons_of_kindsOf listed
      obtain ⟨token, others, rfl, isNumber, _, nothing⟩ := exists_cons_of_kindsOf afterSign
      obtain rfl : others = [] := List.map_eq_nil_iff.mp nothing
      exact .negative isMinus isNumber (if_pos isNegative)
    · rename_i notNegative
      obtain ⟨token, others, rfl, isNumber, _, nothing⟩ := exists_cons_of_kindsOf listed
      obtain rfl : others = [] := List.map_eq_nil_iff.mp nothing
      rw [if_neg notNegative]
      exact .bare isNumber
  obtain ⟨again, isChannel, read⟩ := @unary_gives last _ _ numeric
  have isUnit : again.unplaced = (Node.unit value suffix pos).unplaced := by
    cases again with
    | unit value' suffix' pos' =>
      cases isChannel
      rfl
    | _ => cases isChannel
  exact IsRead.of_unary (fun _ => ⟨again, isUnit, read _⟩) rank

theorem IsRead.binary
    {rank : Nat}
    {sign : Operator}
    {level : Operator.Level}
    (isLevel : sign.level? = some level)
    (binds : rank ≤ level.rank)
    {left right : Node}
    {mark next : Token}
    {back : List Token}
    (lefts : IsRead last tokens (.operand level.rank left))
    (isSign : mark.kind = .op sign)
    (spaced : mark.spaced = true)
    (spacedNext : next.spaced = true)
    (rights : IsRead last (next :: back) (.operand (level.rank + 1) right))
    (pos : SourcePos) :
    IsRead last (tokens ++ mark :: next :: back) (.operand rank (.binary sign.spelling left right pos)) := by
  intro rest apart tightest
  have found := infixOp?_of_level isLevel isSign spaced spacedNext (back ++ rest)
  have apartSign : Apart (mark :: next :: (back ++ rest)) := by
    rintro _ ⟨⟩
    exact .inl spaced
  have looserRight : ∀ other ∈ infixOp? rest, other.2.1.rank < level.rank + 1 :=
    fun other isFound => Nat.lt_succ_of_le (Nat.le_trans (tightest other isFound) binds)
  have tightestLeft : ∀ other ∈ infixOp? (mark :: next :: (back ++ rest)),
      other.2.1.rank ≤ level.rank := by
    rintro _ isFound
    cases found.symm.trans isFound
    exact Nat.le_refl _
  obtain ⟨rightAgain, sameRight, readRight⟩ := rights.operand_gives apart looserRight
  obtain ⟨leftAgain, sameLeft, readsLeft⟩ := lefts _ apartSign tightestLeft
  refine ⟨joined leftAgain sign rightAgain, ?_, fun {least after result} looser later => ?_⟩
  · simp only [joined, Node.unplaced, sameLeft, sameRight]
  · have weaker : least ≤ level.rank := Nat.le_trans looser binds
    rw [List.append_assoc]
    exact readsLeft weaker (chain_join found weaker readRight later)

theorem unplaced_eq (value : Expression) :
    value.unplaced = ⟨Node.unplacedList value.terms, .unknown⟩ := by
  obtain ⟨terms, pos⟩ := value
  rfl

theorem IsRead.conditional
    {test : Node}
    {whenTrue whenFalse : List Node}
    {mark colon : Token}
    {front back : List Token}
    (tests : IsRead last tokens (.operand 0 test))
    (isMark : mark.kind = .op .question)
    (spaced : mark.spaced = true)
    (firsts : IsRead last front (.value false whenTrue))
    (firstNonempty : whenTrue ≠ [])
    (isColon : colon.kind = .op .colon)
    (spacedColon : colon.spaced = true)
    (seconds : IsRead last back (.value true whenFalse))
    (secondNonempty : whenFalse ≠ [])
    (truePos falsePos pos : SourcePos) :
    IsRead last (tokens ++ mark :: (front ++ colon :: back))
      (.value true [.ternary test (.expression ⟨whenTrue, truePos⟩)
        (.expression ⟨whenFalse, falsePos⟩) pos]) := by
  intro rest isOver isOpen
  have boundary := isOpen rfl
  have apartMark : Apart (mark :: (front ++ colon :: (back ++ rest))) := by
    rintro _ ⟨⟩
    exact .inl spaced
  have noInfix : infixOp? (mark :: (front ++ colon :: (back ++ rest))) = none := by
    unfold infixOp?
    simp [isMark, Operator.level?]
  obtain ⟨testAgain, sameTest, readTest⟩ := tests.operand_gives apartMark (by simp [noInfix])
  obtain ⟨trueAgain, sameTrue, readTrue⟩ := firsts.branch_gives firstNonempty
    (termOver_colon isColon spacedColon (back ++ rest)) (by simp)
    (show branchEnds true _ = true by simp [branchEnds, nextIs, Token.isOp, isColon])
  obtain ⟨falseAgain, sameFalse, readFalse⟩ := seconds.branch_gives secondNonempty isOver isOpen
    (show branchEnds false rest = true by simp [branchEnds, boundary])
  have read := term_conditional readTest isMark readTrue isColon readFalse
  have whole : tokens ++ mark :: (front ++ colon :: back) ++ rest =
      tokens ++ mark :: (front ++ colon :: (back ++ rest)) := by simp
  rw [whole]
  refine ⟨_, ?_, .cons read (.nil rest)⟩
  simp only [Node.unplacedList, Node.unplaced, unplaced_eq, sameTest, sameTrue, sameFalse]

theorem IsRead.cons
    {isOpen : Bool}
    {nodes : List Node}
    {back : List Token}
    {kinds : List (Token.Kind × Bool)}
    (first : IsRead last tokens (.operand 0 node))
    (later : IsRead last back (.value isOpen nodes))
    (starts : StartsTerm true kinds)
    (listed : kindsOf back = kinds) :
    IsRead last (tokens ++ back) (.value isOpen (node :: nodes)) := by
  intro rest isOver boundary
  obtain ⟨again, same, read⟩ := first.term_gives (termOver_of_startsTerm starts listed rest)
  obtain ⟨others, sameOthers, run⟩ := later _ isOver boundary
  rw [List.append_assoc]
  refine ⟨again :: others, ?_, .cons read run⟩
  rw [Node.unplacedList, Node.unplacedList, same, sameOthers]

theorem IsRead.ended
    {nodes : List Node}
    {mark : Token}
    {stop : Stop}
    (isRead : IsRead last tokens (.value true nodes))
    (isStop : mark.kind = stop.kind) :
    IsRead last (tokens ++ [mark]) (.ended nodes stop) := by
  refine ⟨tokens, mark, rfl, isStop, fun rest => ?_⟩
  obtain ⟨isOver, boundary⟩ := termOver_stop isStop rest
  exact isRead _ isOver fun _ => boundary

/-- Several terms with their stop are one argument. -/
theorem IsRead.argument_gives
    {nodes : List Node}
    {stop : Stop}
    (isRead : IsRead last tokens (.ended nodes stop))
    (opened : SourcePos)
    (rest : List Token) :
    ∃ result mark, mark.kind = stop.kind ∧
      Node.unplacedList (result.getD ⟨[], .unknown⟩).terms = Node.unplacedList nodes ∧
      (result = none ↔ nodes = []) ∧
      ∀ {args after}, Gives (arguments last opened result (mark :: rest)) args after →
        Gives (arguments last opened none (tokens ++ rest)) args after := by
  obtain ⟨front, mark, rfl, isStop, reads⟩ := isRead
  obtain ⟨again, same, run⟩ := reads rest
  obtain ⟨result, collects, goesOn⟩ := arguments_of_run run none
  obtain ⟨terms, nothing⟩ := collects.of_none
  have whole : front ++ [mark] ++ rest = front ++ mark :: rest := by simp
  rw [whole]
  exact ⟨result, mark, isStop, by rw [terms, same], nothing.trans (eq_nil_iff_of_unplaced same),
    goesOn⟩

theorem IsRead.lastArgument
    {nodes : List Node}
    (isRead : IsRead last tokens (.ended nodes .round))
    (nonempty : nodes ≠ [])
    (pos : SourcePos) :
    IsRead last tokens (.arguments [.expression ⟨nodes, pos⟩]) := by
  intro opened rest
  obtain ⟨result, mark, isStop, same, nothing, goesOn⟩ := isRead.argument_gives opened rest
  cases result with
  | none => exact absurd (nothing.mp rfl) nonempty
  | some value =>
    refine ⟨[.expression value], ?_, goesOn (arguments_closing isStop (some value) rest)⟩
    rw [Option.getD_some] at same
    simp only [Node.unplacedList, Node.unplaced, unplaced_eq, same]

theorem IsRead.argument
    {nodes args : List Node}
    {back : List Token}
    (first : IsRead last tokens (.ended nodes .comma))
    (later : IsRead last back (.arguments args))
    (pos : SourcePos) :
    IsRead last (tokens ++ back) (.arguments (.expression ⟨nodes, pos⟩ :: args)) := by
  intro opened rest
  obtain ⟨result, mark, isStop, same, _, goesOn⟩ := first.argument_gives opened (back ++ rest)
  obtain ⟨others, sameOthers, read⟩ := later opened rest
  rw [List.append_assoc]
  refine ⟨_, ?_, goesOn (arguments_comma isStop result read)⟩
  simp only [Node.unplacedList, Node.unplaced, unplaced_eq, same, sameOthers]

/-- A key with its value, up to the stop of the value. -/
theorem IsRead.entry_gives
    {nodes : List Node}
    {stop : Stop}
    {token colon : Token}
    {key : String}
    (isRead : IsRead last tokens (.ended nodes stop))
    {line : Nat}
    (onLine : ∀ token ∈ tokens, token.pos.line = line)
    (isKey : token.kind = .name key)
    (isColon : colon.kind = .op .colon)
    (opened : SourcePos)
    {before : List (String × Node)}
    (isNew : key ∉ before.map Prod.fst)
    (rest : List Token) :
    ∃ value mark, mark.kind = stop.kind ∧
      value.unplaced = (Node.expression ⟨nodes, .unknown⟩).unplaced ∧
      ∀ {entries after}, Gives (object last opened (before ++ [(key, value)]) (mark :: rest)) entries after →
        Gives (object last opened before (token :: colon :: (tokens ++ rest))) entries after := by
  obtain ⟨front, mark, rfl, isStop, reads⟩ := isRead
  obtain ⟨again, same, run⟩ := reads rest
  have onFront : ∀ token ∈ front, token.pos.line = line := fun token isIn =>
    onLine token (List.mem_append_left _ isIn)
  have values := entryTerms_of_run run (termOver_stop isStop rest).2 onFront
    (show ∀ before ∈ (none : Option Nat), before = line by simp)
  have whole : front ++ [mark] ++ rest = front ++ mark :: rest := by simp
  rw [whole]
  refine ⟨.expression ⟨again, token.pos⟩, mark, isStop, ?_, fun later => ?_⟩
  · simp only [Node.unplaced, unplaced_eq, same]
  · refine object_entry isKey isColon values ?_
    rwa [setEntry_of_notMem _ isNew]

theorem IsRead.lastEntry
    {nodes : List Node}
    {token colon : Token}
    {key : String}
    (isRead : IsRead last tokens (.ended nodes .curly))
    {line : Nat}
    (onLine : ∀ token ∈ tokens, token.pos.line = line)
    (isKey : token.kind = .name key)
    (isColon : colon.kind = .op .colon)
    (pos : SourcePos) :
    IsRead last (token :: colon :: tokens) (.entries [(key, .expression ⟨nodes, pos⟩)]) := by
  intro opened before rest isNew
  obtain ⟨value, mark, isStop, same, goesOn⟩ :=
    isRead.entry_gives onLine isKey isColon opened (isNew key (by simp)) rest
  refine ⟨[(key, value)], ?_, goesOn (object_closing isStop _ rest)⟩
  simp only [Node.unplacedEntries, same, Node.unplaced, unplaced_eq]

theorem IsRead.entry
    {nodes : List Node}
    {members : List (String × Node)}
    {token colon : Token}
    {back : List Token}
    {key : String}
    (first : IsRead last tokens (.ended nodes .comma))
    {line : Nat}
    (onLine : ∀ token ∈ tokens, token.pos.line = line)
    (later : IsRead last back (.entries members))
    (isKey : token.kind = .name key)
    (isColon : colon.kind = .op .colon)
    (notLater : key ∉ members.map Prod.fst)
    (pos : SourcePos) :
    IsRead last (token :: colon :: (tokens ++ back))
      (.entries ((key, .expression ⟨nodes, pos⟩) :: members)) := by
  intro opened before rest isNew
  obtain ⟨value, mark, isStop, same, goesOn⟩ :=
    first.entry_gives onLine isKey isColon opened (isNew key (by simp)) (back ++ rest)
  have stillNew : ∀ other ∈ members.map Prod.fst, other ∉ (before ++ [(key, value)]).map Prod.fst := by
    intro other isLater isBefore
    rw [List.map_append, List.mem_append] at isBefore
    rcases isBefore with isOld | isKey
    · exact isNew other (List.mem_cons_of_mem _ isLater) isOld
    · obtain rfl : other = key := by simpa using isKey
      exact notLater isLater
  obtain ⟨others, sameOthers, read⟩ := later opened _ rest stillNew
  rw [List.append_assoc] at read
  refine ⟨(key, value) :: others, ?_, ?_⟩
  · simp only [Node.unplacedEntries, same, sameOthers, Node.unplaced, unplaced_eq]
  · rw [List.cons_append, List.cons_append, List.append_assoc]
    exact goesOn (object_comma isStop read)

/-- Tokens on one line, of the kinds that a piece is printed with, are read as it. -/
theorem Printed.isRead
    {piece : Piece}
    {spaced : Bool}
    {kinds : List (Token.Kind × Bool)}
    (printed : Printed piece spaced kinds)
    (listed : kindsOf tokens = kinds)
    {line : Nat}
    (onLine : ∀ token ∈ tokens, token.pos.line = line) :
    IsRead last tokens piece := by
  induction printed generalizing tokens with
  | @unit rank spaced value suffix pos number noPercent isText same isSuffix =>
    exact .unit same listed pos rank
  | @ident rank spaced first keys pos isName areNames notDenial =>
    obtain ⟨⟨_, here, _⟩, others, rfl, rfl, rfl, members⟩ := exists_cons_of_kindsOf listed
    refine .of_unary (fun apart => ⟨.ident (memberName first keys) none here, rfl, ?_⟩) rank
    exact unary_of_primary (by simp) (by simpa using notDenial)
      (primary_name (named_ident members apart first here))
  | @hash rank spaced text pos isHash =>
    refine .of_token listed (by simp) (by simp) (hashTerm text) (fun here => ?_) ?_ rank
    · unfold hashTerm
      split <;> rfl
    · intro here rest
      rw [primary]
      exact ⟨_, rfl⟩
  | @string rank spaced value pos quotable =>
    refine .of_token listed (by simp) (by simp) (.string value) (fun _ => rfl) ?_ rank
    intro here rest
    rw [primary]
    exact ⟨_, rfl⟩
  | @url rank spaced body bodyPos listPos pos isBody =>
    refine .of_token listed (by simp) (by simp) (urlTerm body) (fun _ => rfl) ?_ rank
    intro here rest
    rw [primary]
    exact ⟨_, rfl⟩
  | @call rank spaced name args pos kinds isName notUrl notDenial inside inductionHypothesis =>
    obtain ⟨⟨_, here, _⟩, others, rfl, rfl, rfl, afterName⟩ := exists_cons_of_kindsOf listed
    obtain ⟨opening, others, rfl, isOpening, unspaced, listedArgs⟩ := exists_cons_of_kindsOf afterName
    have isRead := inductionHypothesis listedArgs fun token isIn => onLine token (by simp [isIn])
    refine .of_unary (fun {rest} _ => ?_) rank
    obtain ⟨again, same, read⟩ := isRead here rest
    refine ⟨.call name again here, ?_, ?_⟩
    · simp only [Node.unplaced, same]
    · exact unary_of_primary (by simp) (by simpa using notDenial)
        (primary_name (named_call isOpening unspaced read))
  | @object rank spaced entries pos kinds inside inductionHypothesis =>
    obtain ⟨⟨_, here, _⟩, others, rfl, rfl, rfl, listedEntries⟩ := exists_cons_of_kindsOf listed
    have isRead := inductionHypothesis listedEntries fun token isIn => onLine token (by simp [isIn])
    refine .of_unary (fun {rest} _ => ?_) rank
    obtain ⟨again, same, read⟩ := isRead here [] rest (by simp)
    refine ⟨.object again here, ?_, ?_⟩
    · simp only [Node.unplaced, same]
    · exact unary_of_primary (by simp) (by simp) (primary_object read)
  | @binary rank spaced sign level left right pos kinds others isLevel binds lefts rights leftIs
      rightIs =>
    obtain ⟨front, back, rfl, listedLeft, listedBack⟩ := List.map_eq_append_iff.mp listed
    obtain ⟨mark, back, rfl, isSign, spacedMark, listedRight⟩ := exists_cons_of_kindsOf listedBack
    obtain ⟨kind, more, rfl⟩ := rights.exists_cons
    have isRight := rightIs listedRight fun token isIn => onLine token (by simp [isIn])
    obtain ⟨next, back, rfl, _, spacedNext, _⟩ := exists_cons_of_kindsOf listedRight
    have isLeft := leftIs listedLeft fun token isIn => onLine token (by simp [isIn])
    exact .binary isLevel binds isLeft isSign spacedMark spacedNext isRight pos
  | @single isOpen spaced node kinds only inductionHypothesis =>
    intro rest isOver _
    obtain ⟨again, same, read⟩ := (inductionHypothesis listed onLine).term_gives isOver
    refine ⟨[again], ?_, .cons read (.nil rest)⟩
    simp only [Node.unplacedList, same]
  | @conditional spaced test whenTrue whenFalse truePos falsePos pos kinds first second tests firsts
      seconds testIs firstIs secondIs =>
    obtain ⟨front, back, rfl, listedTest, listedBack⟩ := List.map_eq_append_iff.mp listed
    obtain ⟨mark, back, rfl, isMark, spacedMark, afterMark⟩ := exists_cons_of_kindsOf listedBack
    obtain ⟨middle, back, rfl, listedFirst, listedColon⟩ := List.map_eq_append_iff.mp afterMark
    obtain ⟨colon, back, rfl, isColon, spacedColon, listedSecond⟩ := exists_cons_of_kindsOf listedColon
    have isTest := testIs listedTest fun token isIn => onLine token (by simp [isIn])
    have isFirst := firstIs listedFirst fun token isIn => onLine token (by simp [isIn])
    have isSecond := secondIs listedSecond fun token isIn => onLine token (by simp [isIn])
    exact .conditional isTest isMark spacedMark isFirst firsts.nodes_ne_nil isColon spacedColon
      isSecond seconds.nodes_ne_nil truePos falsePos pos
  | @cons isOpen spaced node next nodes kinds others first later starts firstIs laterIs =>
    obtain ⟨front, back, rfl, listedFirst, listedLater⟩ := List.map_eq_append_iff.mp listed
    have isFirst := firstIs listedFirst fun token isIn => onLine token (by simp [isIn])
    have isLater := laterIs listedLater fun token isIn => onLine token (by simp [isIn])
    exact .cons isFirst isLater starts listedLater
  | @nothing spaced stop =>
    obtain ⟨mark, others, rfl, isStop, _, nothing⟩ := exists_cons_of_kindsOf listed
    obtain rfl : others = [] := List.map_eq_nil_iff.mp nothing
    exact ⟨[], mark, rfl, isStop, fun rest => ⟨[], rfl, .nil _⟩⟩
  | @something spaced nodes kinds stop terms inductionHypothesis =>
    obtain ⟨front, back, rfl, listedTerms, listedStop⟩ := List.map_eq_append_iff.mp listed
    obtain ⟨mark, others, rfl, isStop, _, nothing⟩ := exists_cons_of_kindsOf listedStop
    obtain rfl : others = [] := List.map_eq_nil_iff.mp nothing
    have isRead := inductionHypothesis listedTerms fun token isIn => onLine token (by simp [isIn])
    exact .ended isRead isStop
  | @noArguments spaced =>
    obtain ⟨mark, others, rfl, isClosing, _, nothing⟩ := exists_cons_of_kindsOf listed
    obtain rfl : others = [] := List.map_eq_nil_iff.mp nothing
    exact fun opened rest => ⟨[], rfl, arguments_closing isClosing none rest⟩
  | @lastArgument spaced nodes pos kinds nonempty last inductionHypothesis =>
    exact .lastArgument (inductionHypothesis listed onLine) nonempty pos
  | @argument spaced nodes rest next pos kinds others first later firstIs laterIs =>
    obtain ⟨front, back, rfl, listedFirst, listedLater⟩ := List.map_eq_append_iff.mp listed
    have isFirst := firstIs listedFirst fun token isIn => onLine token (by simp [isIn])
    have isLater := laterIs listedLater fun token isIn => onLine token (by simp [isIn])
    exact .argument isFirst isLater pos
  | @noEntries spaced =>
    obtain ⟨mark, others, rfl, isClosing, _, nothing⟩ := exists_cons_of_kindsOf listed
    obtain rfl : others = [] := List.map_eq_nil_iff.mp nothing
    intro opened before rest _
    refine ⟨[], rfl, ?_⟩
    rw [List.append_nil]
    exact object_closing isClosing before rest
  | @lastEntry spaced key nodes pos kinds isName last inductionHypothesis =>
    obtain ⟨token, others, rfl, isKey, _, afterKey⟩ := exists_cons_of_kindsOf listed
    obtain ⟨colon, others, rfl, isColon, _, listedValue⟩ := exists_cons_of_kindsOf afterKey
    have onValue : ∀ token ∈ others, token.pos.line = line := fun token isIn =>
      onLine token (by simp [isIn])
    exact .lastEntry (inductionHypothesis listedValue onValue) onValue isKey isColon pos
  | @entry spaced key nodes pos next rest kinds others isName isNew first later firstIs laterIs =>
    obtain ⟨token, others, rfl, isKey, _, afterKey⟩ := exists_cons_of_kindsOf listed
    obtain ⟨colon, others, rfl, isColon, _, listedValue⟩ := exists_cons_of_kindsOf afterKey
    obtain ⟨front, back, rfl, listedFirst, listedLater⟩ := List.map_eq_append_iff.mp listedValue
    have onFirst : ∀ token ∈ front, token.pos.line = line := fun token isIn =>
      onLine token (by simp [isIn])
    have isLater := laterIs listedLater fun token isIn => onLine token (by simp [isIn])
    exact .entry (firstIs listedFirst onFirst) onFirst isLater isKey isColon isNew pos

/-- Tokens on one line, of the kinds that an operand is printed with, are read as it alone. -/
theorem readTerms_of_printed
    {rank : Nat}
    {spaced : Bool}
    {kinds : List (Token.Kind × Bool)}
    (printed : Printed (.operand rank node) spaced kinds)
    (listed : kindsOf tokens = kinds)
    {line : Nat}
    (onLine : ∀ token ∈ tokens, token.pos.line = line) :
    ∃ again : Node, again.unplaced = node.unplaced ∧ readTerms tokens = .ok [again] := by
  have isRead : IsRead (lastPlace tokens) tokens (.operand 0 node) :=
    (printed.loosen (Nat.zero_le rank)).isRead listed onLine
  obtain ⟨again, same, read⟩ := isRead.term_gives termOver_nil
  rw [List.append_nil] at read
  have notEnd := atBoundary_of_term read
  obtain ⟨shorter, read⟩ := read
  refine ⟨again, same, ?_⟩
  cases tokens with
  | nil => cases notEnd
  | cons token following =>
    have notComma : ¬(token.kind == .comma) = true := by
      intro isComma
      rw [atBoundary, eq_of_beq isComma] at notEnd
      cases notEnd
    rw [lastPlace] at read
    rw [readTerms, readTermsFrom, if_neg notComma, read]
    simp only
    rw [readTermsFrom]

end StyleSense.Expression
