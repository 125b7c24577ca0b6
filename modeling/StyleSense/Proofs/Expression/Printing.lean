import StyleSense.Proofs.Expression.Printed
import StyleSense.Proofs.Expression.Run
import StyleSense.Swatch.Decoration

/-!
Contract: what the readers of values give is printed by the grammar of source texts.

Owns:
- `Prints`, that a piece has a printed text, and what is known of its start;
- `OperandPrints`, `TermPrints` and `ValuePrints`: what is printed of a node that a reader gives, if the
  node is printable, and of the colors in it;
- one lemma for each reader: what it gives is printed, with the precedence that it was read with. As in
  the derivation of values, `term` is assumed to do so on fewer tokens and the circle is closed by
  induction on their number;
- `read_prints`, the result for the colors of a complete value.

Does not own: how the printed text is read (`StyleSense.Proofs.Expression.Rereading`).
-/

namespace StyleSense.Expression

variable {last : SourcePos} {tokens rest : List Token} {node : Node} {nodes : List Node}
  {bound rank least : Nat} {freely : Prop}

/-! ## Tokens -/

/-- The tokens have texts of their kinds. -/
def Written (tokens : List Token) : Prop :=
  ∀ token ∈ tokens, token.kind.IsWritten

theorem Written.suffix
    (written : Written tokens)
    (isEnd : rest <:+ tokens) :
    Written rest :=
  fun token isIn => written token (isEnd.subset isIn)

theorem Written.tail
    {token : Token}
    (written : Written (token :: rest)) :
    Written rest :=
  written.suffix (List.suffix_cons token rest)

theorem infixOp?_level
    {sign : Operator}
    {level : Operator.Level}
    {following : { following : List Token // following.length < tokens.length }}
    (found : infixOp? tokens = some (sign, level, following)) :
    sign.level? = some level := by
  cases tokens with
  | nil => cases found
  | cons token others =>
    unfold infixOp? at found
    simp only at found
    split at found
    · split at found
      · cases found
      · obtain ⟨known, isLevel, same⟩ := Option.map_eq_some_iff.mp found
        cases same
        exact isLevel
    · cases found
      rfl
    · cases found
      rfl
    · cases others with
      | nil =>
        cases found
        rfl
      | cons next following =>
        simp only at found
        split at found <;> cases found <;> rfl
    · cases found

/-! ## Printed pieces -/

/-- The piece is printed, after a blank and without one. Where `freely` holds, it starts with a term
also right after another one. -/
def Prints (piece : Piece) (freely : Prop) : Prop :=
  ∀ spaced, ∃ kinds, Printed piece spaced kinds ∧ (freely → StartsTerm spaced kinds)

theorem Prints.mono
    {piece : Piece}
    {freely' : Prop}
    (prints : Prints piece freely)
    (stronger : freely' → freely) :
    Prints piece freely' := by
  intro spaced
  obtain ⟨kinds, printed, starts⟩ := prints spaced
  exact ⟨kinds, printed, fun free => starts (stronger free)⟩

/-- Where a piece can stand, it prints on any condition. -/
theorem Prints.any
    {piece : Piece}
    (prints : Prints piece freely) :
    Prints piece False :=
  prints.mono False.elim

/-- What is known of a node that is read as an operand. -/
structure OperandPrints (rank : Nat) (freely : Prop) (node : Node) : Prop where
  suffix : ∀ {value suffix pos}, node = .unit value suffix pos → Token.IsSuffix suffix
  prints : node.IsPrintable → Prints (.operand rank node) freely
  colors : ∀ term ∈ Node.colorTermsOf [node], term.IsPrintable → Prints (.operand 0 term) False

theorem OperandPrints.mono
    {freely' : Prop}
    (prints : OperandPrints rank freely node)
    (stronger : freely' → freely) :
    OperandPrints rank freely' node :=
  ⟨prints.suffix, fun printable => (prints.prints printable).mono stronger, prints.colors⟩

theorem colorTermsOf_singleton
    (notObject : ∀ entries pos, node ≠ .object entries pos) :
    ∀ term ∈ Node.colorTermsOf [node], term = node := by
  cases node with
  | object entries pos => exact absurd rfl (notObject entries pos)
  | _ =>
    intro term isIn
    simp only [Node.colorTermsOf, List.append_nil] at isIn
    split at isIn
    · exact List.mem_singleton.mp isIn
    · cases isIn

/-- A node that is no object and no number, and prints wherever it stands. -/
theorem OperandPrints.of_prints
    (notObject : ∀ entries pos, node ≠ .object entries pos)
    (notUnit : ∀ value suffix pos, node ≠ .unit value suffix pos)
    (prints : ∀ rank, node.IsPrintable → Prints (.operand rank node) freely)
    (rank : Nat) :
    OperandPrints rank freely node := by
  refine ⟨fun isUnit => absurd isUnit (notUnit _ _ _), prints rank, fun term isIn printable => ?_⟩
  obtain rfl := colorTermsOf_singleton notObject term isIn
  exact (prints 0 printable).any

theorem OperandPrints.other (rank : Nat) : OperandPrints rank freely .other := by
  have unprintable : ¬Node.other.IsPrintable := fun printable => printable
  exact .of_prints (by simp) (by simp) (fun _ printable => absurd printable unprintable) rank

theorem OperandPrints.unit
    {suffix : Option String}
    (isSuffix : Token.IsSuffix suffix)
    (value : Float)
    (pos : SourcePos)
    (rank : Nat) :
    OperandPrints rank freely (.unit value suffix pos) := by
  refine ⟨fun isUnit => ?_, ?_, fun term isIn => ?_⟩
  · cases isUnit
    exact isSuffix
  · rintro ⟨number, noPercent, isText, same⟩ spaced
    refine ⟨_, .unit number noPercent isText same isSuffix, fun _ => ?_⟩
    unfold WrittenNumber.signed
    split
    · exact .negative
    · exact .plain rfl
  · simp [Node.colorTermsOf, Node.isColor] at isIn

/-- Two operands that a sign joins. -/
theorem OperandPrints.joined
    {sign : Operator}
    {level : Operator.Level}
    (isLevel : sign.level? = some level)
    {left right : Node}
    {freely' : Prop}
    (lefts : OperandPrints level.rank freely left)
    (rights : OperandPrints (level.rank + 1) freely' right)
    (binds : rank ≤ level.rank) :
    OperandPrints rank freely (joined left sign right) := by
  refine ⟨fun isUnit => (by cases isUnit), ?_, fun term isIn => ?_⟩
  · rintro ⟨leftPrintable, rightPrintable⟩ spaced
    obtain ⟨kinds, printedLeft, starts⟩ := lefts.prints leftPrintable spaced
    obtain ⟨others, printedRight, _⟩ := rights.prints rightPrintable true
    exact ⟨_, .binary isLevel binds printedLeft printedRight, fun free => (starts free).append _⟩
  · simp [Expression.joined, Node.colorTermsOf, Node.isColor] at isIn

/-- What is known of the terms of a value. -/
structure ValuePrints (nodes : List Node) : Prop where
  prints : nodes ≠ [] → Node.ListPrintable nodes → Prints (.value true nodes) False
  colors : ∀ term ∈ Node.colorTermsOf nodes, term.IsPrintable → Prints (.operand 0 term) False

theorem ValuePrints.ended
    (prints : ValuePrints nodes)
    (printable : Node.ListPrintable nodes)
    (stop : Stop)
    (spaced : Bool) :
    ∃ kinds, Printed (.ended nodes stop) spaced kinds := by
  cases nodes with
  | nil => exact ⟨_, .nothing stop⟩
  | cons node nodes =>
    obtain ⟨kinds, printed, _⟩ := prints.prints (List.cons_ne_nil _ _) printable spaced
    exact ⟨_, .something stop printed⟩

/-- A node with the terms of a value. -/
def IsValue (node : Node) : Prop :=
  ∃ value : Expression, node = .expression value ∧ ValuePrints value.terms

theorem arguments_printed
    {args : List Node}
    (values : ∀ arg ∈ args, IsValue arg)
    (printable : Node.ArgumentsPrintable args)
    (spaced : Bool) :
    ∃ kinds, Printed (.arguments args) spaced kinds := by
  induction args generalizing spaced with
  | nil => exact ⟨_, .noArguments⟩
  | cons arg rest inductionHypothesis =>
    obtain ⟨⟨⟨nodes, pos⟩, rfl, prints⟩, others⟩ := List.forall_mem_cons.mp values
    obtain ⟨nonempty, here, later⟩ := printable
    cases rest with
    | nil =>
      obtain ⟨kinds, printed⟩ := prints.ended here .round spaced
      exact ⟨_, .lastArgument (nonempty rfl) printed⟩
    | cons next rest =>
      obtain ⟨kinds, printed⟩ := prints.ended here .comma spaced
      obtain ⟨_, printedLater⟩ := inductionHypothesis others later true
      exact ⟨_, .argument printed printedLater⟩

/-- Entries with the terms of values, no two of them with the same key. -/
structure AreEntries (entries : List (String × Node)) : Prop where
  values : ∀ entry ∈ entries, IsValue entry.2
  keys : (entries.map Prod.fst).Nodup

theorem AreEntries.nil : AreEntries [] :=
  ⟨fun _ isIn => absurd isIn List.not_mem_nil, List.nodup_nil⟩

theorem keys_setEntry
    (key : String)
    (node : Node)
    (entries : List (String × Node)) :
    (Node.setEntry key node entries).map Prod.fst =
      if key ∈ entries.map Prod.fst then entries.map Prod.fst else entries.map Prod.fst ++ [key] := by
  induction entries with
  | nil => simp [Node.setEntry]
  | cons entry rest inductionHypothesis =>
    obtain ⟨name, old⟩ := entry
    by_cases same : name = key
    · simp [Node.setEntry, same]
    · rw [Node.setEntry, if_neg same, List.map_cons, List.map_cons, inductionHypothesis]
      by_cases isLater : key ∈ rest.map Prod.fst
      · rw [if_pos isLater, if_pos (List.mem_cons_of_mem _ isLater)]
      · have notIn : key ∉ name :: rest.map Prod.fst := by
          rw [List.mem_cons]
          exact not_or.mpr ⟨Ne.symm same, isLater⟩
        rw [if_neg isLater, if_neg notIn, List.cons_append]

theorem mem_setEntry
    {key : String}
    {entries : List (String × Node)}
    {entry : String × Node}
    (isIn : entry ∈ Node.setEntry key node entries) :
    entry.2 = node ∨ entry ∈ entries := by
  induction entries with
  | nil =>
    obtain rfl := List.mem_singleton.mp isIn
    exact .inl rfl
  | cons first rest inductionHypothesis =>
    obtain ⟨name, old⟩ := first
    rw [Node.setEntry] at isIn
    split at isIn
    · rcases List.mem_cons.mp isIn with rfl | isLater
      · exact .inl rfl
      · exact .inr (List.mem_cons_of_mem _ isLater)
    · rcases List.mem_cons.mp isIn with rfl | isLater
      · exact .inr (List.mem_cons_self ..)
      · exact (inductionHypothesis isLater).imp_right (List.mem_cons_of_mem _)

theorem AreEntries.setEntry
    {entries : List (String × Node)}
    (areEntries : AreEntries entries)
    (isValue : IsValue node)
    (key : String) :
    AreEntries (Node.setEntry key node entries) := by
  constructor
  · intro entry isIn
    rcases mem_setEntry isIn with isHere | isOld
    · rw [isHere]
      exact isValue
    · exact areEntries.values entry isOld
  · rw [keys_setEntry]
    split
    · exact areEntries.keys
    · rename_i isNew
      rw [List.nodup_append]
      refine ⟨areEntries.keys, by simp, fun old isOld new isKey => ?_⟩
      obtain rfl := List.mem_singleton.mp isKey
      exact fun same => isNew (same ▸ isOld)

theorem AreEntries.printed
    {entries : List (String × Node)}
    (areEntries : AreEntries entries)
    (printable : Node.EntriesPrintable entries)
    (spaced : Bool) :
    ∃ kinds, Printed (.entries entries) spaced kinds := by
  induction entries generalizing spaced with
  | nil => exact ⟨_, .noEntries⟩
  | cons entry rest inductionHypothesis =>
    obtain ⟨key, node⟩ := entry
    obtain ⟨⟨⟨nodes, pos⟩, isNode, prints⟩, others⟩ := List.forall_mem_cons.mp areEntries.values
    obtain rfl : node = _ := isNode
    obtain ⟨isNew, keys⟩ := List.nodup_cons.mp areEntries.keys
    obtain ⟨isName, here, later⟩ := printable
    cases rest with
    | nil =>
      obtain ⟨kinds, printed⟩ := prints.ended here .curly true
      exact ⟨_, .lastEntry isName printed⟩
    | cons next rest =>
      obtain ⟨kinds, printed⟩ := prints.ended here .comma true
      obtain ⟨_, printedLater⟩ := inductionHypothesis ⟨others, keys⟩ later true
      exact ⟨_, .entry isName isNew printed printedLater⟩

theorem AreEntries.operandPrints
    {entries : List (String × Node)}
    (areEntries : AreEntries entries)
    (pos : SourcePos)
    (rank : Nat) :
    OperandPrints rank freely (.object entries pos) := by
  refine ⟨fun isUnit => (by cases isUnit), fun printable spaced => ?_, fun term isIn => ?_⟩
  · obtain ⟨kinds, printed⟩ := areEntries.printed printable false
    exact ⟨_, .object printed, fun _ => .plain rfl⟩
  · have inEntries : ∀ entries : List (String × Node), (∀ entry ∈ entries, IsValue entry.2) →
        term ∈ Node.entryColorTerms entries → term.IsPrintable → Prints (.operand 0 term) False := by
      intro entries values isIn
      induction entries with
      | nil => cases isIn
      | cons entry rest inductionHypothesis =>
        obtain ⟨key, node⟩ := entry
        obtain ⟨⟨⟨nodes, pos⟩, isNode, prints⟩, others⟩ := List.forall_mem_cons.mp values
        obtain rfl : node = _ := isNode
        rcases List.mem_append.mp isIn with isHere | isLater
        · exact prints.colors term isHere
        · exact inductionHypothesis others isLater
    rw [Node.colorTermsOf, Node.colorTermsOf, List.append_nil] at isIn
    exact inEntries entries areEntries.values isIn

/-! ## Runs of terms -/

/-- What is known of a node that is read as a term of a list: it is an operand and the tokens after it
do not go on with it, or it can be a `? :` and a boundary follows. -/
structure TermPrints (tokens rest : List Token) (node : Node) : Prop where
  prints : node.IsPrintable →
    Prints (.operand 0 node) (infixOp? tokens = none) ∧ infixOp? rest = none ∨
      Prints (.value true [node]) (infixOp? tokens = none) ∧ atBoundary rest = true
  colors : ∀ term ∈ Node.colorTermsOf [node], term.IsPrintable → Prints (.operand 0 term) False

/-- What `term` gives on fewer than `bound` tokens is printed. -/
def TermsPrint (last : SourcePos) (bound : Nat) : Prop :=
  ∀ {tokens rest : List Token} {node : Node}, tokens.length < bound → Written tokens →
    Gives (term last tokens) node rest → TermPrints tokens rest node

theorem colorTermsOf_cons
    (node : Node)
    (nodes : List Node) :
    Node.colorTermsOf (node :: nodes) = Node.colorTermsOf [node] ++ Node.colorTermsOf nodes := by
  cases node with
  | object entries pos => simp [Node.colorTermsOf]
  | _ => simp [Node.colorTermsOf]

/-- Only at a boundary, the last term of a run can be a `? :`. -/
theorem TermRun.prints
    (terms : TermsPrint last bound)
    (run : TermRun last tokens nodes rest)
    (short : tokens.length < bound)
    (written : Written tokens)
    {isOpen : Bool}
    (closed : isOpen = false → atBoundary rest = false)
    (nonempty : nodes ≠ [])
    (printable : Node.ListPrintable nodes) :
    Prints (.value isOpen nodes) (infixOp? tokens = none) := by
  induction run with
  | nil => exact absurd rfl nonempty
  | @cons tokens mid rest node nodes first others inductionHypothesis =>
    obtain ⟨here, later⟩ := printable
    have isEnd := term_suffix first
    have shorter := first.1
    rcases (terms short written first).prints here with ⟨prints, isOver⟩ | ⟨prints, boundary⟩
    · cases nodes with
      | nil =>
        intro spaced
        obtain ⟨kinds, printed, starts⟩ := prints spaced
        exact ⟨kinds, .single printed, starts⟩
      | cons next nodes =>
        have printsLater := inductionHypothesis (by omega) (written.suffix isEnd) closed
          (List.cons_ne_nil _ _) later
        intro spaced
        obtain ⟨kinds, printed, starts⟩ := prints spaced
        obtain ⟨others, printedLater, startsLater⟩ := printsLater true
        exact ⟨_, .cons printed printedLater (startsLater isOver), fun free => (starts free).append _⟩
    · obtain ⟨rfl, rfl⟩ := others.of_atBoundary boundary
      cases isOpen with
      | true => exact prints
      | false =>
        rw [closed rfl] at boundary
        cases boundary

theorem TermRun.valuePrints
    (terms : TermsPrint last bound)
    (run : TermRun last tokens nodes rest)
    (short : tokens.length < bound)
    (written : Written tokens) :
    ValuePrints nodes := by
  refine ⟨fun nonempty printable => (run.prints terms short written (by simp) nonempty printable).any,
    ?_⟩
  induction run with
  | nil => exact fun term isIn => absurd isIn List.not_mem_nil
  | @cons tokens mid rest node nodes first others inductionHypothesis =>
    have shorter := first.1
    intro term isIn
    rw [colorTermsOf_cons] at isIn
    rcases List.mem_append.mp isIn with isHere | isLater
    · exact (terms short written first).colors term isHere
    · exact inductionHypothesis (by omega) (written.suffix (term_suffix first)) term isLater

/-! ## Readers -/

theorem arguments_values
    {opened : SourcePos}
    {args : List Node}
    {tokens rest : List Token}
    (terms : TermsPrint last bound)
    (short : tokens.length < bound)
    (written : Written tokens)
    (read : Gives (arguments last opened none tokens) args rest) :
    ∀ arg ∈ args, IsValue arg := by
  obtain ⟨nodes, result, stop, following, run, collects, ends⟩ := arguments_run read
  have prints := run.valuePrints terms short written
  obtain ⟨isTerms, _⟩ := collects.of_none
  have isEnd := run.suffix
  have shorter := isEnd.length_le
  simp only [List.length_cons] at shorter
  rcases ends with ⟨_, rfl, rfl⟩ | ⟨_, others, later, rfl⟩
  · cases result with
    | none => exact fun arg isIn => absurd isIn List.not_mem_nil
    | some value =>
      intro arg isIn
      obtain rfl := List.mem_singleton.mp isIn
      exact ⟨value, rfl, isTerms ▸ prints⟩
  · refine List.forall_mem_cons.mpr ⟨⟨_, rfl, isTerms ▸ prints⟩, ?_⟩
    exact arguments_values terms (by omega) (written.suffix isEnd).tail later
termination_by tokens.length

theorem object_areEntries
    {opened : SourcePos}
    {before entries : List (String × Node)}
    (terms : TermsPrint last bound)
    (short : tokens.length < bound)
    (written : Written tokens)
    (areEntries : AreEntries before)
    (read : Gives (object last opened before tokens) entries rest) :
    AreEntries entries := by
  induction size : tokens.length using Nat.strong_induction_on generalizing before tokens with
  | _ size inductionHypothesis =>
    obtain ⟨token, following, rfl, step⟩ := object_run read
    simp only [List.length_cons] at short size
    rcases step with ⟨_, rfl, _⟩ | ⟨_, later⟩ | ⟨key, colon, others, nodes, unread, _, rfl, _, run, later⟩
    · exact areEntries
    · exact inductionHypothesis _ (by omega) (by omega) written.tail areEntries later rfl
    · have shorter := run.suffix.length_le
      simp only [List.length_cons] at short size
      have writtenValue := written.tail.tail
      have isValue : IsValue (.expression ⟨nodes, token.pos⟩) :=
        ⟨_, rfl, run.valuePrints terms (by omega) writtenValue⟩
      exact inductionHypothesis _ (by omega) (by omega) (writtenValue.suffix run.suffix)
        (areEntries.setEntry isValue key) later rfl

/-- The members of a name are names. -/
theorem members_written
    (name : String)
    (written : Written tokens) :
    ∃ keys, (members name tokens).1 = memberName name keys ∧
      ∀ key ∈ keys, Token.IsNameText key.toList := by
  fun_induction members name tokens with
  | case1 => exact ⟨[], rfl, by simp⟩
  | case2 => exact ⟨[], rfl, by simp⟩
  | case3 name dot member following key isName isMember longer rest extended inductionHypothesis =>
    obtain ⟨keys, isLonger, areNames⟩ := inductionHypothesis written.tail.tail
    have isKey := written member (by simp)
    rw [isName] at isKey
    rw [extended] at isLonger
    exact ⟨key :: keys, isLonger, List.forall_mem_cons.mpr ⟨isKey, areNames⟩⟩
  | case4 => exact ⟨[], rfl, by simp⟩
  | case5 => exact ⟨[], rfl, by simp⟩

theorem OperandPrints.ident
    {first : String}
    {keys : List String}
    (isName : Token.IsNameText first.toList)
    (areNames : ∀ key ∈ keys, Token.IsNameText key.toList)
    (notDenial : first ≠ "not")
    (pos : SourcePos)
    (rank : Nat) :
    OperandPrints rank (startsTerm (.name first) = true) (.ident (memberName first keys) none pos) :=
  .of_prints (by simp) (by simp)
    (fun _ _ _ => ⟨_, .ident isName areNames notDenial, fun starts => .plain starts⟩) rank

theorem OperandPrints.call
    {name : String}
    {args : List Node}
    (isName : Token.IsNameText name.toList)
    (notDenial : name ≠ "not")
    (values : ∀ arg ∈ args, IsValue arg)
    (pos : SourcePos)
    (rank : Nat) :
    OperandPrints rank (startsTerm (.name name) = true) (.call name args pos) := by
  refine .of_prints (by simp) (by simp) (fun rank printable spaced => ?_) rank
  rw [Node.IsPrintable] at printable
  split at printable
  · rename_i isUrl
    subst isUrl
    unfold Node.AreUrlArguments at printable
    split at printable
    · exact ⟨_, .url printable, fun _ => .plain rfl⟩
    · exact printable.elim
  · rename_i notUrl
    obtain ⟨kinds, printed⟩ := arguments_printed values printable false
    exact ⟨_, .call isName notUrl notDenial printed, fun starts => .plain starts⟩

theorem named_prints
    {name : String}
    {pos : SourcePos}
    (terms : TermsPrint last bound)
    (isName : Token.IsNameText name.toList)
    (notDenial : name ≠ "not")
    (short : tokens.length ≤ bound)
    (written : Written tokens)
    (read : Gives (named last name pos tokens) node rest)
    (rank : Nat) :
    OperandPrints rank (startsTerm (.name name) = true) node := by
  obtain ⟨shorter, read⟩ := read
  cases tokens with
  | nil =>
    rw [named] at read
    cases read
    have noMembers : ∀ key ∈ ([] : List String), Token.IsNameText key.toList := by simp
    exact .ident isName noMembers notDenial pos rank
  | cons token following =>
    rw [named] at read
    simp only [List.length_cons] at short
    obtain ⟨keys, isLonger, areNames⟩ := members_written name written
    split at read
    · split at read
      · cases read
      · rename_i args after shorterAfter inside
        cases read
        have values := arguments_values terms (by omega) written.tail ⟨shorterAfter, inside⟩
        exact .call isName notDenial values pos rank
    · have isIdent : OperandPrints rank (startsTerm (.name name) = true)
          (.ident (members name (token :: following)).1 none pos) := by
        rw [isLonger]
        exact .ident isName areNames notDenial pos rank
      generalize members name (token :: following) = extended at read isIdent
      obtain ⟨longer, remaining, fewer⟩ := extended
      cases remaining with
      | nil =>
        cases read
        exact isIdent
      | cons bracket others =>
        simp only at read
        split at read
        · split at read
          · cases read
          · cases read
            exact isIdent
        · cases read
          exact isIdent

theorem startsTerm_of_infixOp?
    {token : Token}
    {name : String}
    (isName : token.kind = .name name)
    (noInfix : infixOp? (token :: rest) = none) :
    startsTerm (.name name) = true := by
  obtain ⟨kind, pos, spaced⟩ := token
  obtain rfl : kind = .name name := isName
  have notWord : name ≠ "and" ∧ name ≠ "or" ∧ name ≠ "is" := by
    refine ⟨?_, ?_, ?_⟩
    · rintro rfl
      cases noInfix
    · rintro rfl
      cases noInfix
    · rintro rfl
      unfold infixOp? at noInfix
      cases rest with
      | nil => cases noInfix
      | cons next following =>
        simp only at noInfix
        split at noInfix <;> cases noInfix
  simp [startsTerm, notWord]

theorem primary_prints
    (terms : TermsPrint last bound)
    (notDenial : ∀ token ∈ tokens.head?, token.isName "not" = false)
    (short : tokens.length ≤ bound)
    (written : Written tokens)
    (read : Gives (primary last tokens) node rest)
    (rank : Nat) :
    OperandPrints rank (infixOp? tokens = none) node := by
  obtain ⟨shorter, read⟩ := read
  cases tokens with
  | nil =>
    rw [primary] at read
    cases read
  | cons token following =>
    simp only [List.length_cons] at short
    have here := written token (List.mem_cons_self ..)
    rw [primary] at read
    split at read
    · rename_i isNumber
      cases read
      rw [isNumber] at here
      exact .unit here _ _ rank
    · rename_i text isHash
      cases read
      rw [isHash] at here
      have prints : ∀ rank, (hashTerm text token.pos).IsPrintable →
          Prints (.operand rank (hashTerm text token.pos)) (infixOp? (token :: rest) = none) :=
        fun rank _ spaced => ⟨_, .hash here, fun _ => .plain rfl⟩
      refine .of_prints ?_ ?_ prints rank <;> intros <;> unfold hashTerm <;> split <;> simp
    · cases read
      refine .of_prints (by simp) (by simp) (fun _ quotable _ => ?_) rank
      exact ⟨_, .string quotable, fun _ => .plain rfl⟩
    · rename_i body isUrl
      cases read
      rw [isUrl] at here
      exact .of_prints (by simp) (by simp)
        (fun _ _ _ => ⟨_, .url here, fun _ => .plain rfl⟩) rank
    · rename_i name isName
      split at read
      · cases read
      · rename_i named after shorterAfter inside
        cases read
        rw [isName] at here
        have notNot : name ≠ "not" := by
          rintro rfl
          have isNot := notDenial token rfl
          simp [Token.isName, isName] at isNot
        have prints := named_prints terms here notNot (by omega) written.tail
          ⟨shorterAfter, inside⟩ rank
        exact prints.mono (startsTerm_of_infixOp? isName)
    · split at read
      · cases read
      · cases read
        have unprintable : ∀ value, ¬(Node.expression value).IsPrintable := fun _ printable => printable
        exact .of_prints (by simp) (by simp)
          (fun _ printable => absurd printable (unprintable _)) rank
    · split at read
      · cases read
      · rename_i entries after shorterAfter inside
        cases read
        exact (object_areEntries terms (by omega) written.tail .nil
          ⟨shorterAfter, inside⟩).operandPrints _ rank
    · cases read

theorem OperandPrints.negated
    {freely' : Prop}
    (prints : OperandPrints rank freely' node)
    (sign : SourcePos) :
    OperandPrints rank freely (negated sign node) := by
  cases node with
  | unit value suffix pos => exact .unit (prints.suffix rfl) _ _ rank
  | _ => exact .other rank

theorem unary_prints
    {tokens rest : List Token}
    {node : Node}
    (terms : TermsPrint last bound)
    (short : tokens.length ≤ bound)
    (written : Written tokens)
    (read : Gives (unary last tokens) node rest)
    (rank : Nat) :
    OperandPrints rank (infixOp? tokens = none) node := by
  cases tokens with
  | nil =>
    rw [unary] at read
    exact primary_prints terms (by simp) short written read rank
  | cons sign following =>
    have fewer : following.length ≤ bound := by
      simp only [List.length_cons] at short
      omega
    rw [unary] at read
    split at read
    · obtain ⟨shorter, read⟩ := read
      split at read
      · cases read
      · rename_i inner after shorterAfter operand
        cases read
        exact (unary_prints terms fewer written.tail ⟨shorterAfter, operand⟩ rank).negated sign.pos
    · split at read
      · rename_i isPlus
        obtain ⟨shorter, read⟩ := read
        split at read
        · cases read
        · rename_i inner after shorterAfter operand
          cases read
          -- Right after another term, a plus would join the two.
          have joins : infixOp? (sign :: following) ≠ none := by
            unfold infixOp?
            simp [eq_of_beq isPlus, Operator.level?]
          exact (unary_prints terms fewer written.tail ⟨shorterAfter, operand⟩ rank).mono
            fun noInfix => absurd noInfix joins
      · split at read
        · obtain ⟨shorter, read⟩ := read
          split at read
          · cases read
          · cases read
            exact .other rank
        · rename_i notDenied
          refine primary_prints terms ?_ short written read rank
          rintro token ⟨⟩
          simpa using (not_or.mp (mt Bool.or_eq_true_iff.mpr notDenied)).2
termination_by tokens.length

mutual

theorem operand_prints
    {tokens rest : List Token}
    {node : Node}
    (terms : TermsPrint last bound)
    (least : Nat)
    (short : tokens.length ≤ bound)
    (written : Written tokens)
    (read : Gives (operand last least tokens) node rest) :
    OperandPrints least (infixOp? tokens = none) node ∧
      ∀ found ∈ infixOp? rest, found.2.1.rank < least := by
  obtain ⟨shorter, read⟩ := read
  rw [operand] at read
  split at read
  · cases read
  · rename_i left mid shorterMid first
    split at read
    · cases read
    · rename_i node after shorterAfter grown
      cases read
      have lefts := unary_prints terms short written ⟨shorterMid, first⟩
      have isEnd := unary_suffix ⟨shorterMid, first⟩
      exact chain_prints terms least (by omega) (written.suffix isEnd) (lefts least)
        (fun found _ => lefts found.2.1.rank) ⟨shorterAfter, grown⟩
termination_by (tokens.length, 1)

/-- A chain grows an operand at the rank of the operator that joins it and ends in front of a looser
one. -/
theorem chain_prints
    {tokens rest : List Token}
    {node left : Node}
    {freely : Prop}
    (terms : TermsPrint last bound)
    (least : Nat)
    (short : tokens.length ≤ bound)
    (written : Written tokens)
    (lefts : OperandPrints least freely left)
    (joins : ∀ found ∈ infixOp? tokens, OperandPrints found.2.1.rank freely left)
    (read : Gives (chain last least left tokens) node rest) :
    OperandPrints least freely node ∧ ∀ found ∈ infixOp? rest, found.2.1.rank < least := by
  obtain ⟨shorter, read⟩ := read
  rw [chain] at read
  split at read
  · rename_i noInfix
    cases read
    exact ⟨lefts, by simp [noInfix]⟩
  · rename_i sign level following shorterSign found
    split at read
    · rename_i looser
      cases read
      refine ⟨lefts, fun other isFound => ?_⟩
      cases found.symm.trans isFound
      exact looser
    · rename_i tighter
      split at read
      · cases read
      · rename_i right mid shorterMid second
        split at read
        · cases read
        · rename_i node after shorterAfter grown
          cases read
          obtain ⟨signs, split, _⟩ := infixOp?_split found
          simp only at split
          have writtenRight : Written following := written.suffix ⟨signs, split.symm⟩
          obtain ⟨rights, looser⟩ := operand_prints terms (level.rank + 1) (by omega) writtenRight
            ⟨shorterMid, second⟩
          have isEnd := operand_suffix ⟨shorterMid, second⟩
          have isLevel := infixOp?_level found
          have joined : ∀ rank, rank ≤ level.rank →
              OperandPrints rank freely (joined left sign right) := fun rank binds =>
            (joins _ found).joined isLevel rights binds
          exact chain_prints terms least (by omega) (writtenRight.suffix isEnd)
            (joined least (Nat.le_of_not_lt tighter))
            (fun other isFound => joined _ (Nat.le_of_lt_succ (looser other isFound)))
            ⟨shorterAfter, grown⟩
termination_by (tokens.length, 0)

end

/-- A `? :` whose first branch ends at its colon and whose second one ends at a boundary. -/
theorem prints_ternary
    {test : Node}
    {whenTrue whenFalse : Expression}
    {pos : SourcePos}
    (tests : OperandPrints 0 freely test)
    (firsts : Node.ListPrintable whenTrue.terms → Prints (.value false whenTrue.terms) False)
    (seconds : Node.ListPrintable whenFalse.terms → Prints (.value true whenFalse.terms) False)
    (printable : (Node.ternary test (.expression whenTrue) (.expression whenFalse) pos).IsPrintable) :
    Prints (.value true [.ternary test (.expression whenTrue) (.expression whenFalse) pos]) freely := by
  obtain ⟨trueTerms, truePos⟩ := whenTrue
  obtain ⟨falseTerms, falsePos⟩ := whenFalse
  obtain ⟨testPrintable, truePrintable, falsePrintable⟩ := printable
  intro spaced
  obtain ⟨kinds, printedTest, starts⟩ := tests.prints testPrintable spaced
  obtain ⟨_, printedTrue, _⟩ := firsts truePrintable true
  obtain ⟨_, printedFalse, _⟩ := seconds falsePrintable true
  exact ⟨_, .conditional printedTest printedTrue printedFalse, fun free => (starts free).append _⟩

/-- If `term` prints what it gives on fewer tokens than these, it does so on these. -/
theorem term_prints_of_fewer
    (terms : TermsPrint last tokens.length)
    (written : Written tokens)
    (read : Gives (term last tokens) node rest) :
    TermPrints tokens rest node := by
  obtain ⟨shorter, read⟩ := read
  rw [term] at read
  split at read
  · cases read
  · rename_i condition shorterTest tests
    cases read
    have prints := (operand_prints terms 0 (Nat.le_refl _) written ⟨shorterTest, tests⟩).1
    exact ⟨fun printable => .inl ⟨prints.prints printable, rfl⟩, prints.colors⟩
  · rename_i condition mark following shorterTest tests
    obtain ⟨prints, looser⟩ := operand_prints terms 0 (Nat.le_refl _) written ⟨shorterTest, tests⟩
    have isEnd := operand_suffix ⟨shorterTest, tests⟩
    have writtenTrue := (written.suffix isEnd).tail
    simp only [List.length_cons] at shorterTest
    split at read
    · split at read
      · cases read
      · cases read
      · rename_i whenTrue colon others shorterTrue firsts
        split at read
        · rename_i isColon
          split at read
          · cases read
          · rename_i whenFalse after shorterFalse seconds
            cases read
            obtain ⟨runTrue, nonemptyTrue, _⟩ := branch_run ⟨shorterTrue, firsts⟩
            obtain ⟨runFalse, nonemptyFalse, ends⟩ := branch_run ⟨shorterFalse, seconds⟩
            have boundary : atBoundary rest = true := by simpa [branchEnds] using ends
            have closed : atBoundary (colon :: others) = false := by
              rw [atBoundary, eq_of_beq isColon]
            have writtenFalse := (writtenTrue.suffix runTrue.suffix).tail
            simp only [List.length_cons] at shorterTrue
            refine ⟨fun printable => .inr ⟨?_, boundary⟩, fun term isIn => ?_⟩
            · refine prints_ternary prints (fun truePrintable => ?_) (fun falsePrintable => ?_) printable
              · exact (runTrue.prints terms (by omega) writtenTrue (fun _ => closed) nonemptyTrue
                  truePrintable).any
              · exact (runFalse.prints terms (by omega) writtenFalse (by simp) nonemptyFalse
                  falsePrintable).any
            · simp [Node.colorTermsOf, Node.isColor] at isIn
        · cases read
    · cases read
      have noInfix : infixOp? (mark :: following) = none :=
        Option.eq_none_iff_forall_not_mem.mpr fun found isFound =>
          Nat.not_lt_zero _ (looser found isFound)
      exact ⟨fun printable => .inl ⟨prints.prints printable, noInfix⟩, prints.colors⟩

theorem termsPrint (bound : Nat) : TermsPrint last bound := by
  induction bound with
  | zero =>
    intro tokens rest node short
    exact absurd short (Nat.not_lt_zero _)
  | succ bound inductionHypothesis =>
    intro tokens rest node short written read
    refine term_prints_of_fewer ?_ written read
    intro fewer rest node shorter
    exact inductionHypothesis (by omega)

/-! ## Complete values -/

theorem readTermsFrom_prints
    {tokens : List Token}
    {nodes : List Node}
    (written : Written tokens)
    (read : readTermsFrom last tokens = .ok nodes) :
    ∀ term ∈ Node.colorTermsOf nodes, term.IsPrintable → Prints (.operand 0 term) False := by
  cases tokens with
  | nil =>
    rw [readTermsFrom] at read
    cases read
    exact fun term isIn => absurd isIn List.not_mem_nil
  | cons token others =>
    rw [readTermsFrom] at read
    split at read
    · exact readTermsFrom_prints written.tail read
    · split at read
      · cases read
      · rename_i node following shorter first
        split at read
        · cases read
        · rename_i nodes later
          cases read
          intro term isIn
          rw [colorTermsOf_cons] at isIn
          have isEnd := term_suffix ⟨shorter, first⟩
          rcases List.mem_append.mp isIn with isHere | isLater
          · exact (termsPrint _ (Nat.lt_succ_self _) written ⟨shorter, first⟩).colors term isHere
          · exact readTermsFrom_prints (written.suffix isEnd) later term isLater
termination_by tokens.length

/-- The colors of a value are printed by the grammar. -/
theorem read_prints
    {value : Expression}
    {pos : SourcePos}
    (written : Written tokens)
    (read : Expression.read tokens pos = .ok value) :
    ∀ term ∈ value.colorTerms, term.IsPrintable → Prints (.operand 0 term) False := by
  rw [Expression.read] at read
  split at read
  · cases read
  · rename_i nodes terms
    cases read
    exact readTermsFrom_prints written terms

end StyleSense.Expression
