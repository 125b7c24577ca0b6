import StyleSense.Node.Statements
import StyleSense.Proofs.Node.Matching

/-!
Contract: the words of a tree, that is the names, color literals and calls in its values.

Owns:
- `Node.words`, the words of a node however deep they are nested, a body included;
- `Node.Matches.words_known`: what a matching knows of the names and literals of a tree, it knows of
  its words.

Does not own: the tokens at which words stand (`StyleSense.Proofs.Expression.Words`).
-/

namespace StyleSense

/-! ## Words -/

mutual

/-- The words of a node in source order. -/
def Node.words : Node → List Node
  | .ident name value pos => .ident name value pos :: Node.optionWords value
  | .selector _ body => Node.optionWords body
  | .call name args pos => .call name args pos :: Node.listWords args
  | .function _ _ body _ => Node.optionWords body
  | .rgba color raw pos => [.rgba color raw pos]
  | .unit .. => []
  | .binary _ left right _ => left.words ++ right.words
  | .string .. => []
  | .expression value => value.words
  | .object entries _ => Node.entryWords entries
  | .ternary condition whenTrue whenFalse _ =>
    condition.words ++ (whenTrue.words ++ whenFalse.words)
  | .property _ value _ => Expression.optionWords value
  | .atblock statements _ => Node.statementWords statements
  | .rule _ body _ => body.words
  | .wrapper _ nodes body _ => Node.statementWords nodes ++ Node.optionWords body
  | .directive _ _ body _ => Node.optionWords body
  | .other => []

/-- The words of a node, if there is one. -/
def Node.optionWords : Option Node → List Node
  | none => []
  | some node => node.words

/-- The words of some terms. -/
def Node.listWords : List Node → List Node
  | [] => []
  | node :: rest => node.words ++ Node.listWords rest

/-- The words of some statements. The name that a statement declares is no word, nor is the call
that stands for a computed selector. -/
def Node.statementWords : List Node → List Node
  | [] => []
  | .ident _ value _ :: rest => Node.optionWords value ++ Node.statementWords rest
  | .call .. :: rest => Node.statementWords rest
  | node :: rest => node.words ++ Node.statementWords rest

/-- The words in the values of an object. -/
def Node.entryWords : List (String × Node) → List Node
  | [] => []
  | (_, value) :: rest => value.words ++ Node.entryWords rest

/-- The words of a value, if there is one. -/
def Expression.optionWords : Option Expression → List Node
  | none => []
  | some value => value.words

/-- The words of a value. -/
def Expression.words : Expression → List Node
  | ⟨terms, _⟩ => Node.listWords terms

end

/-- The words of a statement. -/
def Node.written (node : Node) : List Node :=
  Node.statementWords [node]

theorem Expression.words_eq (value : Expression) :
    value.words = Node.listWords value.terms := by
  obtain ⟨terms, pos⟩ := value
  rw [Expression.words]

theorem statementWords_cons
    (node : Node)
    (rest : List Node) :
    Node.statementWords (node :: rest) = node.written ++ Node.statementWords rest := by
  cases node <;> simp [Node.written, Node.statementWords]

/-- The words of a statement are words of its node. -/
theorem written_suffix (node : Node) :
    node.written <:+ node.words := by
  cases node with
  | ident name value pos =>
    simp [Node.written, Node.statementWords, Node.words]
  | call name args pos => exact List.nil_suffix
  | _ => simp [Node.written, Node.statementWords]

theorem listWords_eq (nodes : List Node) :
    Node.listWords nodes = nodes.flatMap Node.words := by
  induction nodes with
  | nil => rfl
  | cons node rest inductionHypothesis => rw [Node.listWords, List.flatMap_cons, inductionHypothesis]

theorem entryWords_eq (entries : List (String × Node)) :
    Node.entryWords entries = entries.flatMap fun entry => entry.2.words := by
  induction entries with
  | nil => rfl
  | cons entry rest inductionHypothesis =>
    obtain ⟨key, value⟩ := entry
    rw [Node.entryWords, List.flatMap_cons, inductionHypothesis]

theorem statementWords_eq (nodes : List Node) :
    Node.statementWords nodes = nodes.flatMap Node.written := by
  induction nodes with
  | nil => rfl
  | cons node rest inductionHypothesis =>
    rw [statementWords_cons, List.flatMap_cons, inductionHypothesis]

theorem flatMap_sublist
    {α β : Type}
    {items : List α}
    {f g : α → List β}
    (members : ∀ item ∈ items, (f item).Sublist (g item)) :
    (items.flatMap f).Sublist (items.flatMap g) := by
  induction items with
  | nil => exact List.Sublist.refl _
  | cons item rest inductionHypothesis =>
    obtain ⟨here, later⟩ := List.forall_mem_cons.mp members
    rw [List.flatMap_cons, List.flatMap_cons]
    exact here.append (inductionHypothesis later)

theorem statementWords_sublist (nodes : List Node) :
    (Node.statementWords nodes).Sublist (Node.listWords nodes) := by
  rw [statementWords_eq, listWords_eq]
  exact flatMap_sublist fun node _ => (written_suffix node).sublist

theorem words_wrapper
    (kind : Wrapper)
    (nodes : List Node)
    (pos : SourcePos) :
    (Node.wrapper kind nodes none pos).words = Node.statementWords nodes := by
  rw [Node.words, Node.optionWords, List.append_nil]

theorem mem_entryWords_setEntry
    {key : String}
    {value word : Node}
    {entries : List (String × Node)}
    (isIn : word ∈ Node.entryWords (Node.setEntry key value entries)) :
    word ∈ Node.entryWords entries ∨ word ∈ value.words := by
  induction entries with
  | nil => simpa [Node.setEntry, Node.entryWords] using isIn
  | cons entry rest inductionHypothesis =>
    obtain ⟨name, old⟩ := entry
    unfold Node.setEntry at isIn
    rw [Node.entryWords, List.mem_append]
    split at isIn
    · rw [Node.entryWords, List.mem_append] at isIn
      rcases isIn with isNew | isLater
      · exact .inr isNew
      · exact .inl (.inr isLater)
    · rw [Node.entryWords, List.mem_append] at isIn
      rcases isIn with isHere | isLater
      · exact .inl (.inl isHere)
      · exact (inductionHypothesis isLater).imp_left .inr

/-! ## What is known of words -/

/-- What a matching knows of a word: of a color literal that it stands at its place, of a name and
of a call what it knows of their names. -/
def Matching.Knows (M : Matching) : Node → Prop
  | .ident name _ pos => M.word name pos
  | .call name _ pos => M.word name pos
  | .rgba _ raw pos => M.literal raw pos
  | _ => True

/-- A matching knows the words of a tree. -/
theorem Node.Matches.words_known
    {M : Matching}
    {node node' : Node}
    (nodes : Node.Matches M node node') :
    ∀ word ∈ node.words, M.Knows word := by
  -- Entries that were overwritten are no part of an object, so the induction is on the relation.
  apply @Node.Matches.rec M
    (fun node _ _ => ∀ word ∈ node.words, M.Knows word)
    (fun body _ _ => ∀ word ∈ Node.optionWords body, M.Knows word)
    (fun nodes _ _ => ∀ word ∈ Node.listWords nodes, M.Knows word)
    (fun value _ _ => ∀ word ∈ value.words, M.Knows word)
    (fun entries _ _ => ∀ word ∈ Node.entryWords entries, M.Knows word)
    (fun _ _ _ => True)
    (fun _ _ _ => True)
    (t := nodes)
  case ident =>
    intro name pos pos' word _
    rw [Node.words, Node.optionWords, List.forall_mem_singleton]
    exact word
  case declaration =>
    intro name value value' pos pos' word _ _ values
    rw [Node.words, Node.optionWords, List.forall_mem_cons]
    exact ⟨word, values⟩
  case call =>
    intro name args args' pos pos' word _ _ arguments
    rw [Node.words, List.forall_mem_cons]
    exact ⟨word, arguments⟩
  case rgba =>
    intro color raw pos pos' literal _
    rw [Node.words, List.forall_mem_singleton]
    exact literal
  case binary =>
    intro op left left' right right' pos pos' _ _ _ lefts rights
    rw [Node.words, List.forall_mem_append]
    exact ⟨lefts, rights⟩
  case ternary =>
    intro condition condition' whenTrue whenTrue' whenFalse whenFalse' pos pos' _ _ _ _ conditions
      firsts seconds
    rw [Node.words, List.forall_mem_append, List.forall_mem_append]
    exact ⟨conditions, firsts, seconds⟩
  case atblock =>
    intro nodes nodes' pos pos' _ _ members
    rw [Node.words]
    exact fun word isIn => members word ((statementWords_sublist nodes).subset isIn)
  case wrapper =>
    intro kind nodes nodes' body body' pos pos' _ _ _ members bodies
    rw [Node.words, List.forall_mem_append]
    exact ⟨fun word isIn => members word ((statementWords_sublist nodes).subset isIn), bodies⟩
  case cons =>
    intro node node' rest rest' _ _ first others
    rw [Node.listWords, List.forall_mem_append]
    exact ⟨first, others⟩
  case set =>
    intro key key' value value' entries entries' _ _ _ values before word isIn
    rcases mem_entryWords_setEntry isIn with isBefore | isValue
    · exact before word isBefore
    · exact values word isValue
  all_goals
    intros
    simp_all [Node.words, Node.optionWords, Node.listWords, Node.entryWords, Expression.words,
      Expression.optionWords]

end StyleSense
