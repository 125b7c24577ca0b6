import StyleSense.Proofs.Node.Nested
import StyleSense.Proofs.Node.Words
import StyleSense.Proofs.Swatch.Collection

/-!
Contract: the terms among which colors are looked for.

Owns:
- `Node.color?`, the color that a term is itself, and `Node.color?_eq_some_iff`, the terms that are one;
- `searchedTerms`, the terms of a tree to which the search for colors comes. It does not go into a
  group in parentheses; what it would find there is known from a search that opens groups;
- `declaredColors_searched`: the colors that statements declare are those that searched terms are;
- `CollectsWords.statements`: what is collected from declarations is among the words of the tree.

Does not own: where a term stands in the text (`StyleSense.Proofs.Swatch.Place`).
-/

namespace StyleSense

/-! ## The search -/

/-- The color that a term is itself, what is nested in the term left out. -/
def Node.color? : Node → Option Occurrence
  | .ident name _ pos =>
    if Named.isColor name then some ⟨.named, pos.place, name, Named.read name⟩ else none
  | .rgba color raw pos => some ⟨.literal, pos.place, raw, .ok color⟩
  | .call name args pos =>
    (if Rgba.isConstructor name then literalChannels? args else none).map fun channels =>
      ⟨.function, pos.place, name, Rgba.ofCall name channels⟩
  | _ => none

/-- The ways in which a term is a color: a keyword, a literal, or a constructor call that has
channels. -/
inductive Node.IsOccurrence : Node → Occurrence → Prop
  | named {name : String} {value : Option Node} {pos : SourcePos}
      (keyword : Named.isColor name = true) :
      Node.IsOccurrence (.ident name value pos) ⟨.named, pos.place, name, Named.read name⟩
  | literal (color : Rgba Float) (raw : String) (pos : SourcePos) :
      Node.IsOccurrence (.rgba color raw pos) ⟨.literal, pos.place, raw, .ok color⟩
  | function {name : String} {args : List Node} {pos : SourcePos} {channels : List (Channel Float)}
      (constructor : Rgba.isConstructor name = true)
      (isNumeric : literalChannels? args = some channels) :
      Node.IsOccurrence (.call name args pos) ⟨.function, pos.place, name, Rgba.ofCall name channels⟩

theorem Node.color?_eq_some_iff
    {term : Node}
    {occurrence : Occurrence} :
    term.color? = some occurrence ↔ term.IsOccurrence occurrence := by
  constructor
  · intro isColor
    cases term with
    | ident name value pos =>
      rw [Node.color?] at isColor
      split at isColor
      · rename_i keyword
        cases isColor
        exact .named keyword
      · cases isColor
    | rgba color raw pos =>
      cases isColor
      exact .literal color raw pos
    | call name args pos =>
      obtain ⟨channels, found, rfl⟩ := Option.map_eq_some_iff.mp isColor
      split at found
      · rename_i constructor
        exact .function constructor found
      · cases found
    | _ => cases isColor
  · intro isOccurrence
    cases isOccurrence with
    | named keyword => rw [Node.color?, if_pos keyword]
    | literal => rfl
    | function constructor isNumeric =>
      rw [Node.color?, if_pos constructor, isNumeric]
      rfl

mutual

/-- The terms to which a search comes from a term on: the term, then what is in the arguments of a
call that is no color, in an object, in a block and, where groups are opened, in a group. -/
def Node.searched (opened : Bool) : Node → List Node
  | .call name args pos =>
    .call name args pos ::
      if (Node.color? (.call name args pos)).isSome then [] else Node.argumentsSearched opened args
  | .expression value => .expression value :: if opened then value.searched opened else []
  | .object entries pos => .object entries pos :: Node.entriesSearched opened entries
  | .atblock statements pos => .atblock statements pos :: Node.propertiesSearched opened statements
  | term => [term]

/-- The terms to which a search comes in a value. -/
def Expression.searched (opened : Bool) : Expression → List Node
  | ⟨terms, _⟩ => Node.termsSearched opened terms

/-- The terms to which a search comes from some terms on. -/
def Node.termsSearched (opened : Bool) : List Node → List Node
  | [] => []
  | term :: rest => term.searched opened ++ Node.termsSearched opened rest

/-- The terms to which a search comes in the arguments of a call. -/
def Node.argumentsSearched (opened : Bool) : List Node → List Node
  | [] => []
  | .expression value :: rest => value.searched opened ++ Node.argumentsSearched opened rest
  | _ :: rest => Node.argumentsSearched opened rest

/-- The terms to which a search comes in the values of an object. -/
def Node.entriesSearched (opened : Bool) : List (String × Node) → List Node
  | [] => []
  | (_, .expression value) :: rest => value.searched opened ++ Node.entriesSearched opened rest
  | _ :: rest => Node.entriesSearched opened rest

/-- The terms to which a search comes in the properties of a block. -/
def Node.propertiesSearched (opened : Bool) : List Node → List Node
  | [] => []
  | .property _ (some value) _ :: rest =>
    value.searched opened ++ Node.propertiesSearched opened rest
  | _ :: rest => Node.propertiesSearched opened rest

end

/-- The terms to which a search comes in a node that is a value. -/
def Node.valueSearched (opened : Bool) : Node → List Node
  | .expression value => value.searched opened
  | _ => []

/-- The terms to which a search comes in what a statement declares. -/
def Node.declaredTerms (opened : Bool) : Node → List Node
  | .ident _ (some value) _ => value.valueSearched opened
  | .property _ (some value) _ => value.searched opened
  | .ternary _ _ whenFalse _ =>
    match whenFalse with
    | .expression value => value.searched opened
    | .ident _ (some value) _ => value.valueSearched opened
    | branch => branch.searched opened
  | _ => []

/-- The terms to which a search comes in what some statements declare. -/
def searchedTerms (opened : Bool) (statements : List Node) : List Node :=
  statements.flatMap (Node.declaredTerms opened)

section Lists

variable (opened : Bool)

theorem termsSearched_eq (terms : List Node) :
    Node.termsSearched opened terms = terms.flatMap (Node.searched opened) := by
  induction terms with
  | nil => rfl
  | cons term rest inductionHypothesis => rw [List.flatMap_cons, ← inductionHypothesis]; rfl

theorem argumentsSearched_eq (args : List Node) :
    Node.argumentsSearched opened args = args.flatMap (Node.valueSearched opened) := by
  induction args with
  | nil => rfl
  | cons arg rest inductionHypothesis =>
    rw [List.flatMap_cons, ← inductionHypothesis]
    cases arg <;> rfl

theorem entriesSearched_eq (entries : List (String × Node)) :
    Node.entriesSearched opened entries =
      entries.flatMap fun entry => entry.2.valueSearched opened := by
  induction entries with
  | nil => rfl
  | cons entry rest inductionHypothesis =>
    obtain ⟨key, value⟩ := entry
    rw [List.flatMap_cons, ← inductionHypothesis]
    cases value <;> rfl

theorem propertiesSearched_eq (nodes : List Node) :
    Node.propertiesSearched opened nodes =
      nodes.flatMap fun node => if node.isProperty then node.declaredTerms opened else [] := by
  induction nodes with
  | nil => rfl
  | cons node rest inductionHypothesis =>
    rw [List.flatMap_cons, ← inductionHypothesis]
    cases node with
    | property name value pos => cases value <;> rfl
    | _ => rfl

theorem Expression.searched_eq (value : Expression) :
    value.searched opened = value.terms.flatMap (Node.searched opened) := by
  obtain ⟨terms, pos⟩ := value
  rw [Expression.searched, termsSearched_eq]

end Lists

/-! ## The colors that are found -/

theorem filterMap_flatMap_congr
    {α β γ : Type}
    {items : List α}
    {found : α → List γ}
    {searched : α → List β}
    {f : β → Option γ}
    (members : ∀ item ∈ items, found item = (searched item).filterMap f) :
    items.flatMap found = (items.flatMap searched).filterMap f := by
  rw [List.filterMap_flatMap, List.flatMap_def, List.flatMap_def, List.map_congr_left members]

/-- The colors of a node are those of the terms to which the search comes: from the node as a term,
as a value and as a declaration. -/
structure Node.FindsColors (node : Node) : Prop where
  term : node.occurrences = (node.searched false).filterMap Node.color?
  value : node.valueOccurrences = (node.valueSearched false).filterMap Node.color?
  own : node.declaredColors = (node.declaredTerms false).filterMap Node.color?

theorem Node.findsColors (node : Node) : node.FindsColors := by
  induction node using Node.nested_induction with
  | step node nested =>
    cases node with
    | ident name value pos =>
      refine ⟨?_, rfl, ?_⟩
      · simp only [Node.occurrences, Node.searched, List.filterMap_cons, Node.color?]
        split <;> simp
      · cases value with
        | none => rfl
        | some value => exact (nested value (List.mem_singleton_self _)).value
    | rgba color raw pos =>
      refine ⟨?_, rfl, rfl⟩
      simp only [Node.occurrences, Node.searched, List.filterMap_cons, Node.color?, List.filterMap_nil]
    | call name args pos =>
      refine ⟨?_, rfl, rfl⟩
      simp only [Node.occurrences, Node.searched, List.filterMap_cons]
      cases color : (Node.call name args pos).color? with
      | some occurrence =>
        obtain ⟨channels, found, rfl⟩ := Option.map_eq_some_iff.mp color
        simp [found]
      | none =>
        have none : (if Rgba.isConstructor name then literalChannels? args else none) = none :=
          Option.map_eq_none_iff.mp color
        simp only [none, Option.isSome_none, Bool.false_eq_true, if_false]
        rw [argumentOccurrences_eq, argumentsSearched_eq]
        exact filterMap_flatMap_congr fun arg isArg => (nested arg isArg).value
    | expression value =>
      obtain ⟨terms, pos⟩ := value
      refine ⟨?_, ?_, rfl⟩
      · simp [Node.occurrences, Node.searched, Node.color?]
      · rw [Node.valueOccurrences, Node.valueSearched, Expression.occurrences,
          Expression.searched_eq, termOccurrences_eq]
        exact filterMap_flatMap_congr fun term isTerm => (nested term isTerm).term
    | object entries pos =>
      refine ⟨?_, rfl, rfl⟩
      simp only [Node.occurrences, Node.searched, List.filterMap_cons, Node.color?]
      rw [entryOccurrences_eq, entriesSearched_eq]
      exact filterMap_flatMap_congr fun entry isEntry =>
        (nested entry.2 (List.mem_map_of_mem isEntry)).value
    | ternary condition whenTrue whenFalse pos =>
      have branch := nested whenFalse (by simp [Node.nested])
      refine ⟨by simp [Node.occurrences, Node.searched, Node.color?], rfl, ?_⟩
      cases whenFalse with
      | expression value => exact branch.value
      | ident name value place =>
        cases value with
        | none => exact branch.term
        | some value => exact branch.own
      | _ => exact branch.term
    | property name value pos =>
      refine ⟨by simp [Node.occurrences, Node.searched, Node.color?], rfl, ?_⟩
      cases value with
      | none => rfl
      | some value =>
        obtain ⟨terms, place⟩ := value
        rw [Node.declaredColors, Node.declaredTerms, Expression.occurrences, Expression.searched_eq,
          termOccurrences_eq]
        exact filterMap_flatMap_congr fun term isTerm =>
          (nested term (by simpa [Node.nested] using isTerm)).term
    | atblock nodes pos =>
      refine ⟨?_, rfl, rfl⟩
      simp only [Node.occurrences, Node.searched, List.filterMap_cons, Node.color?]
      rw [propertyOccurrences_eq, propertiesSearched_eq]
      apply filterMap_flatMap_congr
      intro node isNode
      split
      · exact (nested node isNode).own
      · rfl
    | selector | function | unit | binary | string | rule | wrapper | directive | other =>
      exact ⟨by simp [Node.occurrences, Node.searched, Node.color?], rfl, rfl⟩

/-- The colors that statements declare are those that searched terms are. -/
theorem declaredColors_searched (statements : List Node) :
    declaredColors statements = (searchedTerms false statements).filterMap Node.color? :=
  filterMap_flatMap_congr fun statement _ => (Node.findsColors statement).own

/-! ## Words -/

/-- A name, a color literal or a call. -/
def Node.isWord : Node → Bool
  | .ident .. => true
  | .rgba .. => true
  | .call .. => true
  | _ => false

theorem Node.isWord_of_color?
    {term : Node}
    {occurrence : Occurrence}
    (isColor : term.color? = some occurrence) :
    term.isWord = true := by
  cases Node.color?_eq_some_iff.mp isColor with
  | named | literal | function => rfl

theorem filter_flatMap_sublist
    {α β : Type}
    {items : List α}
    {f g : α → List β}
    {p : β → Bool}
    (members : ∀ item ∈ items, ((f item).filter p).Sublist (g item)) :
    ((items.flatMap f).filter p).Sublist (items.flatMap g) := by
  rw [List.filter_flatMap]
  exact flatMap_sublist members

/-- The words to which a search comes are words of the node: from the node as a term, as a value and
as a declaration. -/
structure Node.SearchesWords (opened : Bool) (node : Node) : Prop where
  term : ((node.searched opened).filter Node.isWord).Sublist node.words
  value : ((node.valueSearched opened).filter Node.isWord).Sublist node.words
  own : ((node.declaredTerms opened).filter Node.isWord).Sublist node.written

theorem Node.searchesWords
    (opened : Bool)
    (node : Node) :
    node.SearchesWords opened := by
  induction node using Node.nested_induction with
  | step node nested =>
    cases node with
    | ident name value pos =>
      refine ⟨?_, List.nil_sublist _, ?_⟩
      · simp only [Node.searched, Node.words]
        exact List.singleton_sublist.mpr (List.mem_cons_self ..)
      · cases value with
        | none => exact List.nil_sublist _
        | some value =>
          simpa [Node.declaredTerms, Node.written, Node.statementWords, Node.optionWords]
            using (nested value (List.mem_singleton_self _)).value
    | rgba color raw pos =>
      refine ⟨?_, List.nil_sublist _, List.nil_sublist _⟩
      simp [Node.searched, Node.words]
    | call name args pos =>
      refine ⟨?_, List.nil_sublist _, List.nil_sublist _⟩
      rw [Node.searched, Node.words, List.filter_cons_of_pos rfl, argumentsSearched_eq, listWords_eq]
      refine List.Sublist.cons_cons _ ?_
      split
      · exact List.nil_sublist _
      · exact filter_flatMap_sublist fun arg isArg => (nested arg isArg).value
    | expression value =>
      obtain ⟨terms, pos⟩ := value
      have inner : (((⟨terms, pos⟩ : Expression).searched opened).filter Node.isWord).Sublist
          (Node.expression ⟨terms, pos⟩).words := by
        rw [Expression.searched_eq, Node.words, Expression.words, listWords_eq]
        exact filter_flatMap_sublist fun term isTerm => (nested term isTerm).term
      refine ⟨?_, inner, List.nil_sublist _⟩
      rw [Node.searched, List.filter_cons_of_neg (by simp [Node.isWord])]
      split
      · exact inner
      · exact List.nil_sublist _
    | object entries pos =>
      refine ⟨?_, List.nil_sublist _, List.nil_sublist _⟩
      rw [Node.searched, Node.words, List.filter_cons_of_neg (by simp [Node.isWord]),
        entriesSearched_eq, entryWords_eq]
      exact filter_flatMap_sublist fun entry isEntry =>
        (nested entry.2 (List.mem_map_of_mem isEntry)).value
    | ternary condition whenTrue whenFalse pos =>
      have branch := nested whenFalse (by simp [Node.nested])
      refine ⟨by simp [Node.searched, Node.isWord], List.nil_sublist _, ?_⟩
      have inner : (((Node.ternary condition whenTrue whenFalse pos).declaredTerms opened).filter
          Node.isWord).Sublist whenFalse.words := by
        cases whenFalse with
        | expression value => exact branch.value
        | ident name value place =>
          cases value with
          | none => exact branch.term
          | some value => exact branch.own.trans (written_suffix _).sublist
        | _ => exact branch.term
      have isPart : whenFalse.words <:+ (Node.ternary condition whenTrue whenFalse pos).written := by
        simp only [Node.written, Node.statementWords, Node.words, List.append_nil]
        rw [← List.append_assoc]
        exact List.suffix_append ..
      exact inner.trans isPart.sublist
    | property name value pos =>
      refine ⟨by simp [Node.searched, Node.isWord], List.nil_sublist _, ?_⟩
      cases value with
      | none => exact List.nil_sublist _
      | some value =>
        obtain ⟨terms, place⟩ := value
        rw [Node.declaredTerms, Expression.searched_eq]
        simp only [Node.written, Node.statementWords, Node.words, Expression.optionWords,
          Expression.words, List.append_nil]
        rw [listWords_eq]
        exact filter_flatMap_sublist fun term isTerm =>
          (nested term (by simpa [Node.nested] using isTerm)).term
    | atblock nodes pos =>
      refine ⟨?_, List.nil_sublist _, List.nil_sublist _⟩
      rw [Node.searched, Node.words, List.filter_cons_of_neg (by simp [Node.isWord]),
        propertiesSearched_eq, statementWords_eq]
      apply filter_flatMap_sublist
      intro node isNode
      split
      · exact (nested node isNode).own
      · exact List.nil_sublist _
    | selector | function | unit | binary | string | rule | wrapper | directive | other =>
      refine ⟨by simp [Node.searched, Node.isWord], List.nil_sublist _, List.nil_sublist _⟩

/-! ## Declarations -/

/-- A node that can declare a value. -/
def Node.isDeclaration : Node → Bool
  | .ident .. => true
  | .property .. => true
  | .ternary .. => true
  | _ => false

/-- What is collected from declarations: words of each, and nothing from another node. -/
structure CollectsWords (f : Node → List Node) : Prop where
  own : ∀ node, (f node).Sublist node.written
  silent : ∀ node, node.isDeclaration = false → f node = []

section Declarations

variable {f : Node → List Node}

theorem CollectsWords.flatMap_cons
    (collects : CollectsWords f)
    {node : Node}
    (noDeclaration : node.isDeclaration = false)
    (rest : List Node) :
    (node :: rest).flatMap f = rest.flatMap f := by
  rw [List.flatMap_cons, collects.silent node noDeclaration, List.nil_append]

theorem optionWords_eq (body : Option Node) :
    Node.optionWords body = body.toList.flatMap Node.words := by
  cases body <;> simp [Node.optionWords]

theorem bodyStatements_eq (body : Option Node) :
    bodyStatements body = body.toList.flatMap Node.statements := by
  cases body <;> simp [bodyStatements]

/-- What is collected from the declarations in a statement is among its words. -/
theorem CollectsWords.statements_written
    (collects : CollectsWords f)
    (node : Node) :
    (node.statements.flatMap f).Sublist node.written := by
  induction node using Node.nested_induction with
  | step node nested =>
    have nodesWords : ∀ nodes : List Node, (∀ inner ∈ nodes, inner ∈ node.nested) →
        ((listStatements nodes).flatMap f).Sublist (Node.statementWords nodes) := by
      intro nodes areNested
      rw [listStatements_eq, statementWords_eq, List.flatMap_assoc]
      exact flatMap_sublist fun inner isIn => nested inner (areNested inner isIn)
    have bodyWords : ∀ body : Option Node, (∀ inner ∈ body.toList, inner ∈ node.nested) →
        ((bodyStatements body).flatMap f).Sublist (Node.optionWords body) := by
      intro body isNested
      rw [bodyStatements_eq, optionWords_eq, List.flatMap_assoc]
      exact flatMap_sublist fun inner isIn =>
        (nested inner (isNested inner isIn)).trans (written_suffix inner).sublist
    cases node with
    | directive kind text body pos =>
      have inner := bodyWords body fun _ isIn => isIn
      have whole : (Node.directive kind text body pos).written = Node.optionWords body := by
        simp [Node.written, Node.statementWords, Node.words]
      rw [whole]
      cases kind with
      | keyframes =>
        rw [Node.statements, collects.flatMap_cons rfl]
        exact List.nil_sublist _
      | _ =>
        rw [Node.statements, collects.flatMap_cons rfl]
        · exact inner
        · intro isKeyframes
          cases isKeyframes
    | selector head body | function name params body pos =>
      rw [Node.statements, collects.flatMap_cons rfl]
      simpa [Node.written, Node.statementWords, Node.words] using bodyWords body fun _ isIn => isIn
    | expression value =>
      obtain ⟨terms, pos⟩ := value
      rw [Node.statements, collects.flatMap_cons rfl, Expression.statements]
      have inner := nodesWords terms fun _ isIn => isIn
      simpa [Node.written, Node.statementWords, Node.words, Expression.words]
        using inner.trans (statementWords_sublist terms)
    | atblock nodes pos =>
      rw [Node.statements, collects.flatMap_cons rfl]
      simpa [Node.written, Node.statementWords, Node.words] using nodesWords nodes fun _ isIn => isIn
    | rule selectors body pos =>
      have inner := (nested body (List.mem_singleton_self _)).trans (written_suffix body).sublist
      have silent : ∀ heads : List Selector,
          (heads.map fun head => Node.selector head (some body)).flatMap f = [] := by
        intro heads
        rw [List.flatMap_eq_nil_iff]
        intro node isHead
        obtain ⟨head, _, rfl⟩ := List.mem_map.mp isHead
        exact collects.silent _ rfl
      have whole : (Node.rule selectors body pos).written = body.words := by
        simp [Node.written, Node.statementWords, Node.words]
      rw [whole, Node.statements]
      cases selectors with
      | nil => exact inner
      | cons head rest =>
        simp only [List.map_cons, List.cons_append]
        rw [collects.flatMap_cons rfl, List.flatMap_append, silent, List.append_nil]
        exact inner
    | wrapper kind nodes body pos =>
      have whole : (Node.wrapper kind nodes body pos).written =
          Node.statementWords nodes ++ Node.optionWords body := by
        simp [Node.written, Node.statementWords, Node.words]
      rw [whole, Node.statements]
      split
      · rw [collects.flatMap_cons rfl]
        exact List.nil_sublist _
      · rw [List.flatMap_append]
        exact (nodesWords nodes fun _ isIn => List.mem_append_left _ isIn).append
          (bodyWords body fun _ isIn => List.mem_append_right _ isIn)
    | ident | property | ternary | call | rgba | unit | binary | string | object | other =>
      simp only [Node.statements, List.flatMap_cons, List.flatMap_nil, List.append_nil]
      exact collects.own _

/-- What is collected from declarations in a tree is among its words. -/
theorem CollectsWords.statements
    (collects : CollectsWords f)
    (node : Node) :
    (node.statements.flatMap f).Sublist node.words :=
  (collects.statements_written node).trans (written_suffix node).sublist

end Declarations

/-- The words to which a search comes in a tree are words of the tree. -/
theorem searchedTerms_words
    (opened : Bool)
    (tree : Node) :
    ((searchedTerms opened tree.statements).filter Node.isWord).Sublist tree.words := by
  rw [searchedTerms, List.filter_flatMap]
  refine CollectsWords.statements ⟨fun node => (Node.searchesWords opened node).own, ?_⟩ tree
  intro node noDeclaration
  cases node with
  | ident | property | ternary => cases noDeclaration
  | _ => rfl

/-- A searched term that is a color is a word of the tree. -/
theorem searched_mem_words
    {tree term : Node}
    (isSearched : term ∈ searchedTerms false tree.statements)
    {occurrence : Occurrence}
    (isColor : term.color? = some occurrence) :
    term ∈ tree.words :=
  (searchedTerms_words false tree).subset
    (List.mem_filter.mpr ⟨isSearched, Node.isWord_of_color? isColor⟩)

end StyleSense
