import StyleSense.Completion
import StyleSense.Proofs.Swatch.Collection

/-!
Contract: a tree tells the same whether or not the selectors of a rule share their body.

In a tree that shares no body, a body is walked once under each selector of its rule and once more
under the rule, and so are the bodies in it. Whatever is found there a second time has a key that is
known, so keeping the first of equal keys gives what the walk over shared bodies gives.

Owns:
- `Node.KeepsColors`, that making bodies separate keeps the colors of a value;
- `Node.statements_unshare`: for a view of statements that is blind to sharing, the first of equal
  keys are the same;
- `Sheet.unshare_same`, the result for symbols, colors and completions.

Does not own: keeping the first of equal keys (`StyleSense.Distinct`).
-/

namespace StyleSense

/-! ## Lists -/

theorem unshareList_eq (nodes : List Node) : Node.unshareList nodes = nodes.map Node.unshare := by
  induction nodes with
  | nil => rfl
  | cons node rest inductionHypothesis => rw [Node.unshareList, inductionHypothesis, List.map_cons]

theorem unshareEntries_eq (entries : List (String × Node)) :
    Node.unshareEntries entries = entries.map fun entry => (entry.1, entry.2.unshare) := by
  induction entries with
  | nil => rfl
  | cons entry rest inductionHypothesis =>
    rw [Node.unshareEntries, inductionHypothesis, List.map_cons]

theorem unshareSelectors_eq (heads : List Selector) :
    Selector.unshareList heads = heads.map Selector.unshare := by
  induction heads with
  | nil => rfl
  | cons head rest inductionHypothesis =>
    rw [Selector.unshareList, inductionHypothesis, List.map_cons]

theorem flatMap_unshareList
    {β : Type}
    {view : Node → List β}
    {nodes : List Node}
    (blind : ∀ node ∈ nodes, view node.unshare = view node) :
    (Node.unshareList nodes).flatMap view = nodes.flatMap view := by
  rw [unshareList_eq, List.flatMap_map, List.flatMap_def, List.flatMap_def]
  exact congrArg List.flatten (List.map_congr_left blind)

/-! ## Values -/

theorem channel?_unshare (node : Node) : Node.channel? node.unshare = Node.channel? node := by
  cases node <;> simp only [Node.unshare, Node.channel?]

theorem channels?_unshare (node : Node) : Node.channels? node.unshare = Node.channels? node := by
  cases node with
  | binary op left right pos => simp only [Node.unshare, Node.channels?, channel?_unshare]
  | _ => simp only [Node.unshare, Node.channels?, Node.channel?]

theorem argumentTerms_unshare (node : Node) :
    Node.argumentTerms node.unshare = node.argumentTerms.map Node.unshare := by
  cases node with
  | expression value =>
    obtain ⟨terms, pos⟩ := value
    simp only [Node.unshare, Expression.unshare, Node.argumentTerms, unshareList_eq]
  | _ => simp only [Node.unshare, Node.argumentTerms, List.map_nil]

theorem literalChannels?_unshare (args : List Node) :
    literalChannels? (args.map Node.unshare) = literalChannels? args := by
  have terms : ∀ arg : Node, (Node.argumentTerms arg.unshare).mapM Node.channels? =
      (Node.argumentTerms arg).mapM Node.channels? := by
    intro arg
    rw [argumentTerms_unshare, List.mapM_map, Function.comp_def]
    simp only [channels?_unshare]
  have first : ∀ arg : Node, ((Node.argumentTerms arg.unshare).head?.bind Node.channel?) =
      (Node.argumentTerms arg).head?.bind Node.channel? := by
    intro arg
    rw [argumentTerms_unshare]
    cases Node.argumentTerms arg with
    | nil => rfl
    | cons term rest => exact channel?_unshare term
  match args with
  | [] => rfl
  | [single] => simp only [List.map_cons, List.map_nil, literalChannels?, terms]
  | one :: two :: others =>
    simp only [List.map_cons, literalChannels?, List.mapM_cons, List.mapM_map, Function.comp_def,
      first]

theorem Node.isProperty_unshare (node : Node) : node.unshare.isProperty = node.isProperty := by
  cases node <;> simp only [Node.unshare, Node.isProperty]

/-- The colors of a node stay the same when its bodies are made separate: those of the node as a
term, as a value and as a declaration. -/
structure Node.KeepsColors (node : Node) : Prop where
  term : node.unshare.occurrences = node.occurrences
  value : node.unshare.valueOccurrences = node.valueOccurrences
  own : node.unshare.declaredColors = node.declaredColors

mutual

theorem Node.keepsColors : ∀ node : Node, node.KeepsColors
  | .ident name value pos => by
    refine ⟨by simp only [Node.unshare, Node.occurrences],
      by simp only [Node.unshare, valueOccurrences], ?_⟩
    cases value with
    | none => simp only [Node.unshare, Node.unshareOption]
    | some value =>
      simp only [Node.unshare, Node.unshareOption, Node.declaredColors]
      exact (Node.keepsColors value).value
  | .call name args pos => by
    have members := Node.keepsColors_list args
    refine ⟨?_, by simp only [Node.unshare, valueOccurrences],
      by simp only [Node.unshare, declaredColors]⟩
    have values := flatMap_unshareList fun arg isArg => (members arg isArg).value
    simp only [Node.unshare, Node.occurrences, argumentOccurrences_eq]
    rw [values, unshareList_eq, literalChannels?_unshare]
  | .expression ⟨terms, pos⟩ => by
    have members := Node.keepsColors_list terms
    refine ⟨by simp only [Node.unshare, Node.occurrences], ?_,
      by simp only [Node.unshare, declaredColors]⟩
    simp only [Node.unshare, Expression.unshare, Node.valueOccurrences, Expression.occurrences,
      termOccurrences_eq]
    exact flatMap_unshareList fun term isTerm => (members term isTerm).term
  | .object entries pos => by
    have members := Node.keepsColors_entries entries
    refine ⟨?_, by simp only [Node.unshare, valueOccurrences],
      by simp only [Node.unshare, declaredColors]⟩
    simp only [Node.unshare, Node.occurrences, entryOccurrences_eq, unshareEntries_eq,
      List.flatMap_def, List.map_map]
    apply congrArg List.flatten
    exact List.map_congr_left fun entry isEntry => (members entry isEntry).value
  | .ternary condition whenTrue whenFalse pos => by
    have branch := Node.keepsColors whenFalse
    refine ⟨by simp only [Node.unshare, Node.occurrences],
      by simp only [Node.unshare, valueOccurrences], ?_⟩
    cases whenFalse with
    | expression value => exact branch.value
    | ident name value place =>
      cases value with
      | none => exact branch.term
      | some value => exact branch.own
    | _ => exact branch.term
  | .property name none pos => by
    constructor <;> simp only [Node.unshare, Node.occurrences, valueOccurrences, declaredColors,
      Expression.unshareOption]
  | .property name (some ⟨terms, place⟩) pos => by
    have members := Node.keepsColors_list terms
    refine ⟨by simp only [Node.unshare, Node.occurrences],
      by simp only [Node.unshare, valueOccurrences], ?_⟩
    simp only [Node.unshare, Expression.unshareOption, Expression.unshare, Node.declaredColors,
      Expression.occurrences, termOccurrences_eq]
    exact flatMap_unshareList fun term isTerm => (members term isTerm).term
  | .atblock nodes pos => by
    have members := Node.keepsColors_list nodes
    refine ⟨?_, by simp only [Node.unshare, valueOccurrences],
      by simp only [Node.unshare, declaredColors]⟩
    simp only [Node.unshare, Node.occurrences, propertyOccurrences_eq]
    apply flatMap_unshareList
    intro node isNode
    rw [Node.isProperty_unshare, (members node isNode).own]
  | .selector .. | .function .. | .rgba .. | .unit .. | .binary .. | .string .. | .rule ..
  | .wrapper .. | .directive .. | .other => by
    constructor <;> simp only [Node.unshare, Node.occurrences, valueOccurrences, declaredColors]

theorem Node.keepsColors_list : ∀ nodes : List Node, ∀ node ∈ nodes, node.KeepsColors
  | [] => fun _ isIn => nomatch isIn
  | first :: rest => by
    intro node isIn
    rcases List.mem_cons.mp isIn with same | isLater
    · rw [same]
      exact Node.keepsColors first
    · exact Node.keepsColors_list rest node isLater

theorem Node.keepsColors_entries :
    ∀ entries : List (String × Node), ∀ entry ∈ entries, entry.2.KeepsColors
  | [] => fun _ isIn => nomatch isIn
  | (key, value) :: rest => by
    intro entry isIn
    rcases List.mem_cons.mp isIn with same | isLater
    · rw [same]
      exact Node.keepsColors value
    · exact Node.keepsColors_entries rest entry isLater

end

/-! ## Symbols -/

theorem Node.pos_unshare (node : Node) : node.unshare.pos = node.pos := by
  cases node with
  | selector head body =>
    obtain ⟨segments, pos⟩ := head
    simp only [Node.unshare, Selector.unshare, Node.pos]
  | expression value =>
    obtain ⟨terms, pos⟩ := value
    simp only [Node.unshare, Expression.unshare, Node.pos]
  | _ => simp only [Node.unshare, Node.pos]

theorem selectorName_unshare (segments : List Segment) :
    selectorName (Segment.unshareList segments) = selectorName segments := by
  have named : ∀ node : Node, Node.interpolatedName? node.unshare = Node.interpolatedName? node := by
    intro node
    cases node <;> simp only [Node.unshare, Node.interpolatedName?]
  have names : ∀ (text : Option String) (line : Nat) (nodes : List Node),
      Segment.name ⟨text, line, Node.unshareList nodes⟩ = Segment.name ⟨text, line, nodes⟩ := by
    intro text line nodes
    cases text with
    | some text => rfl
    | none =>
      simp only [Segment.name, unshareList_eq, List.filterMap_map, Function.comp_def, named]
  induction segments with
  | nil => rfl
  | cons segment rest inductionHypothesis =>
    obtain ⟨text, line, nodes⟩ := segment
    simp only [selectorName] at inductionHypothesis
    simp only [Segment.unshareList, selectorName, List.map_cons, String.join_cons, names,
      inductionHypothesis]

theorem Node.symbolKind?_unshare (node : Node) : node.unshare.symbolKind? = node.symbolKind? := by
  cases node with
  | ident name value pos =>
    cases value with
    | none => simp only [Node.unshare, Node.unshareOption]
    | some value =>
      cases value <;> simp only [Node.unshare, Node.unshareOption, Node.symbolKind?]
  | _ => simp only [Node.unshare, Node.symbolKind?]

theorem Node.symbol?_unshare
    (document : Document)
    (node : Node) :
    node.unshare.symbol? document = node.symbol? document := by
  have kinds := Node.symbolKind?_unshare node
  have places := Node.pos_unshare node
  cases node with
  | ident name value pos =>
    cases value with
    | none => simp only [Node.unshare, Node.unshareOption]
    | some value =>
      have inner := Node.pos_unshare value
      simp only [Node.unshare, Node.unshareOption] at kinds
      simp only [Node.unshare, Node.unshareOption, Node.symbol?, declarationLine, inner, kinds]
  | selector head body =>
    obtain ⟨segments, pos⟩ := head
    simp only [Node.unshare, Selector.unshare, Node.symbol?, Node.symbolKind?, selectorName_unshare]
  | rgba | unit | string | other => simp only [Node.unshare]
  | _ =>
    simp only [Node.unshare] at kinds places ⊢
    simp only [Node.symbol?, kinds, places]

/-! ## Statements -/

section Statements

variable {β κ : Type} [DecidableEq κ] (key : β → κ)

/-- After a body is known, its repetitions add nothing. -/
theorem keepFirst_repeated
    {known body : List β}
    (isKnown : body.map key ⊆ known.map key)
    (heads : List (List β)) :
    keepFirst key (known ++ heads.flatMap (· ++ body) ++ body) =
      keepFirst key (known ++ heads.flatten) := by
  induction heads generalizing known with
  | nil =>
    rw [List.flatMap_nil, List.flatten_nil, List.append_nil]
    exact keepFirst_append_of_subset isKnown
  | cons head rest inductionHypothesis =>
    have stillKnown : body.map key ⊆ (known ++ head).map key := by
      rw [List.map_append]
      exact List.subset_append_of_subset_left _ isKnown
    have here : keepFirst key (known ++ head ++ body) = keepFirst key (known ++ head) :=
      keepFirst_append_of_subset stillKnown
    have knownAfter : body.map key ⊆ (known ++ head ++ body).map key := by
      rw [List.map_append]
      exact List.subset_append_right ..
    calc keepFirst key (known ++ (head :: rest).flatMap (· ++ body) ++ body)
      _ = keepFirst key (known ++ head ++ body ++ rest.flatMap (· ++ body) ++ body) := by
        simp only [List.flatMap_cons, List.append_assoc]
      _ = keepFirst key (known ++ head ++ body ++ rest.flatten) := inductionHypothesis knownAfter
      _ = keepFirst key (known ++ head ++ rest.flatten) := keepFirst_append_congr here rfl
      _ = keepFirst key (known ++ (head :: rest).flatten) := by
        rw [List.flatten_cons, List.append_assoc]

variable {view : Node → List β}

theorem keepFirst_rule
    (blind : ∀ node : Node, view node.unshare = view node)
    (selectors : List Selector)
    {body : Node}
    (bodies : keepFirst key (body.unshare.statements.flatMap view) =
      keepFirst key (body.statements.flatMap view))
    (pos : SourcePos) :
    keepFirst key ((Node.rule selectors body pos).unshare.statements.flatMap view) =
      keepFirst key ((Node.rule selectors body pos).statements.flatMap view) := by
  let own := body.unshare.statements.flatMap view
  let headView (head : Selector) : List β := view (.selector head (some body))
  have heads : ∀ head : Selector, view (.selector head.unshare (some body.unshare)) = headView head :=
    fun head => blind (.selector head (some body))
  have separate : (Node.rule selectors body pos).unshare.statements.flatMap view =
      (selectors.map headView).flatMap (· ++ own) ++ own := by
    simp only [Node.unshare, Node.statements, Option.isNone_some, Bool.and_false, Bool.false_eq_true,
      if_false, bodyStatements, List.flatMap_append, listStatements_eq, unshareSelectors_eq,
      List.map_map, List.flatMap_map, List.flatMap_assoc, Function.comp_apply, List.flatMap_cons,
      heads]
    rfl
  rw [separate]
  cases selectors with
  | nil => exact bodies
  | cons head rest =>
    have shared : (Node.rule (head :: rest) body pos).statements.flatMap view =
        headView head ++ body.statements.flatMap view ++ (rest.map headView).flatten := by
      simp only [Node.statements, List.map_cons, List.cons_append, List.flatMap_cons,
        List.flatMap_append, List.append_assoc, List.flatMap_map, ← List.flatMap_def]
      rfl
    have isKnown : own.map key ⊆ (headView head ++ own).map key := by
      rw [List.map_append]
      exact List.subset_append_right ..
    rw [shared, List.map_cons, List.flatMap_cons, keepFirst_repeated key isKnown]
    exact keepFirst_append_congr (keepFirst_append_congr rfl bodies) rfl

mutual

/-- The first of equal keys among the statements of a tree do not depend on the sharing of bodies. -/
theorem Node.statements_unshare (blind : ∀ node : Node, view node.unshare = view node) :
    ∀ node : Node,
    keepFirst key (node.unshare.statements.flatMap view) =
      keepFirst key (node.statements.flatMap view)
  | .directive kind text body pos => by
    have head := blind (.directive kind text body pos)
    have inner := bodyStatements_unshare blind body
    simp only [Node.unshare] at head ⊢
    cases kind with
    | keyframes => simp only [Node.statements, List.flatMap_cons, head, List.flatMap_nil]
    | _ =>
      simp only [Node.statements, List.flatMap_cons, head]
      exact keepFirst_append_congr rfl inner
  | .selector head body => by
    have first := blind (.selector head body)
    have inner := bodyStatements_unshare blind body
    simp only [Node.unshare] at first ⊢
    simp only [Node.statements, List.flatMap_cons, first]
    exact keepFirst_append_congr rfl inner
  | .function name params body pos => by
    have head := blind (.function name params body pos)
    have inner := bodyStatements_unshare blind body
    simp only [Node.unshare] at head ⊢
    simp only [Node.statements, List.flatMap_cons, head]
    exact keepFirst_append_congr rfl inner
  | .expression ⟨terms, pos⟩ => by
    have head := blind (.expression ⟨terms, pos⟩)
    have inner := listStatements_unshare blind terms
    simp only [Node.unshare, Expression.unshare] at head ⊢
    simp only [Node.statements, Expression.statements, List.flatMap_cons, head]
    exact keepFirst_append_congr rfl inner
  | .atblock nodes pos => by
    have head := blind (.atblock nodes pos)
    have inner := listStatements_unshare blind nodes
    simp only [Node.unshare] at head ⊢
    simp only [Node.statements, List.flatMap_cons, head]
    exact keepFirst_append_congr rfl inner
  | .rule selectors body pos =>
    keepFirst_rule key blind selectors (Node.statements_unshare blind body) pos
  | .wrapper kind nodes body pos => by
    have alone := blind (.wrapper kind nodes body pos)
    have members := listStatements_unshare blind nodes
    have inner := bodyStatements_unshare blind body
    have sameNodes : (Node.unshareList nodes).isEmpty = nodes.isEmpty := by
      rw [unshareList_eq, List.isEmpty_map]
    have sameBody : (Node.unshareOption body).isNone = body.isNone := by
      cases body <;> simp only [Node.unshareOption, Option.isNone_none, Option.isNone_some]
    simp only [Node.unshare] at alone ⊢
    simp only [Node.statements, sameNodes, sameBody]
    split
    · simp only [List.flatMap_cons, alone, List.flatMap_nil]
    · rw [List.flatMap_append, List.flatMap_append]
      exact keepFirst_append_congr members inner
  | .ident name value pos => by
    have head := blind (.ident name value pos)
    simp only [Node.unshare] at head ⊢
    simp only [Node.statements, List.flatMap_cons, head, List.flatMap_nil]
  | .call name args pos => by
    have head := blind (.call name args pos)
    simp only [Node.unshare] at head ⊢
    simp only [Node.statements, List.flatMap_cons, head, List.flatMap_nil]
  | .binary op left right pos => by
    have head := blind (.binary op left right pos)
    simp only [Node.unshare] at head ⊢
    simp only [Node.statements, List.flatMap_cons, head, List.flatMap_nil]
  | .object entries pos => by
    have head := blind (.object entries pos)
    simp only [Node.unshare] at head ⊢
    simp only [Node.statements, List.flatMap_cons, head, List.flatMap_nil]
  | .ternary condition whenTrue whenFalse pos => by
    have head := blind (.ternary condition whenTrue whenFalse pos)
    simp only [Node.unshare] at head ⊢
    simp only [Node.statements, List.flatMap_cons, head, List.flatMap_nil]
  | .property name value pos => by
    have head := blind (.property name value pos)
    simp only [Node.unshare] at head ⊢
    simp only [Node.statements, List.flatMap_cons, head, List.flatMap_nil]
  | .rgba .. | .unit .. | .string .. | .other => by simp only [Node.unshare]

theorem bodyStatements_unshare (blind : ∀ node : Node, view node.unshare = view node) :
    ∀ body : Option Node,
    keepFirst key ((bodyStatements (Node.unshareOption body)).flatMap view) =
      keepFirst key ((bodyStatements body).flatMap view)
  | none => by simp only [Node.unshareOption]
  | some node => by
    simp only [Node.unshareOption, bodyStatements]
    exact Node.statements_unshare blind node

theorem listStatements_unshare (blind : ∀ node : Node, view node.unshare = view node) :
    ∀ nodes : List Node,
    keepFirst key ((listStatements (Node.unshareList nodes)).flatMap view) =
      keepFirst key ((listStatements nodes).flatMap view)
  | [] => by simp only [Node.unshareList]
  | node :: rest => by
    simp only [Node.unshareList, listStatements, List.flatMap_append]
    exact keepFirst_append_congr (Node.statements_unshare blind node)
      (listStatements_unshare blind rest)

end

end Statements

/-! ## Sheets -/

theorem filterMap_eq_flatMap
    {α β : Type}
    (view : α → Option β)
    (items : List α) :
    items.filterMap view = items.flatMap fun item => (view item).toList := by
  induction items with
  | nil => rfl
  | cons item rest inductionHypothesis =>
    rw [List.filterMap_cons, List.flatMap_cons, inductionHypothesis]
    cases view item <;> rfl

theorem Document.outline_unshare
    (document : Document)
    (tree : Node) :
    document.outline tree.unshare = document.outline tree := by
  let view (node : Node) : List Symbol := (node.symbol? document).toList
  have blind : ∀ node : Node, view node.unshare = view node := by
    intro node
    simp only [view, Node.symbol?_unshare]
  have same := Node.statements_unshare Symbol.key blind tree
  simp only [Document.outline, Document.symbols, filterMap_eq_flatMap]
  exact same

theorem Document.colors_unshare
    (document : Document)
    (tree : Node) :
    document.colors tree.unshare = document.colors tree := by
  let view (node : Node) : List ColorEntry :=
    node.declaredColors.filterMap (Occurrence.entry? document)
  have blind : ∀ node : Node, view node.unshare = view node := by
    intro node
    simp only [view, (Node.keepsColors node).own]
  have same := Node.statements_unshare (fun entry : ColorEntry => entry.range.start) blind tree
  simp only [Document.colors, Document.entries, declaredColors, List.filterMap_flatMap]
  exact same

theorem Document.candidates_unshare
    (document : Document)
    (tree : Node) :
    document.symbols tree.unshare.candidates = document.symbols tree.candidates := by
  let view (node : Node) : List Symbol :=
    (if !node.isProperty && !node.isDirective then node.symbol? document else none).toList
  have blind : ∀ node : Node, view node.unshare = view node := by
    intro node
    have sameDirective : node.unshare.isDirective = node.isDirective := by
      cases node <;> simp only [Node.unshare, Node.isDirective]
    simp only [view, Node.isProperty_unshare, sameDirective, Node.symbol?_unshare]
  have same := Node.statements_unshare Symbol.key blind tree
  simp only [Document.symbols, Node.candidates, List.filterMap_filter]
  rw [filterMap_eq_flatMap, filterMap_eq_flatMap]
  exact same

/-- Symbols, colors and completions of a text are those of the same tree with a separate body for
every selector and for every rule. -/
theorem Sheet.unshare_same (text : List Char) :
    let shared := Sheet.ofText text
    let separate := Sheet.ofTree text shared.tree.unshare
    separate.symbols = shared.symbols ∧ separate.colors = shared.colors ∧
      separate.symbolItems = shared.symbolItems := by
  intro shared separate
  refine ⟨Document.outline_unshare .., Document.colors_unshare .., ?_⟩
  have candidates := Document.candidates_unshare shared.document shared.tree
  exact congrArg (List.map (Symbol.item shared.document)) candidates

end StyleSense
