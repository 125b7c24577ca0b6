import StyleSense.Proofs.Expression.Closing
import StyleSense.Proofs.Statement.Inline
import StyleSense.Proofs.Swatch.Order

/-!
Contract: parentheses hide the colors in them.

The search for colors does not go into a group in parentheses.

Owns:
- `Document.found`, the entries that a search finds which opens groups or passes them by;
- `Node.hidesGroups`: a search that passes groups by finds less exactly when a group to which it comes
  holds something;
- `parse_groups_hide_colors`, the result for documents, in which an assignment of a value in
  parentheses has no colors at all.

Does not own: what a search finds outside of groups (`StyleSense.Proofs.Swatch.Reported`).
-/

namespace StyleSense

open Text

/-! ## Two searches -/

theorem append_eq_append_iff_of_sublist
    {α : Type}
    {left left' right right' : List α}
    (lefts : left.Sublist left')
    (rights : right.Sublist right') :
    left ++ right = left' ++ right' ↔ left = left' ∧ right = right' := by
  constructor
  · intro same
    have lengths := congrArg List.length same
    rw [List.length_append, List.length_append] at lengths
    have leftLength := lefts.length_le
    have rightLength := rights.length_le
    exact ⟨lefts.eq_of_length (by omega), rights.eq_of_length (by omega)⟩
  · rintro ⟨rfl, rfl⟩
    rfl

/-- A value in parentheses. -/
def Node.isGroup : Node → Bool
  | .expression _ => true
  | _ => false

/-- A search that passes groups by finds what one that opens them finds, less what groups hold. -/
structure Hides {α : Type} (f : Node → Option α) (passing opening : List Node) : Prop where
  part : (passing.filterMap f).Sublist (opening.filterMap f)
  same_iff : passing.filterMap f = opening.filterMap f ↔
    ∀ value, .expression value ∈ passing → (value.searched true).filterMap f = []

namespace Hides

variable {α : Type} {f : Node → Option α} {passing passing' opening opening' : List Node}

theorem nil : Hides f [] [] :=
  ⟨List.Sublist.refl _, ⟨fun _ _ isIn => absurd isIn List.not_mem_nil, fun _ => rfl⟩⟩

theorem append
    (first : Hides f passing opening)
    (second : Hides f passing' opening') :
    Hides f (passing ++ passing') (opening ++ opening') := by
  constructor
  · rw [List.filterMap_append, List.filterMap_append]
    exact first.part.append second.part
  · rw [List.filterMap_append, List.filterMap_append,
      append_eq_append_iff_of_sublist first.part second.part, first.same_iff, second.same_iff]
    simp only [List.mem_append]
    constructor
    · rintro ⟨firsts, seconds⟩ value (isFirst | isSecond)
      · exact firsts value isFirst
      · exact seconds value isSecond
    · intro all
      exact ⟨fun value isIn => all value (.inl isIn), fun value isIn => all value (.inr isIn)⟩

/-- A term that is no group. -/
theorem cons
    {term : Node}
    (noGroup : term.isGroup = false)
    (rest : Hides f passing opening) :
    Hides f (term :: passing) (term :: opening) := by
  have alone : Hides f [term] [term] := by
    refine ⟨List.Sublist.refl _, ⟨fun _ value isTerm => ?_, fun _ => rfl⟩⟩
    rw [← List.mem_singleton.mp isTerm] at noGroup
    cases noGroup
  exact alone.append rest

theorem group
    {value : Expression}
    (noItem : f (.expression value) = none) :
    Hides f [.expression value] (.expression value :: value.searched true) := by
  constructor
  · rw [List.filterMap_cons_none noItem]
    exact List.nil_sublist _
  · rw [List.filterMap_cons_none noItem, List.filterMap_cons_none noItem]
    constructor
    · intro same inner isIn
      obtain rfl := Node.expression.inj (List.mem_singleton.mp isIn)
      exact same.symm
    · intro all
      exact (all value (List.mem_singleton_self _)).symm

theorem flatMap
    {β : Type}
    {items : List β}
    {g h : β → List Node}
    (members : ∀ item ∈ items, Hides f (g item) (h item)) :
    Hides f (items.flatMap g) (items.flatMap h) := by
  induction items with
  | nil => exact nil
  | cons item rest inductionHypothesis =>
    obtain ⟨here, later⟩ := List.forall_mem_cons.mp members
    rw [List.flatMap_cons, List.flatMap_cons]
    exact here.append (inductionHypothesis later)

end Hides

/-- What the two searches find from a node on: from the node as a term, as a value and as a
declaration. -/
structure Node.HidesGroups {α : Type} (f : Node → Option α) (node : Node) : Prop where
  term : Hides f (node.searched false) (node.searched true)
  value : Hides f (node.valueSearched false) (node.valueSearched true)
  own : Hides f (node.declaredTerms false) (node.declaredTerms true)

theorem Node.hidesGroups
    {α : Type}
    {f : Node → Option α}
    (noGroup : ∀ value, f (.expression value) = none)
    (node : Node) :
    node.HidesGroups f := by
  induction node using Node.nested_induction with
  | step node nested =>
    cases node with
    | ident name value pos =>
      refine ⟨?_, .nil, ?_⟩
      · simp only [Node.searched]
        exact .cons rfl .nil
      · cases value with
        | none => exact .nil
        | some value => exact (nested value (List.mem_singleton_self _)).value
    | call name args pos =>
      refine ⟨?_, .nil, .nil⟩
      rw [Node.searched, Node.searched]
      refine .cons rfl ?_
      split
      · exact .nil
      · rw [argumentsSearched_eq, argumentsSearched_eq]
        exact .flatMap fun arg isArg => (nested arg isArg).value
    | expression value =>
      obtain ⟨terms, pos⟩ := value
      refine ⟨?_, ?_, .nil⟩
      · simpa [Node.searched] using Hides.group (noGroup ⟨terms, pos⟩)
      · rw [Node.valueSearched, Node.valueSearched, Expression.searched_eq, Expression.searched_eq]
        exact .flatMap fun term isTerm => (nested term isTerm).term
    | object entries pos =>
      refine ⟨?_, .nil, .nil⟩
      rw [Node.searched, Node.searched, entriesSearched_eq, entriesSearched_eq]
      exact .cons rfl (.flatMap fun entry isEntry =>
        (nested entry.2 (List.mem_map_of_mem isEntry)).value)
    | ternary condition whenTrue whenFalse pos =>
      have branch := nested whenFalse (by simp [Node.nested])
      refine ⟨?_, .nil, ?_⟩
      · simp only [Node.searched]
        exact .cons rfl .nil
      · cases whenFalse with
        | expression value => exact branch.value
        | ident name value place =>
          cases value with
          | none => exact branch.term
          | some value => exact branch.own
        | _ => exact branch.term
    | property name value pos =>
      refine ⟨?_, .nil, ?_⟩
      · simp only [Node.searched]
        exact .cons rfl .nil
      · cases value with
        | none => exact .nil
        | some value =>
          rw [Node.declaredTerms, Node.declaredTerms, Expression.searched_eq, Expression.searched_eq]
          exact .flatMap fun term isTerm =>
            (nested term (by simpa [Node.nested] using isTerm)).term
    | atblock nodes pos =>
      refine ⟨?_, .nil, .nil⟩
      rw [Node.searched, Node.searched, propertiesSearched_eq, propertiesSearched_eq]
      refine .cons rfl (.flatMap fun node isNode => ?_)
      split
      · exact (nested node isNode).own
      · exact .nil
    | selector | function | rgba | unit | binary | string | rule | wrapper | directive | other =>
      refine ⟨?_, .nil, .nil⟩
      simp only [Node.searched]
      exact .cons rfl .nil

/-! ## Documents -/

/-- The entry of a term that is a color itself. -/
def Node.entry? (document : Document) (term : Node) : Option ColorEntry :=
  term.color?.bind (Occurrence.entry? document)

/-- The entries that a search finds in a tree. -/
def Document.found (document : Document) (opened : Bool) (tree : Node) : List ColorEntry :=
  (searchedTerms opened tree.statements).filterMap (Node.entry? document)

theorem parse_colors_eq_found
    {text : List Char}
    {tree : Node}
    (parsed : Node.parse text = .ok tree) :
    (Sheet.ofText text).colors = (Document.ofText text).found false tree := by
  rw [parse_colors_eq parsed, declaredColors_searched, Document.found, List.filterMap_filterMap]
  rfl

theorem colors_of_error
    {text : List Char}
    {error : ParseError}
    (failed : Node.parse text = .error error) :
    (Sheet.ofText text).colors = [] := by
  rw [Sheet.colors, Sheet.tree, Sheet.ofText, failed]
  rfl

/-- The text is one assignment. The tokens of its value are a parenthesis, those of another value, and
the closing parenthesis. -/
inductive AssignsGroup (text : List Char) : Prop
  | intro {line : Line} {name value : List Char} {opening closing : Token} {inside : List Token}
      {nodes : List Node}
      (scanned : scanLines text = .ok [line])
      (isValue : isValueLine line.head.text = true)
      (found : Pattern.assignment? line.head.text = some (name, value))
      (tokenized : line.tokensOf value = .ok (opening :: (inside ++ [closing])))
      (isOpening : opening.kind = .opening .round)
      (isClosing : closing.kind = .closing .round)
      (read : Expression.readTerms inside = .ok nodes) :
      AssignsGroup text

/-- An assignment of a value in parentheses has no colors, whatever the value. -/
theorem AssignsGroup.colors_eq_nil
    {text : List Char}
    (assigns : AssignsGroup text) :
    (Sheet.ofText text).colors = [] := by
  obtain ⟨scanned, isValue, found, tokenized, isOpening, isClosing, read⟩ := assigns
  have parsed := Node.parse_assignment scanned isValue found
  rw [tokenized] at parsed
  simp only [bind, Except.bind, Expression.read] at parsed
  generalize wholeEq : Expression.readTerms _ = whole at parsed
  cases whole with
  | error error => exact colors_of_error parsed
  | ok terms =>
    obtain ⟨inner, rfl⟩ := Expression.readTerms_grouped isOpening
      (Expression.closed_of_readTerms read) isClosing wholeEq
    rw [parse_colors_eq_found parsed, Document.found]
    simp [Node.statements, listStatements, bodyStatements, searchedTerms, Node.declaredTerms,
      Node.valueSearched, Expression.searched, Node.termsSearched, Node.searched, Node.entry?,
      Node.color?]

/-- The colors of a document are those that a search finds which passes groups by. They are all colors
exactly when no group to which this search comes holds a color that can be computed. An assignment
of a value in parentheses has none. -/
theorem parse_groups_hide_colors (text : List Char) :
    (∀ tree, Node.parse text = .ok tree →
      (Sheet.ofText text).colors.Sublist ((Document.ofText text).found true tree) ∧
        ((Sheet.ofText text).colors = (Document.ofText text).found true tree ↔
          ∀ value, .expression value ∈ searchedTerms false tree.statements →
            (value.searched true).filterMap (Node.entry? (.ofText text)) = [])) ∧
      (AssignsGroup text → (Sheet.ofText text).colors = []) := by
  refine ⟨?_, AssignsGroup.colors_eq_nil⟩
  intro tree parsed
  rw [parse_colors_eq_found parsed]
  have hides : Hides (Node.entry? (.ofText text)) (searchedTerms false tree.statements)
      (searchedTerms true tree.statements) :=
    .flatMap fun statement _ => (Node.hidesGroups (fun _ => rfl) statement).own
  exact ⟨hides.part, hides.same_iff⟩

theorem parse_groups_hide_colors_red :
    ∃ tree, Node.parse "$x = (red)".toList = .ok tree ∧ AssignsGroup "$x = (red)".toList ∧
      (Sheet.ofText "$x = (red)".toList).colors = [] ∧
        (Sheet.ofText "$x = (red)".toList).colors ≠
          (Document.ofText "$x = (red)".toList).found true tree := by
  let line : Line := ⟨0, ⟨1, 0, "$x = (red)".toList⟩, []⟩
  let opening : Token := ⟨.opening .round, ⟨1, 6⟩, true⟩
  let red : Token := ⟨.name "red", ⟨1, 7⟩, false⟩
  let closing : Token := ⟨.closing .round, ⟨1, 10⟩, false⟩
  let group : Expression := ⟨[.ident "red" none ⟨1, 7⟩], ⟨1, 6⟩⟩
  let tree := (Sheet.ofText "$x = (red)".toList).tree
  have scanned : scanLines "$x = (red)".toList = .ok [line] := by decide
  have isValue : isValueLine line.head.text = true := by decide
  have found : Pattern.assignment? line.head.text = some ("$x".toList, " (red)".toList) := by decide
  have tokenized : line.tokensOf " (red)".toList = .ok (opening :: ([red] ++ [closing])) := by
    decide +kernel
  have inside : Expression.readTerms [red] = .ok group.terms := by decide +kernel
  have assigns : AssignsGroup "$x = (red)".toList :=
    .intro scanned isValue found tokenized rfl rfl inside
  have parsed : Node.parse "$x = (red)".toList = .ok tree := by decide +kernel
  have hidden := parse_groups_hide_colors "$x = (red)".toList
  refine ⟨tree, parsed, assigns, hidden.2 assigns, fun same => ?_⟩
  have isSearched : .expression group ∈ searchedTerms false tree.statements := by decide +kernel
  have nothing := ((hidden.1 tree parsed).2.mp same) group isSearched
  have isReported : (group.searched true).filterMap (Node.entry? (.ofText "$x = (red)".toList)) ≠ [] := by
    decide +kernel
  exact isReported nothing

end StyleSense
