import Mathlib.Data.List.Forall2
import StyleSense.Completion

/-!
Contract: the completions that a sheet itself offers are its outline without the at-rules.

The outline keeps the first of the symbols that count as the same; completion leaves nodes out
before it keeps the first. Both give the same because symbols that count as the same have one kind:
properties declare nothing, and a statement declares a symbol of the kind `directive` just when it is
an at-rule.

Owns:
- `Document.symbols_candidates`, the symbols that completion offers as a part of the outline;
- `symbolItems_outline`, the labels and the details of the items.

Does not own: keeping the first of equal keys (`StyleSense.Distinct`).
-/

namespace StyleSense

open Text

/-! ## The kind of a declaration -/

theorem Node.symbolKind?_of_symbol?
    {document : Document}
    {node : Node}
    {symbol : Symbol}
    (declared : node.symbol? document = some symbol) :
    node.symbolKind? = some symbol.kind := by
  unfold Node.symbol? at declared
  obtain ⟨kind, isKind, rfl⟩ := Option.map_eq_some_iff.1 declared
  rw [isKind]
  split <;> rfl

/-- A property declares nothing. -/
theorem Node.symbol?_of_isProperty
    (document : Document)
    {node : Node}
    (isProperty : node.isProperty = true) :
    node.symbol? document = none := by
  cases node with
  | property => rfl
  | _ => exact absurd isProperty Bool.false_ne_true

/-- At-rules are what declares a symbol of the kind `directive`. -/
theorem Node.symbolKind?_directive_iff (node : Node) :
    node.symbolKind? = some .directive ↔ node.isDirective = true := by
  cases node with
  | ident name value pos =>
    rcases value with _ | value
    · simp [symbolKind?, isDirective]
    · cases value <;> simp [symbolKind?, isDirective]
  | call name args pos =>
    by_cases isSelector : name = "selector" <;> simp [symbolKind?, isDirective, isSelector]
  | _ => simp [symbolKind?, isDirective]

/-- Symbols that count as the same have one kind. -/
theorem Symbol.kind_eq_of_key
    {left right : Symbol}
    (sameKey : left.key = right.key) :
    left.kind = right.kind :=
  congrArg Prod.fst sameKey

/-! ## The outline without the at-rules -/

/-- Whether a symbol is one that completion offers: any but those of at-rules. -/
def Symbol.isOffered (symbol : Symbol) : Bool :=
  symbol.kind ≠ .directive

/-- Leaving out nodes that are not offered leaves out the symbols that are not. -/
theorem filterMap_candidates
    (document : Document)
    (nodes : List Node) :
    (nodes.filter fun node => !node.isProperty && !node.isDirective).filterMap
        (Node.symbol? document) =
      (nodes.filterMap (Node.symbol? document)).filter Symbol.isOffered := by
  rw [List.filterMap_filter, List.filter_filterMap]
  apply List.filterMap_congr
  intro node _
  cases declared : node.symbol? document with
  | none => split <;> rfl
  | some symbol =>
    have notProperty : node.isProperty = false := by
      apply Bool.eq_false_iff.2
      intro isProperty
      rw [Node.symbol?_of_isProperty document isProperty] at declared
      contradiction
    have directive_iff := Node.symbolKind?_directive_iff node
    rw [Node.symbolKind?_of_symbol? declared, Option.some.injEq] at directive_iff
    by_cases isDirective : symbol.kind = .directive
    · have leftOut : symbol.isOffered = false := by simp [Symbol.isOffered, isDirective]
      simp [directive_iff.1 isDirective, Option.filter, leftOut]
    · have notDirective := Bool.eq_false_iff.2 (mt directive_iff.2 isDirective)
      have offered : symbol.isOffered = true := by simp [Symbol.isOffered, isDirective]
      simp [notProperty, notDirective, Option.filter, offered]

/-- Completion offers the symbols of the outline, those of at-rules left out. -/
theorem Document.symbols_candidates
    (document : Document)
    (tree : Node) :
    document.symbols tree.candidates = (document.outline tree).filter Symbol.isOffered := by
  rw [symbols, Node.candidates, filterMap_candidates, outline, symbols]
  apply keepFirst_filter
  intro left right sameKey
  rw [Symbol.isOffered, Symbol.isOffered, Symbol.kind_eq_of_key sameKey]

/-! ## The items -/

/-- The symbol of an item gives its label, and its detail when it is a variable. -/
structure Completion.Shows
    (document : Document)
    (symbol : Symbol)
    (item : Completion) : Prop where
  label : item.label = symbol.name
  variable_iff : item.kind = .variable ↔ symbol.kind = .variable
  detail : symbol.kind = .variable →
    item.detail = some (String.ofList (trim (document.line symbol.range.start.line)))

theorem Symbol.item_shows
    (document : Document)
    (symbol : Symbol) :
    Completion.Shows document symbol (symbol.item document) := by
  unfold Symbol.item
  cases isKind : symbol.kind <;> constructor <;> simp [isKind]

/-- Whatever its tree and its text are, a sheet offers the symbols of its outline in order, without
those of at-rules; a variable shows the trimmed line on which its symbol stands. -/
theorem symbolItems_outline (sheet : Sheet) :
    sheet.symbolItems.map Completion.label =
        (sheet.symbols.filter Symbol.isOffered).map Symbol.name ∧
      List.Forall₂ (Completion.Shows sheet.document)
        (sheet.symbols.filter Symbol.isOffered) sheet.symbolItems := by
  have items : sheet.symbolItems =
      (sheet.symbols.filter Symbol.isOffered).map (Symbol.item sheet.document) := by
    rw [Sheet.symbolItems, Document.symbols_candidates, Sheet.symbols]
  rw [items]
  constructor
  · rw [List.map_map]
    apply List.map_congr_left
    intro symbol _
    exact (symbol.item_shows sheet.document).label
  · rw [List.forall₂_map_right_iff, List.forall₂_same]
    intro symbol _
    exact symbol.item_shows sheet.document

end StyleSense
