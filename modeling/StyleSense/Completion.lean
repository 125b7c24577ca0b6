import StyleSense.Schema.Basic
import StyleSense.Sheet

/-!
Contract: what can be completed at the cursor.

Owns:
- `Completion`, an item that is offered;
- the reading of the text before the cursor: a selector, an at-rule, the name of a property, or its
  value;
- `Sheet.complete`, the items of a schema and of the sheet itself. Narrowing them down to what was
  typed is left to the editor.

Does not own: the text before the cursor, which is cut out by the caller.
-/

namespace StyleSense

open Text

/-- Kinds of items. -/
inductive CompletionKind where
  | variable
  | function
  | selector
  | property
  | value
  | keyword
deriving DecidableEq, Repr

/-- The name under which editors know a kind. -/
def CompletionKind.name : CompletionKind → String
  | .variable => "variable"
  | .function => "function"
  | .selector => "class"
  | .property => "property"
  | .value => "value"
  | .keyword => "keyword"

/-- An item. -/
structure Completion where
  label : String
  kind : CompletionKind
  detail : Option String := none
  documentation : Option String := none
  /-- What is inserted instead of the label. -/
  insertion : Option String := none
deriving DecidableEq, Repr

/-! ## The text before the cursor -/

/-- A class or an identifier is being written. -/
def isSelectorWord (word : List Char) : Bool :=
  word.head? == some '.' || word.head? == some '#'

/-- An at-rule is being written. -/
def isDirectiveWord (word : List Char) : Bool :=
  word.head? == some '@'

/-- The property that is named at the start of the line. -/
def wordProperty (word : List Char) : List Char :=
  (trim word).takeWhile fun c => c != ':' && c != ' '

/-- A known property is named, so that its values are wanted. -/
def Schema.wantsValue (schema : Schema) (word : List Char) : Bool :=
  let property := wordProperty word
  !property.isEmpty && (schema.property? (String.ofList property)).isSome

/-! ## Items of a schema -/

namespace Schema

/-- The at-rules, when one is being written. -/
def directiveItems (schema : Schema) (word : List Char) : List Completion :=
  if isDirectiveWord word then
    schema.directives.map fun entry =>
      { label := entry.name
        kind := .keyword
        detail := entry.summary
        insertion := some (String.ofList (dropLeading '@' entry.name.toList)) }
  else []

/-- The properties, unless a selector or an at-rule is being written. -/
def propertyItems (schema : Schema) (word : List Char) (useSeparator : Bool) : List Completion :=
  if isSelectorWord word || isDirectiveWord word then []
  else
    let separator := if useSeparator then ": " else " "
    schema.properties.map fun entry =>
      { label := entry.name
        kind := .property
        detail := entry.summary
        documentation := entry.description?
        insertion := some (entry.name ++ separator) }

/-- The values of the property that is named. -/
def valueItems (schema : Schema) (word : List Char) : List Completion :=
  match schema.property? (String.ofList (wordProperty word)) with
  | none => []
  | some property =>
    property.values.map fun entry =>
      { label := entry.name, kind := .value, detail := entry.description }

end Schema

/-! ## Items of a sheet -/

/-- The item of a symbol; a variable shows the line of its declaration. -/
def Symbol.item (document : Document) (symbol : Symbol) : Completion :=
  match symbol.kind with
  | .variable =>
    { label := symbol.name
      kind := .variable
      detail := some (String.ofList (trim (document.line symbol.range.start.line))) }
  | .function => { label := symbol.name, kind := .function }
  | .selector | .directive => { label := symbol.name, kind := .selector }

namespace Sheet

/-- The variables, functions and selectors of a sheet. -/
def symbolItems (sheet : Sheet) : List Completion :=
  (sheet.document.symbols sheet.tree.candidates).map (Symbol.item sheet.document)

/-- Everything that completes `word`, the text between the start of the line and the cursor. -/
def complete (sheet : Sheet) (schema : Schema) (useSeparator : Bool) (word : List Char) :
    List Completion :=
  if schema.wantsValue word then
    schema.valueItems word
      ++ sheet.symbolItems.filter fun item => item.kind = .variable
  else
    schema.directiveItems word ++ schema.propertyItems word useSeparator ++ sheet.symbolItems

end Sheet

end StyleSense
