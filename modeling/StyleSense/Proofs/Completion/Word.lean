import StyleSense.Completion
import StyleSense.Proofs.Text.Trimming

/-!
Contract: which properties are offered for the text before the cursor.

Owns:
- `Sheet.complete_properties`: for any text before the cursor, the properties that are offered are
  those of the schema or, where a value is wanted, none;
- `wordProperty_typed` and `Schema.propertyItems_typed`: a name that is being typed is the property
  that is named, and stands in the way of no property;
- `complete_typed_property_iff`, the result for a name that is being typed.

A name that is complete counts as named although the cursor still stands at its end, so that longer
names are no longer offered.

Does not own: the items of a sheet (`StyleSense.Proofs.Symbol.Completion`).
-/

namespace StyleSense

open Text

/-- Whether an item is a property. -/
def Completion.isProperty (item : Completion) : Bool :=
  item.kind = .property

/-! ## Any word -/

theorem Symbol.isProperty_item
    (document : Document)
    (symbol : Symbol) :
    (symbol.item document).isProperty = false := by
  unfold Symbol.item
  cases symbol.kind <;> rfl

theorem Sheet.isProperty_of_mem_symbolItems
    {sheet : Sheet}
    {item : Completion}
    (isSymbol : item ∈ sheet.symbolItems) :
    item.isProperty = false := by
  obtain ⟨symbol, _, rfl⟩ := List.mem_map.1 isSymbol
  exact symbol.isProperty_item sheet.document

theorem Schema.isProperty_of_mem_valueItems
    {schema : Schema}
    {word : List Char}
    {item : Completion}
    (isValue : item ∈ schema.valueItems word) :
    item.isProperty = false := by
  unfold valueItems at isValue
  split at isValue
  · cases isValue
  · obtain ⟨entry, _, rfl⟩ := List.mem_map.1 isValue
    rfl

theorem Schema.isProperty_of_mem_directiveItems
    {schema : Schema}
    {word : List Char}
    {item : Completion}
    (isDirective : item ∈ schema.directiveItems word) :
    item.isProperty = false := by
  unfold directiveItems at isDirective
  split at isDirective
  · obtain ⟨entry, _, rfl⟩ := List.mem_map.1 isDirective
    rfl
  · cases isDirective

theorem Schema.isProperty_of_mem_propertyItems
    {schema : Schema}
    {word : List Char}
    {useSeparator : Bool}
    {item : Completion}
    (isOffered : item ∈ schema.propertyItems word useSeparator) :
    item.isProperty = true := by
  unfold propertyItems at isOffered
  split at isOffered
  · cases isOffered
  · obtain ⟨entry, _, rfl⟩ := List.mem_map.1 isOffered
    rfl

/-- The properties among all items are those that the schema offers, and none where a value is
wanted. -/
theorem Sheet.complete_properties
    (sheet : Sheet)
    (schema : Schema)
    (useSeparator : Bool)
    (word : List Char) :
    (sheet.complete schema useSeparator word).filter Completion.isProperty =
      if schema.wantsValue word then [] else schema.propertyItems word useSeparator := by
  have none_of : ∀ {items : List Completion}, (∀ item ∈ items, item.isProperty = false) →
      items.filter Completion.isProperty = [] := by
    intro items noProperty
    apply List.filter_eq_nil_iff.2
    intro item isItem
    simp [noProperty item isItem]
  have noSymbols := none_of fun _ => sheet.isProperty_of_mem_symbolItems
  unfold complete
  split
  · have noVariables : (sheet.symbolItems.filter fun item => item.kind = .variable).filter
        Completion.isProperty = [] :=
      none_of fun _ isVariable =>
        sheet.isProperty_of_mem_symbolItems (List.mem_filter.1 isVariable).1
    have noValues : (schema.valueItems word).filter Completion.isProperty = [] :=
      none_of fun _ => schema.isProperty_of_mem_valueItems
    rw [List.filter_append, noValues, noVariables, List.append_nil]
  · have noDirectives : (schema.directiveItems word).filter Completion.isProperty = [] :=
      none_of fun _ => schema.isProperty_of_mem_directiveItems
    have allProperties : (schema.propertyItems word useSeparator).filter Completion.isProperty =
        schema.propertyItems word useSeparator :=
      List.filter_eq_self.2 fun _ => Schema.isProperty_of_mem_propertyItems
    rw [List.filter_append, List.filter_append, noDirectives, noSymbols, allProperties,
      List.nil_append, List.append_nil]

/-! ## A name that is being typed -/

/-- A text that can be the start of the name of a property: no colon, no blank, and no sign of a
selector or an at-rule before it. -/
structure IsTypedName (typed : List Char) : Prop where
  nonempty : typed ≠ []
  solid : ∀ c ∈ typed, c ≠ ':' ∧ isBlank c = false
  plain : ∀ sign ∈ ['.', '#', '@'], typed.head? ≠ some sign

instance (typed : List Char) : Decidable (IsTypedName typed) :=
  decidable_of_iff (typed ≠ [] ∧ (∀ c ∈ typed, c ≠ ':' ∧ isBlank c = false) ∧
      ∀ sign ∈ ['.', '#', '@'], typed.head? ≠ some sign)
    ⟨fun ⟨nonempty, solid, plain⟩ => ⟨nonempty, solid, plain⟩,
      fun ⟨nonempty, solid, plain⟩ => ⟨nonempty, solid, plain⟩⟩

/-- A line on which a name is being typed behind some spaces, up to the cursor. -/
def typedLine (indent : Nat) (typed : List Char) : List Char :=
  List.replicate indent ' ' ++ typed

section Typed

variable {typed : List Char} (isName : IsTypedName typed) (indent : Nat)

include isName

/-- What is being typed counts as the name of a property. -/
theorem wordProperty_typed : wordProperty (typedLine indent typed) = typed := by
  have blankIndent : AllBlank (List.replicate indent ' ') := by
    intro c isIn
    rw [List.eq_of_mem_replicate isIn]
    rfl
  have trimmed : trim typed = typed := by
    apply trim_eq_self_iff.2
    constructor
    · intro c isFirst
      exact (isName.solid c (List.mem_of_mem_head? isFirst)).2
    · intro c isLast
      exact (isName.solid c (List.mem_of_mem_getLast? isLast)).2
  rw [wordProperty, typedLine, trim, trimStart_append_of_allBlank blankIndent, ← trim, trimmed]
  apply List.takeWhile_eq_self_iff.2
  intro c isIn
  obtain ⟨notColon, solid⟩ := isName.solid c isIn
  have notSpace : c ≠ ' ' := by
    rintro rfl
    cases solid
  simp [notColon, notSpace]

/-- No sign of a selector or an at-rule stands first. -/
theorem head?_typed_ne
    {sign : Char}
    (isSign : sign ∈ ['.', '#', '@']) :
    ((typedLine indent typed).head? == some sign) = false := by
  apply beq_eq_false_iff_ne.2
  cases indent with
  | zero => exact isName.plain sign isSign
  | succ indent =>
    rw [typedLine, List.replicate_succ, List.cons_append, List.head?_cons]
    intro isSpace
    rw [← Option.some.inj isSpace] at isSign
    simp at isSign

/-- What is being typed stands in the way of no property. -/
theorem Schema.propertyItems_typed
    (schema : Schema)
    (useSeparator : Bool) :
    (schema.propertyItems (typedLine indent typed) useSeparator).map Completion.label =
      schema.properties.map PropertyEntry.name := by
  have notSelector : isSelectorWord (typedLine indent typed) = false := by
    rw [isSelectorWord, head?_typed_ne isName indent (by simp),
      head?_typed_ne isName indent (by simp)]
    rfl
  have notDirective : isDirectiveWord (typedLine indent typed) = false :=
    head?_typed_ne isName indent (by simp)
  rw [propertyItems, notSelector, notDirective]
  simp

/-- A value is wanted when what is being typed is a name already. -/
theorem Schema.wantsValue_typed_iff (schema : Schema) :
    schema.wantsValue (typedLine indent typed) = true ↔
      ∃ entry ∈ schema.properties, entry.name.toList = typed := by
  have nonempty : typed.isEmpty = false := by simpa using isName.nonempty
  simp only [wantsValue, wordProperty_typed isName indent, nonempty, property?]
  rw [Bool.not_false, Bool.true_and, List.find?_isSome]
  simp only [decide_eq_true_eq, ← String.toList_inj, String.toList_ofList]

/-- While a name is being typed behind some spaces, each property of the schema is offered exactly
when what has been typed is not a whole name: whether it starts with that or not, and whatever the
sheet is. -/
theorem complete_typed_property_iff
    (sheet : Sheet)
    (schema : Schema)
    (useSeparator : Bool)
    {entry : PropertyEntry}
    (isEntry : entry ∈ schema.properties) :
    (∃ item ∈ sheet.complete schema useSeparator (typedLine indent typed),
        item.kind = .property ∧ item.label = entry.name) ↔
      ∀ other ∈ schema.properties, other.name.toList ≠ typed := by
  have offered : ∀ items : List Completion,
      (∃ item ∈ items, item.kind = .property ∧ item.label = entry.name) ↔
        entry.name ∈ (items.filter Completion.isProperty).map Completion.label := by
    intro items
    simp only [List.mem_map, List.mem_filter, Completion.isProperty, decide_eq_true_eq, and_assoc]
  rw [offered, sheet.complete_properties]
  have wanted := schema.wantsValue_typed_iff isName indent
  split
  · rename_i wants
    obtain ⟨other, isOther, same⟩ := wanted.1 wants
    constructor
    · intro isIn
      cases isIn
    · intro noName
      exact absurd same (noName other isOther)
  · rename_i wantsNone
    rw [schema.propertyItems_typed isName indent useSeparator]
    constructor
    · intro _ other isOther same
      exact wantsNone (wanted.2 ⟨other, isOther, same⟩)
    · intro _
      exact List.mem_map_of_mem isEntry

end Typed

/-- The start of two names offers the longer one, the shorter name hides it. -/
theorem complete_typed_property_iff_border :
    let property (name : String) : PropertyEntry := ⟨name, none, none, none, none, []⟩
    let schema : Schema := ⟨[property "border", property "border-color"], []⟩
    let sheet := Sheet.ofText ".a\n  border".toList
    (∃ item ∈ sheet.complete schema true "  bord".toList,
        item.kind = .property ∧ item.label = "border-color") ∧
      ¬∃ item ∈ sheet.complete schema true "  border".toList,
        item.kind = .property ∧ item.label = "border-color" := by
  intro property schema sheet
  have isEntry : property "border-color" ∈ schema.properties := by decide
  constructor
  · have isName : IsTypedName "bord".toList := by decide
    exact (complete_typed_property_iff isName 2 sheet schema true isEntry).2 (by decide)
  · have isName : IsTypedName "border".toList := by decide
    intro isOffered
    have noName := (complete_typed_property_iff isName 2 sheet schema true isEntry).1 isOffered
    exact noName (property "border") (List.mem_cons_self ..) rfl

end StyleSense
