import StyleSense.Proofs.Completion.Word

/-!
Contract: what spaces before the text at the cursor do to its completions.

The property that is named is looked for in the trimmed text, while the sign of a selector or an
at-rule counts only at the very start of the line.

Owns:
- `wordProperty_indented` and what follows from it: spaces do not change whether values are wanted,
  nor which;
- `Sheet.complete_indented`: behind a space every property is offered and no at-rule, whatever sign
  comes after it;
- `complete_indented_iff`, when the completions stay the same.

Does not own: a name that is being typed (`StyleSense.Proofs.Completion.Word`).
-/

namespace StyleSense

open Text

/-! ## The property that is named -/

section Named

variable (indent : Nat) (word : List Char)

theorem wordProperty_indented : wordProperty (typedLine indent word) = wordProperty word := by
  have blankIndent : AllBlank (List.replicate indent ' ') := by
    intro c isIn
    rw [List.eq_of_mem_replicate isIn]
    rfl
  rw [wordProperty, wordProperty, typedLine, trim, trim, trimStart_append_of_allBlank blankIndent]

theorem Schema.wantsValue_indented (schema : Schema) :
    schema.wantsValue (typedLine indent word) = schema.wantsValue word := by
  rw [wantsValue, wantsValue, wordProperty_indented]

theorem Schema.valueItems_indented (schema : Schema) :
    schema.valueItems (typedLine indent word) = schema.valueItems word := by
  rw [valueItems, valueItems, wordProperty_indented]

end Named

/-! ## The sign at the start of the line -/

/-- Behind a space there is no sign at the start of the line. -/
theorem head?_indented
    (indent : Nat)
    (word : List Char) :
    (typedLine (indent + 1) word).head? = some ' ' := by
  rw [typedLine, List.replicate_succ, List.cons_append, List.head?_cons]

theorem not_isSelectorWord_indented
    (indent : Nat)
    (word : List Char) :
    isSelectorWord (typedLine (indent + 1) word) = false := by
  rw [isSelectorWord, head?_indented]
  decide

theorem not_isDirectiveWord_indented
    (indent : Nat)
    (word : List Char) :
    isDirectiveWord (typedLine (indent + 1) word) = false := by
  rw [isDirectiveWord, head?_indented]
  decide

/-- A text starts with one sign at most. -/
theorem not_isSelectorWord_of_isDirectiveWord
    {word : List Char}
    (isDirective : isDirectiveWord word = true) :
    isSelectorWord word = false := by
  have first : word.head? = some '@' := by simpa [isDirectiveWord] using isDirective
  rw [isSelectorWord, first]
  decide

namespace Schema

variable (schema : Schema) (useSeparator : Bool)

/-- The items of all properties. -/
def everyProperty : List Completion :=
  schema.propertyItems [] useSeparator

theorem propertyItems_of_unsigned
    {word : List Char}
    (noSelector : isSelectorWord word = false)
    (noDirective : isDirectiveWord word = false) :
    schema.propertyItems word useSeparator = schema.everyProperty useSeparator := by
  have nothing : (isSelectorWord [] || isDirectiveWord []) = false := rfl
  rw [everyProperty, propertyItems, propertyItems, noSelector, noDirective, nothing]
  rfl

theorem propertyItems_of_signed
    {word : List Char}
    (signed : (isSelectorWord word || isDirectiveWord word) = true) :
    schema.propertyItems word useSeparator = [] := by
  rw [propertyItems, if_pos signed]

theorem directiveItems_of_unsigned
    {word : List Char}
    (noDirective : isDirectiveWord word = false) :
    schema.directiveItems word = [] := by
  rw [directiveItems, noDirective]
  rfl

theorem everyProperty_eq_nil_iff :
    schema.everyProperty useSeparator = [] ↔ schema.properties = [] := by
  have nothing : (isSelectorWord [] || isDirectiveWord []) = false := rfl
  rw [everyProperty, propertyItems, nothing]
  exact List.map_eq_nil_iff

theorem directiveItems_eq_nil_iff
    {word : List Char}
    (isDirective : isDirectiveWord word = true) :
    schema.directiveItems word = [] ↔ schema.directives = [] := by
  rw [directiveItems, if_pos isDirective]
  exact List.map_eq_nil_iff

/-- The at-rules are no properties, so the two agree only when there are none of either. -/
theorem directiveItems_eq_everyProperty_iff
    {word : List Char}
    (isDirective : isDirectiveWord word = true) :
    schema.directiveItems word = schema.everyProperty useSeparator ↔
      schema.directives = [] ∧ schema.properties = [] := by
  rw [← directiveItems_eq_nil_iff schema isDirective,
    ← everyProperty_eq_nil_iff schema useSeparator]
  constructor
  · intro same
    have noItem : schema.directiveItems word = [] := by
      apply List.eq_nil_iff_forall_not_mem.2
      intro item isItem
      have notProperty := isProperty_of_mem_directiveItems isItem
      rw [same] at isItem
      rw [isProperty_of_mem_propertyItems isItem] at notProperty
      cases notProperty
    exact ⟨noItem, same ▸ noItem⟩
  · rintro ⟨noDirective, noProperty⟩
    rw [noDirective, noProperty]

/-- Whether the sign at the start of the line makes a difference: that of an at-rule brings the
at-rules and takes the properties away, that of a selector takes the properties away. -/
def heedsSign (word : List Char) : Bool :=
  isDirectiveWord word && !(schema.directives.isEmpty && schema.properties.isEmpty)
    || isSelectorWord word && !schema.properties.isEmpty

/-- The sign at the start of the line is passed over when what it leads to is what there is without
it. -/
theorem signedItems_eq_everyProperty_iff (word : List Char) :
    schema.directiveItems word ++ schema.propertyItems word useSeparator =
        schema.everyProperty useSeparator ↔
      schema.heedsSign word = false := by
  cases isDirective : isDirectiveWord word with
  | true =>
    have noSelector := not_isSelectorWord_of_isDirectiveWord isDirective
    have noProperties : schema.propertyItems word useSeparator = [] :=
      schema.propertyItems_of_signed useSeparator (by rw [isDirective, Bool.or_true])
    rw [noProperties, List.append_nil,
      schema.directiveItems_eq_everyProperty_iff useSeparator isDirective, heedsSign, isDirective,
      noSelector]
    simp
  | false =>
    rw [schema.directiveItems_of_unsigned isDirective, List.nil_append]
    cases isSelector : isSelectorWord word with
    | true =>
      have noProperties : schema.propertyItems word useSeparator = [] :=
        schema.propertyItems_of_signed useSeparator (by rw [isSelector, Bool.true_or])
      rw [noProperties, eq_comm, everyProperty_eq_nil_iff, heedsSign, isDirective, isSelector]
      simp
    | false =>
      rw [schema.propertyItems_of_unsigned useSeparator isSelector isDirective, heedsSign,
        isDirective, isSelector]
      simp

end Schema

/-! ## All items -/

section All

variable (sheet : Sheet) (schema : Schema) (useSeparator : Bool) (indent : Nat) {word : List Char}

/-- Where a value is wanted, spaces change nothing. -/
theorem Sheet.complete_indented_of_wantsValue
    (wantsValue : schema.wantsValue word = true) :
    sheet.complete schema useSeparator (typedLine indent word) =
      sheet.complete schema useSeparator word := by
  rw [complete, complete, schema.wantsValue_indented, if_pos wantsValue, if_pos wantsValue,
    schema.valueItems_indented]

/-- Behind a space, where no value is wanted, every property is offered and no at-rule, whatever
sign comes after the space. -/
theorem Sheet.complete_indented
    (wantsNone : schema.wantsValue word = false) :
    sheet.complete schema useSeparator (typedLine (indent + 1) word) =
      schema.everyProperty useSeparator ++ sheet.symbolItems := by
  have noSelector := not_isSelectorWord_indented indent word
  have noDirective := not_isDirectiveWord_indented indent word
  rw [complete, schema.wantsValue_indented, wantsNone,
    schema.propertyItems_of_unsigned useSeparator noSelector noDirective,
    schema.directiveItems_of_unsigned noDirective]
  rfl

end All

/-- For every sheet, schema and text before the cursor, spaces put before that text leave the
completions as they are exactly when a value is wanted or no sign that counts comes first. -/
theorem complete_indented_iff
    (sheet : Sheet)
    (schema : Schema)
    (useSeparator : Bool)
    (indent : Nat)
    (word : List Char) :
    sheet.complete schema useSeparator (typedLine indent word) =
        sheet.complete schema useSeparator word ↔
      indent = 0 ∨ schema.wantsValue word = true ∨ schema.heedsSign word = false := by
  cases indent with
  | zero => simp [typedLine]
  | succ indent =>
    cases wants : schema.wantsValue word with
    | true => simp [sheet.complete_indented_of_wantsValue schema useSeparator (indent + 1) wants]
    | false =>
      have atStart : sheet.complete schema useSeparator word =
          schema.directiveItems word ++ schema.propertyItems word useSeparator
            ++ sheet.symbolItems := by
        rw [Sheet.complete, wants]
        rfl
      rw [sheet.complete_indented schema useSeparator indent wants, atStart,
        List.append_left_inj, eq_comm, schema.signedItems_eq_everyProperty_iff]
      simp

/-- An at-rule that is being written behind two spaces is not offered. -/
theorem complete_indented_iff_media :
    let schema : Schema :=
      ⟨[⟨"color", none, none, none, none, []⟩], [⟨"@media", none, none⟩]⟩
    let sheet := Sheet.ofText ".a\n  @me".toList
    sheet.complete schema true "  @me".toList ≠ sheet.complete schema true "@me".toList := by
  intro schema sheet same
  have heeds : schema.heedsSign "@me".toList = true := by decide
  have wantsNone : schema.wantsValue "@me".toList = false := by decide
  rcases (complete_indented_iff sheet schema true 2 "@me".toList).1 same with
    noIndent | wants | heedsNone
  · cases noIndent
  · rw [wantsNone] at wants
    cases wants
  · rw [heeds] at heedsNone
    cases heedsNone

end StyleSense
