import Mathlib.Data.List.Forall2
import StyleSense.Json.Record

/-!
Contract: what a record reader finds in an object.

Readers get the fields of an object as parts of it, which carry a proof that they are smaller. What
they read depends on the values of the parts only.

Owns:
- `Json.given`, all values that an object has for a name, and `Json.part?`, the last of them as a
  part;
- `Json.record?_object`: where no name is given twice, the fields that are found have the values that
  are given;
- `Json.mapM_of_view`, reading the items of a list one by one;
- `Json.value?` and what each reader of a field makes of a value.

Does not own: what a record means.
-/

namespace StyleSense.Json

/-! ## The fields of an object -/

/-- The values that fields give for a name, in order. -/
def given (fields : List (String × Json)) (name : String) : List Json :=
  (fields.filter fun field => field.1 = name).map Prod.snd

@[simp]
theorem given_nil (name : String) : given [] name = [] :=
  rfl

@[simp]
theorem given_cons
    (key : String)
    (value : Json)
    (rest : List (String × Json))
    (name : String) :
    given ((key, value) :: rest) name =
      if key = name then value :: given rest name else given rest name := by
  rw [given, List.filter_cons]
  by_cases same : key = name <;> simp [same, given]

@[simp]
theorem given_append
    (fields others : List (String × Json))
    (name : String) :
    given (fields ++ others) name = given fields name ++ given others name := by
  rw [given, List.filter_append, List.map_append]
  rfl

@[simp]
theorem given_optionalField
    {α : Type}
    (key : String)
    (encode : α → Json)
    (value : Option α)
    (name : String) :
    given (optionalField key encode value) name =
      if key = name then (value.map encode).toList else [] := by
  cases value <;> by_cases same : key = name <;> simp [optionalField, same]

/-- A search for a name finds the last value and counts all of them. -/
theorem member_eq
    (fields : List (String × Json))
    (name : String) :
    (member fields name).1.map Subtype.val = (given fields name).getLast? ∧
      (member fields name).2 = (given fields name).length := by
  induction fields with
  | nil => exact ⟨rfl, rfl⟩
  | cons field rest inductionHypothesis =>
    obtain ⟨key, value⟩ := field
    obtain ⟨isLast, isCount⟩ := inductionHypothesis
    rw [given_cons, member]
    generalize member rest name = later at isLast isCount
    obtain ⟨found, count⟩ := later
    by_cases same : key = name
    · simp only [if_pos same, List.getLast?_cons, List.length_cons, ← isLast, ← isCount]
      cases found <;> exact ⟨rfl, trivial⟩
    · simp only [if_neg same, ← isLast, ← isCount]
      cases found <;> exact ⟨rfl, trivial⟩

theorem sizeOf_fields_lt (fields : List (String × Json)) :
    sizeOf fields < sizeOf (Json.object fields) := by
  rw [object.sizeOf_spec]
  omega

/-- The last value that an object has for a name, as a part of the object. -/
def part? (fields : List (String × Json)) (name : String) : Option (Part (.object fields)) :=
  (member fields name).1.map fun part =>
    ⟨part.val, Nat.lt_trans part.property (sizeOf_fields_lt fields)⟩

/-- The value of a field, present or not. -/
def value? {whole : Json} (field : Option (Part whole)) : Option Json :=
  field.map Subtype.val

theorem value?_part?
    (fields : List (String × Json))
    (name : String) :
    value? (part? fields name) = (given fields name).getLast? := by
  rw [← (member_eq fields name).1, value?, part?, Option.map_map]
  rfl

@[simp]
theorem value?_trans
    {whole : Json}
    (outer : Part whole)
    (field : Option (Part outer.val)) :
    value? (field.map outer.trans) = value? field := by
  cases field <;> rfl

/-- Fields that have some values, each present or not. -/
def AreValued {whole : Json} (fields : List (Option (Part whole))) (values : List (Option Json)) :
    Prop :=
  List.Forall₂ (fun field value => value? field = value) fields values

/-- Where each of some names is given once or not at all, these are the fields of the record. -/
theorem record?_object
    {fields : List (String × Json)}
    {names : List String}
    {values : List (Option Json)}
    (holds : names.map (given fields) = values.map Option.toList) :
    ∃ found, record? names (.object fields) = some found ∧ AreValued found values := by
  rw [record?]
  induction names generalizing values with
  | nil =>
    cases values with
    | nil => exact ⟨[], rfl, .nil⟩
    | cons value others => cases holds
  | cons name rest inductionHypothesis =>
    cases values with
    | nil => cases holds
    | cons value others =>
      rw [List.map_cons, List.map_cons, List.cons.injEq] at holds
      obtain ⟨isGiven, later⟩ := holds
      obtain ⟨found, isFound, areValued⟩ := inductionHypothesis later
      have once : (member fields name).2 ≤ 1 := by
        rw [(member_eq fields name).2, isGiven]
        cases value <;> simp
      have isValue : value? (part? fields name) = value := by
        rw [value?_part?, isGiven]
        cases value <;> rfl
      refine ⟨part? fields name :: found, ?_, .cons isValue areValued⟩
      simp only [List.mapM_cons, isFound, if_pos once]
      rfl

/-! ## Parts of parts -/

section Parts

variable {whole : Json} {part : Part whole}

/-- The fields of a record inside another value. -/
theorem part_record?_object
    {fields : List (String × Json)}
    (names : List String)
    (values : List (Option Json))
    (isObject : part.val = .object fields)
    (holds : names.map (given fields) = values.map Option.toList) :
    ∃ found, part.record? names = some found ∧ AreValued found values := by
  obtain ⟨value, smaller⟩ := part
  obtain rfl : value = .object fields := isObject
  obtain ⟨found, isFound, areValued⟩ := record?_object holds
  rw [Part.record?, isFound]
  refine ⟨_, rfl, ?_⟩
  rw [AreValued, List.forall₂_map_left_iff]
  apply areValued.imp
  intro field value isValue
  rw [value?_trans, isValue]

theorem map_val_elements (items : List Json) : (elements items).map Subtype.val = items := by
  induction items with
  | nil => rfl
  | cons item rest inductionHypothesis =>
    rw [elements, List.map_cons, List.map_map]
    exact congrArg (item :: ·) inductionHypothesis

theorem map_val_namedElements (fields : List (String × Json)) :
    ((namedElements fields).map fun field => (field.1, field.2.val)) = fields := by
  induction fields with
  | nil => rfl
  | cons field rest inductionHypothesis =>
    rw [namedElements, List.map_cons, List.map_map]
    exact congrArg (field :: ·) inductionHypothesis

/-- The elements of an array inside another value. -/
theorem part_items?_array
    {items : List Json}
    (isArray : part.val = .array items) :
    ∃ parts, part.items? = some parts ∧ parts.map Subtype.val = items := by
  obtain ⟨value, smaller⟩ := part
  obtain rfl : value = .array items := isArray
  refine ⟨_, rfl, ?_⟩
  rw [List.map_map, List.map_map]
  exact map_val_elements items

/-- The fields of a map inside another value. -/
theorem part_entries?_object
    {fields : List (String × Json)}
    (isObject : part.val = .object fields) :
    ∃ parts, part.entries? = some parts ∧
      (parts.map fun entry => (entry.1, entry.2.val)) = fields := by
  obtain ⟨value, smaller⟩ := part
  obtain rfl : value = .object fields := isObject
  refine ⟨_, rfl, ?_⟩
  rw [List.map_map, List.map_map]
  exact map_val_namedElements fields

end Parts

/-- Reading item by item succeeds when each item is read, whatever the items carry besides what is
seen of them. -/
theorem mapM_of_view
    {α β γ δ : Type}
    {view : α → δ}
    {encode : γ → δ}
    {read : α → Option β}
    {result : γ → β}
    {items : List α}
    {sources : List γ}
    (seen : items.map view = sources.map encode)
    (reads : ∀ source ∈ sources, ∀ item, view item = encode source →
      read item = some (result source)) :
    items.mapM read = some (sources.map result) := by
  induction items generalizing sources with
  | nil =>
    obtain rfl : sources = [] := List.map_eq_nil_iff.1 seen.symm
    rfl
  | cons item rest inductionHypothesis =>
    cases sources with
    | nil => cases seen
    | cons source others =>
      rw [List.map_cons, List.map_cons, List.cons.injEq] at seen
      obtain ⟨sameItem, sameRest⟩ := seen
      have later := inductionHypothesis sameRest fun other isLater =>
        reads other (List.mem_cons_of_mem source isLater)
      rw [List.mapM_cons, reads source (List.mem_cons_self ..) item sameItem, later]
      rfl

/-! ## Readers of a field -/

section Fields

variable {α : Type} {whole : Json} {field : Option (Part whole)} {value : Json}

/-- A field with a value is a part with that value. -/
theorem exists_of_value?
    (holds : value? field = some value) :
    ∃ part, field = some part ∧ part.val = value :=
  Option.map_eq_some_iff.1 holds

theorem required_of_value?
    (holds : value? field = some value)
    (read : Json → Option α) :
    required read field = read value := by
  obtain ⟨part, rfl, rfl⟩ := exists_of_value? holds
  rfl

theorem withDefault_of_value?
    (holds : value? field = some value)
    (fallback : α)
    (read : Json → Option α) :
    withDefault fallback read field = read value := by
  obtain ⟨part, rfl, rfl⟩ := exists_of_value? holds
  rfl

/-- A field that is left out when there is no value is read as what it was written for. -/
theorem optional_of_value?
    (encode : α → Json)
    (read : Json → Option α)
    (readsBack : ∀ a, read (encode a) = some a)
    (notNull : ∀ a, encode a ≠ .null)
    {written : Option α}
    (holds : value? field = written.map encode) :
    optional read field = some written := by
  cases written with
  | none =>
    obtain rfl : field = none := Option.map_eq_none_iff.1 holds
    rfl
  | some a =>
    obtain ⟨part, rfl, isValue⟩ := exists_of_value? holds
    rw [optional, isValue]
    split
    · rename_i isNull
      exact absurd isNull (notNull a)
    · rw [readsBack]
      rfl

theorem optional_string
    {written : Option String}
    (holds : value? field = written.map .string) :
    optional string? field = some written :=
  optional_of_value? .string string? (fun _ => rfl) (fun _ => Json.noConfusion) holds

end Fields

/-- What is written as a list of texts is read as that list. -/
theorem strings?_ofList (texts : List String) : strings? (ofList .string texts) = some texts := by
  rw [ofList, strings?]
  induction texts with
  | nil => rfl
  | cons text rest inductionHypothesis =>
    rw [List.map_cons, List.mapM_cons, inductionHypothesis]
    rfl

theorem float?_ofFloat
    {x : Float}
    (isFinite : x.isFinite = true) :
    float? (ofFloat x) = some x := by
  rw [ofFloat, if_pos isFinite]
  rfl

end StyleSense.Json
