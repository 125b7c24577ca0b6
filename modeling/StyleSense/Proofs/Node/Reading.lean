import StyleSense.Node.Json
import StyleSense.Proofs.Json.Record
import StyleSense.Proofs.Node.Sharing

/-!
Contract: what is read of the parts of a node that was written as JSON.

A body that selectors share is written at each place, so what is read is the node in which every
selector has its own.

Owns:
- the written forms as maps: `listJson_eq`, `entriesJson_eq`, `segmentsJson_eq`, `selectorsJson_eq`;
- `Node.read?_object`, how an object with one tag is read, and `Node.read?_tagged`, its fields;
- `Node.read?_unknown`, an object whose tag is not known;
- `Node.Returns`, that a node is read back at any place, and what each reader of a field makes of
  nodes that return.

Does not own: the kinds of nodes (`StyleSense.Proofs.Node.Json`).
-/

namespace StyleSense

open Json (Part given value? ofNat)

/-! ## Written forms -/

/-- A segment as JSON. -/
def Segment.json (segment : Segment) : Json :=
  .object
    (Json.optionalField "string" .string segment.text ++ ("lineno", ofNat segment.line)
      :: (if segment.nodes.isEmpty then []
        else [("nodes", .array (Node.listJson segment.nodes))]))

/-- The same segment in which no body is shared. -/
def Segment.unshare (segment : Segment) : Segment :=
  ⟨segment.text, segment.line, Node.unshareList segment.nodes⟩

theorem listJson_eq (nodes : List Node) : Node.listJson nodes = nodes.map Node.toJson := by
  induction nodes with
  | nil => rfl
  | cons node rest inductionHypothesis => rw [Node.listJson, inductionHypothesis, List.map_cons]

theorem entriesJson_eq (entries : List (String × Node)) :
    Node.entriesJson entries = entries.map fun entry => (entry.1, entry.2.toJson) := by
  induction entries with
  | nil => rfl
  | cons entry rest inductionHypothesis =>
    rw [Node.entriesJson, inductionHypothesis, List.map_cons]

theorem segmentsJson_eq (segments : List Segment) :
    Segment.listJson segments = segments.map Segment.json := by
  induction segments with
  | nil => rfl
  | cons segment rest inductionHypothesis =>
    obtain ⟨text, line, nodes⟩ := segment
    rw [Segment.listJson, inductionHypothesis, List.map_cons]
    rfl

theorem selectorsJson_eq
    (body : Node)
    (heads : List Selector) :
    Selector.listJson body.toJson heads =
      heads.map fun head => Selector.toJson head (Node.optionField "block" (some body)) := by
  induction heads with
  | nil => rfl
  | cons head rest inductionHypothesis =>
    rw [Selector.listJson, inductionHypothesis, List.map_cons, Node.optionField]

theorem unshareSegments_eq (segments : List Segment) :
    Segment.unshareList segments = segments.map Segment.unshare := by
  induction segments with
  | nil => rfl
  | cons segment rest inductionHypothesis =>
    obtain ⟨text, line, nodes⟩ := segment
    rw [Segment.unshareList, inductionHypothesis, List.map_cons]
    rfl

theorem optionField_eq
    (name : String)
    (node : Option Node) :
    Node.optionField name node = Json.optionalField name Node.toJson node := by
  cases node with
  | none => rfl
  | some node => rw [Node.optionField, Json.optionalField]

theorem expressionField_eq (value : Option Expression) :
    Expression.optionField value =
      Json.optionalField "expr" (fun value => .object (Expression.fields value)) value := by
  cases value with
  | none => rfl
  | some value => rw [Expression.optionField, Json.optionalField]

@[simp]
theorem given_placeFields
    (pos : SourcePos)
    (name : String) :
    given pos.fields name =
      (if "lineno" = name then [ofNat pos.line] else [])
        ++ if "column" = name then [ofNat pos.column] else [] := by
  rw [SourcePos.fields, Json.given_cons, Json.given_cons, Json.given_nil]
  split <;> rfl

/-! ## The tag -/

/-- The reading of a node within another one. -/
abbrev Node.readPart {whole : Json} (part : Part whole) : Option Node :=
  Node.read? true part.val

/-- An object with one tag is read as the node with that tag. -/
theorem Node.read?_object
    {members : List (String × Json)}
    {tag : String}
    (tagged : given members "nodeName" = [.string tag])
    (isInner : Bool) :
    Node.read? isInner (.object members) =
      Node.readFields? readPart tag fun names => Json.record? names (.object members) := by
  obtain ⟨⟨key, value⟩, single, isTag⟩ := List.map_eq_singleton_iff.1 tagged
  obtain rfl : value = .string tag := isTag
  rw [Node.read?]
  split
  · rename_i found
    rw [single] at found
    cases found
    rfl
  · rename_i notSingle
    exact absurd single (notSingle _ _)

theorem Node.read?_null (isInner : Bool) : Node.read? isInner .null = none := by
  rw [Node.read?] <;> intros <;> contradiction

/-- A tagged node is read from the values of its own fields. -/
theorem Node.read?_tagged
    (tag : String)
    (own : List (String × Json))
    (names : List String)
    (values : List (Option Json))
    (holds : ("nodeName" :: names).map (given own) = (none :: values).map Option.toList)
    (noTag : "nodeName" ∉ names)
    (isInner : Bool) :
    ∃ found : List (Option (Part (Node.tagged tag own))),
      Json.AreValued found values ∧
        Json.record? names (Node.tagged tag own) = some found ∧
        Node.read? isInner (Node.tagged tag own) =
          Node.readFields? readPart tag fun names => Json.record? names (Node.tagged tag own) := by
  rw [List.map_cons, List.map_cons, List.cons.injEq] at holds
  obtain ⟨noOther, holds⟩ := holds
  have beside : names.map (given (("nodeName", .string tag) :: own)) =
      values.map Option.toList := by
    rw [← holds]
    apply List.map_congr_left
    intro name isName
    have differs : "nodeName" ≠ name := by
      rintro rfl
      exact noTag isName
    rw [Json.given_cons, if_neg differs]
  obtain ⟨found, isFound, areValued⟩ := Json.record?_object beside
  have tagged : given (("nodeName", .string tag) :: own) "nodeName" = [.string tag] := by
    rw [Json.given_cons, if_pos rfl, noOther]
    rfl
  exact ⟨found, areValued, isFound, Node.read?_object tagged isInner⟩

/-- What is read of a node whose tag is not known. -/
theorem Node.readFields?_unknown
    {whole : Json}
    {tag : String}
    (unknown : tag ∈ nodeTags → tag = "other")
    (read : Part whole → Option Node)
    (fields : List String → Option (List (Option (Part whole)))) :
    Node.readFields? read tag fields = (fields []).map fun _ => .other := by
  have noWrapper : Wrapper.ofTag? tag = none := by
    unfold Wrapper.ofTag?
    split <;> simp [nodeTags] at unknown ⊢
  have noDirective : Directive.ofTag? tag = none := by
    unfold Directive.ofTag?
    split <;> simp [nodeTags] at unknown ⊢
  unfold Node.readFields?
  split <;> simp [nodeTags] at unknown
  rw [noWrapper, noDirective]

theorem Node.read?_unknown
    {members : List (String × Json)}
    {tag : String}
    (tagged : given members "nodeName" = [.string tag])
    (unknown : tag ∈ nodeTags → tag = "other")
    (isInner : Bool) :
    Node.read? isInner (.object members) = some .other := by
  rw [Node.read?_object tagged, Node.readFields?_unknown unknown]
  rfl

/-! ## Readers of fields -/

/-- A node is read back, whether it is the whole tree or stands within another node. -/
def Node.Returns (node : Node) : Prop :=
  ∀ isInner, Node.read? isInner node.toJson = some node.unshare

section Readers

variable {whole : Json} {field : Option (Part whole)}

theorem readPlace?_of_value?
    {line column : Option (Part whole)}
    {pos : SourcePos}
    (isLine : value? line = some (ofNat pos.line))
    (isColumn : value? column = some (ofNat pos.column)) :
    Node.readPlace? line column = some pos := by
  rw [Node.readPlace?, Json.withDefault_of_value? isLine, Json.withDefault_of_value? isColumn]
  rfl

theorem readOptional?_of_value?
    {node : Option Node}
    (returns : ∀ inner ∈ node, inner.Returns)
    (holds : value? field = node.map Node.toJson) :
    Node.readOptional? Node.readPart field = some (Node.unshareOption node) := by
  cases node with
  | none =>
    obtain rfl : field = none := Option.map_eq_none_iff.1 holds
    rfl
  | some node =>
    obtain ⟨part, rfl, isNode⟩ := Json.exists_of_value? holds
    rw [Node.readOptional?]
    have reads : Node.readPart part = some node.unshare := by
      rw [Node.readPart, isNode]
      exact returns node rfl true
    split
    · rename_i isNull
      rw [Node.readPart, isNull, Node.read?_null] at reads
      cases reads
    · rw [reads, Node.unshareOption]
      rfl

/-- A node that must be given. -/
theorem bind_of_value?
    {node : Node}
    (returns : node.Returns)
    (holds : value? field = some node.toJson) :
    field.bind Node.readPart = some node.unshare := by
  obtain ⟨part, rfl, isNode⟩ := Json.exists_of_value? holds
  rw [Option.bind_some, Node.readPart, isNode]
  exact returns true

/-- A list whose items are read as nodes. -/
theorem readList?_of_items
    {γ : Type}
    {encode : γ → Json}
    {result : γ → Node}
    {items : List γ}
    (reads : ∀ item ∈ items, Node.read? true (encode item) = some (result item))
    (holds : value? field = some (.array (items.map encode))) :
    Node.readList? Node.readPart field = some (items.map result) := by
  obtain ⟨part, rfl, isArray⟩ := Json.exists_of_value? holds
  obtain ⟨parts, found, seen⟩ := Json.part_items?_array isArray
  rw [Node.readList?, found, Option.bind_some]
  apply Json.mapM_of_view seen
  intro item isItem part isEncoded
  rw [Node.readPart, isEncoded]
  exact reads item isItem

theorem readList?_of_value?
    {nodes : List Node}
    (returns : ∀ node ∈ nodes, node.Returns)
    (holds : value? field = some (.array (Node.listJson nodes))) :
    Node.readList? Node.readPart field = some (Node.unshareList nodes) := by
  rw [listJson_eq] at holds
  rw [unshareList_eq]
  exact readList?_of_items (fun node isNode => returns node isNode true) holds

theorem readArguments?_of_value?
    {args : List Node}
    (returns : ∀ arg ∈ args, arg.Returns)
    (holds : value? field = some (.object [("nodes", .array (Node.listJson args))])) :
    Node.readArguments? Node.readPart field = some (Node.unshareList args) := by
  obtain ⟨part, rfl, isObject⟩ := Json.exists_of_value? holds
  obtain ⟨found, isFound, values⟩ := Json.part_record?_object ["nodes"]
    [some (.array (Node.listJson args))] isObject (by simp)
  obtain _ | ⟨isNodes, _ | _⟩ := values
  rw [Node.readArguments?, isFound]
  exact readList?_of_value? returns isNodes

theorem readExpression?_of_value
    {part : Part whole}
    {value : Expression}
    (returns : ∀ term ∈ value.terms, term.Returns)
    (isObject : part.val = .object (Expression.fields value)) :
    Node.readExpression? Node.readPart part = some value.unshare := by
  obtain ⟨terms, pos⟩ := value
  rw [Expression.fields] at isObject
  obtain ⟨found, isFound, values⟩ := Json.part_record?_object
    ["nodes", "lineno", "column"]
    [some (.array (Node.listJson terms)), some (ofNat pos.line),
      some (ofNat pos.column)]
    isObject (by simp)
  obtain _ | ⟨isNodes, _ | ⟨isLine, _ | ⟨isColumn, _ | _⟩⟩⟩ := values
  rw [Node.readExpression?, isFound]
  simp only [readList?_of_value? returns isNodes, readPlace?_of_value? isLine isColumn]
  rfl

theorem readOptionalExpression?_of_value?
    {value : Option Expression}
    (returns : ∀ inner ∈ value, ∀ term ∈ inner.terms, term.Returns)
    (holds : value? field = value.map fun value => .object (Expression.fields value)) :
    Node.readOptionalExpression? Node.readPart field = some (Expression.unshareOption value) := by
  cases value with
  | none =>
    obtain rfl : field = none := Option.map_eq_none_iff.1 holds
    rfl
  | some value =>
    obtain ⟨part, rfl, isObject⟩ := Json.exists_of_value? holds
    have reads := readExpression?_of_value (returns value rfl) isObject
    rw [Node.readOptionalExpression?]
    split
    · rename_i isNull
      rw [isNull] at isObject
      cases isObject
    · rw [reads, Expression.unshareOption]
      rfl

theorem readSegment?_of_value
    {part : Part whole}
    {segment : Segment}
    (returns : ∀ node ∈ segment.nodes, node.Returns)
    (isSegment : part.val = segment.json) :
    Node.readSegment? Node.readPart part = some segment.unshare := by
  obtain ⟨text, line, nodes⟩ := segment
  -- The nodes are left out when there are none, and so read as what they are.
  by_cases nothing : nodes = []
  · subst nothing
    obtain ⟨found, isFound, values⟩ := Json.part_record?_object
      ["string", "lineno", "nodes"]
      [text.map .string, some (ofNat line), none]
      isSegment (by simp)
    obtain _ | ⟨isText, _ | ⟨isLine, _ | ⟨isMissing, _ | _⟩⟩⟩ := values
    obtain rfl := Option.map_eq_none_iff.1 isMissing
    rw [Node.readSegment?, isFound]
    simp only [Json.optional_string isText, Json.withDefault_of_value? isLine]
    rfl
  · obtain ⟨found, isFound, values⟩ := Json.part_record?_object
      ["string", "lineno", "nodes"]
      [text.map .string, some (ofNat line), some (.array (Node.listJson nodes))]
      isSegment (by simp [nothing])
    obtain _ | ⟨isText, _ | ⟨isLine, _ | ⟨isNodes, _ | _⟩⟩⟩ := values
    rw [Node.readSegment?, isFound]
    simp only [Json.optional_string isText, Json.withDefault_of_value? isLine,
      readList?_of_value? returns isNodes]
    rfl

theorem readSegments?_of_value?
    {segments : List Segment}
    (returns : ∀ node ∈ segments.flatMap Segment.nodes, node.Returns)
    (holds : value? field = some (.array (Segment.listJson segments))) :
    Node.readSegments? Node.readPart field = some (Segment.unshareList segments) := by
  rw [segmentsJson_eq] at holds
  obtain ⟨part, rfl, isArray⟩ := Json.exists_of_value? holds
  obtain ⟨parts, found, seen⟩ := Json.part_items?_array isArray
  rw [Node.readSegments?, Option.bind_some, found, Option.bind_some, unshareSegments_eq]
  apply Json.mapM_of_view seen
  intro segment isSegment part isEncoded
  apply readSegment?_of_value _ isEncoded
  intro node isNode
  exact returns node (List.mem_flatMap.2 ⟨segment, isSegment, isNode⟩)

theorem setEntry_of_new
    {key : String}
    {entries : List (String × Node)}
    (isNew : key ∉ entries.map Prod.fst)
    (node : Node) :
    Node.setEntry key node entries = entries ++ [(key, node)] := by
  induction entries with
  | nil => rfl
  | cons entry rest inductionHypothesis =>
    rw [List.map_cons, List.mem_cons, not_or] at isNew
    rw [Node.setEntry, if_neg (Ne.symm isNew.1), inductionHypothesis isNew.2, List.cons_append]

/-- Setting entries with different keys, none of which is there, appends them. -/
theorem foldl_setEntry
    {done entries : List (String × Node)}
    (distinct : ((done ++ entries).map Prod.fst).Nodup) :
    entries.foldl (fun done (key, node) => Node.setEntry key node done) done = done ++ entries := by
  induction entries generalizing done with
  | nil => exact (List.append_nil done).symm
  | cons entry rest inductionHypothesis =>
    obtain ⟨key, node⟩ := entry
    have isNew : key ∉ done.map Prod.fst := by
      intro isOld
      rw [List.map_append, List.nodup_append] at distinct
      exact distinct.2.2 key isOld key (List.mem_cons_self ..) rfl
    rw [List.append_cons] at distinct ⊢
    rw [← inductionHypothesis distinct, ← setEntry_of_new isNew]
    rfl

theorem readEntries?_of_value?
    {entries : List (String × Node)}
    (distinct : (entries.map Prod.fst).Nodup)
    (returns : ∀ entry ∈ entries, entry.2.Returns)
    (holds : value? field = some (.object (Node.entriesJson entries))) :
    Node.readEntries? Node.readPart field = some (Node.unshareEntries entries) := by
  rw [entriesJson_eq] at holds
  obtain ⟨part, rfl, isObject⟩ := Json.exists_of_value? holds
  obtain ⟨parts, found, seen⟩ := Json.part_entries?_object isObject
  have sameKeys : (Node.unshareEntries entries).map Prod.fst = entries.map Prod.fst := by
    rw [unshareEntries_eq, List.map_map]
    rfl
  rw [← sameKeys] at distinct
  rw [Node.readEntries?, found, Option.bind_eq_bind, Option.bind_some]
  refine Option.bind_eq_some_iff.2 ⟨Node.unshareEntries entries, ?_, ?_⟩
  · rw [unshareEntries_eq]
    apply Json.mapM_of_view seen
    rintro entry isEntry ⟨key, inner⟩ isEncoded
    obtain ⟨rfl, isNode⟩ := Prod.mk.inj isEncoded
    have reads : Node.readPart inner = some entry.2.unshare := by
      rw [Node.readPart, isNode]
      exact returns entry isEntry true
    exact congrArg (Option.map fun node => (entry.1, node)) reads
  · exact congrArg some (foldl_setEntry distinct)

end Readers

end StyleSense
