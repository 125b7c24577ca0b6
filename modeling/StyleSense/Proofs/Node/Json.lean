import StyleSense.Proofs.Node.Reading
import StyleSense.Proofs.Selector.Header

/-!
Contract: a tree that is written as JSON is read back.

A number that is not finite has no JSON, and of two entries with one key only the last is read; a
tree without these is encodable.

Owns:
- `Node.IsEncodable`, that JSON can hold what stands in a node itself;
- a lemma for each kind of node, assembled in `Node.returns_of_within`;
- `Node.returns`, that every encodable tree is read back;
- `json_reads_back`, the result, with what is read of an object whose tag is not known.

Does not own: the fields of a node (`StyleSense.Proofs.Node.Reading`), the text of a JSON value
(`StyleSense.Json.Reader`, `StyleSense.Json.Printer`).
-/

namespace StyleSense

open Json (Part given ofNat)

/-! ## What can be written -/

/-- JSON can hold the numbers and the keys of a node itself. -/
def Node.IsEncodable : Node → Prop
  | .rgba color _ _ =>
    color.red.isFinite = true ∧ color.green.isFinite = true ∧ color.blue.isFinite = true ∧
      color.alpha.isFinite = true
  | .unit value _ _ => value.isFinite = true
  | .object entries _ => (entries.map Prod.fst).Nodup
  | _ => True

instance (node : Node) : Decidable node.IsEncodable := by
  unfold Node.IsEncodable
  split <;> infer_instance

/-! ## Kinds of nodes -/

namespace Node

-- Every kind of node is written, read and unshared by the equations of these.
attribute [local simp] toJson readFields? unshare

theorem returns_ident
    {name : String}
    {value : Option Node}
    {pos : SourcePos}
    (returns : ∀ inner ∈ value, inner.Returns) :
    (ident name value pos).Returns := by
  intro isInner
  rw [toJson]
  obtain ⟨found, values, isFound, reads⟩ := read?_tagged "ident"
    (("name", .string name) :: optionField "val" value ++ pos.fields)
    ["name", "val", "lineno", "column"]
    [some (.string name), value.map toJson, some (ofNat pos.line),
      some (ofNat pos.column)]
    (by simp [optionField_eq]) (by decide) isInner
  obtain _ | ⟨isName, _ | ⟨isValue, _ | ⟨isLine, _ | ⟨isColumn, _ | _⟩⟩⟩⟩ := values
  rw [reads, readFields?, isFound]
  simp only [Json.required_of_value? isName, readOptional?_of_value? returns isValue,
    readPlace?_of_value? isLine isColumn]
  rw [unshare]
  rfl

theorem returns_call
    {name : String}
    {args : List Node}
    {pos : SourcePos}
    (returns : ∀ arg ∈ args, arg.Returns) :
    (call name args pos).Returns := by
  intro isInner
  rw [toJson]
  obtain ⟨found, values, isFound, reads⟩ := read?_tagged "call"
    (("name", .string name) :: ("args", .object [("nodes", .array (listJson args))])
      :: pos.fields)
    ["name", "args", "lineno", "column"]
    [some (.string name), some (.object [("nodes", .array (listJson args))]),
      some (ofNat pos.line), some (ofNat pos.column)]
    (by simp) (by decide) isInner
  obtain _ | ⟨isName, _ | ⟨isArgs, _ | ⟨isLine, _ | ⟨isColumn, _ | _⟩⟩⟩⟩ := values
  rw [reads, readFields?, isFound]
  simp only [Json.required_of_value? isName, readArguments?_of_value? returns isArgs,
    readPlace?_of_value? isLine isColumn]
  rw [unshare]
  rfl

theorem returns_function
    {name : String}
    {params : List String}
    {body : Option Node}
    {pos : SourcePos}
    (returns : ∀ inner ∈ body, inner.Returns) :
    (function name params body pos).Returns := by
  intro isInner
  rw [toJson]
  obtain ⟨found, values, isFound, reads⟩ := read?_tagged "function"
    (("name", .string name) :: ("params", Json.ofList .string params)
      :: optionField "block" body ++ pos.fields)
    ["name", "params", "block", "lineno", "column"]
    [some (.string name), some (Json.ofList .string params), body.map toJson,
      some (ofNat pos.line), some (ofNat pos.column)]
    (by simp [optionField_eq]) (by decide) isInner
  obtain _ | ⟨isName, _ | ⟨areParams, _ | ⟨isBody, _ | ⟨isLine, _ | ⟨isColumn, _ | _⟩⟩⟩⟩⟩ := values
  rw [reads, readFields?, isFound]
  simp only [Json.required_of_value? isName, Json.withDefault_of_value? areParams,
    Json.strings?_ofList, readOptional?_of_value? returns isBody,
    readPlace?_of_value? isLine isColumn]
  rw [unshare]
  rfl

theorem returns_rgba
    {color : Rgba Float}
    {raw : String}
    {pos : SourcePos}
    (encodable : (rgba color raw pos).IsEncodable) :
    (rgba color raw pos).Returns := by
  intro isInner
  obtain ⟨red, green, blue, alpha⟩ := encodable
  rw [toJson]
  obtain ⟨found, values, isFound, reads⟩ := read?_tagged "rgba"
    ([("r", Json.ofFloat color.red), ("g", Json.ofFloat color.green),
      ("b", Json.ofFloat color.blue), ("a", Json.ofFloat color.alpha), ("raw", .string raw)]
      ++ pos.fields)
    ["r", "g", "b", "a", "raw", "lineno", "column"]
    [some (Json.ofFloat color.red), some (Json.ofFloat color.green),
      some (Json.ofFloat color.blue), some (Json.ofFloat color.alpha), some (.string raw),
      some (ofNat pos.line), some (ofNat pos.column)]
    (by simp) (by decide) isInner
  obtain _ | ⟨isRed, _ | ⟨isGreen, _ | ⟨isBlue, _ | ⟨isAlpha, _ | ⟨isRaw, _ | ⟨isLine,
    _ | ⟨isColumn, _ | _⟩⟩⟩⟩⟩⟩⟩ := values
  rw [reads, readFields?, isFound]
  simp only [Json.required_of_value? isRed, Json.required_of_value? isGreen,
    Json.required_of_value? isBlue, Json.required_of_value? isAlpha,
    Json.required_of_value? isRaw, Json.float?_ofFloat red, Json.float?_ofFloat green,
    Json.float?_ofFloat blue, Json.float?_ofFloat alpha, readPlace?_of_value? isLine isColumn]
  rw [unshare]
  rfl

theorem returns_unit
    {value : Float}
    {suffix : Option String}
    {pos : SourcePos}
    (encodable : (unit value suffix pos).IsEncodable) :
    (unit value suffix pos).Returns := by
  intro isInner
  have isFinite : value.isFinite = true := encodable
  rw [toJson]
  obtain ⟨found, values, isFound, reads⟩ := read?_tagged "unit"
    (("val", Json.ofFloat value) :: Json.optionalField "type" .string suffix ++ pos.fields)
    ["val", "type", "lineno", "column"]
    [some (Json.ofFloat value), suffix.map .string, some (ofNat pos.line),
      some (ofNat pos.column)]
    (by simp) (by decide) isInner
  obtain _ | ⟨isValue, _ | ⟨isSuffix, _ | ⟨isLine, _ | ⟨isColumn, _ | _⟩⟩⟩⟩ := values
  rw [reads, readFields?, isFound]
  simp only [Json.required_of_value? isValue, Json.float?_ofFloat isFinite,
    Json.optional_string isSuffix, readPlace?_of_value? isLine isColumn]
  rw [unshare]
  rfl

theorem returns_binary
    {op : String}
    {left right : Node}
    {pos : SourcePos}
    (leftReturns : left.Returns)
    (rightReturns : right.Returns) :
    (binary op left right pos).Returns := by
  intro isInner
  rw [toJson]
  obtain ⟨found, values, isFound, reads⟩ := read?_tagged "binop"
    ([("op", .string op), ("left", left.toJson), ("right", right.toJson)] ++ pos.fields)
    ["op", "left", "right", "lineno", "column"]
    [some (.string op), some left.toJson, some right.toJson, some (ofNat pos.line),
      some (ofNat pos.column)]
    (by simp) (by decide) isInner
  obtain _ | ⟨isOp, _ | ⟨isLeft, _ | ⟨isRight, _ | ⟨isLine, _ | ⟨isColumn, _ | _⟩⟩⟩⟩⟩ := values
  rw [reads, readFields?, isFound]
  simp only [Json.required_of_value? isOp, bind_of_value? leftReturns isLeft,
    bind_of_value? rightReturns isRight, readPlace?_of_value? isLine isColumn]
  rw [unshare]
  rfl

theorem returns_string
    {value : String}
    {pos : SourcePos} :
    (string value pos).Returns := by
  intro isInner
  rw [toJson]
  obtain ⟨found, values, isFound, reads⟩ := read?_tagged "string"
    (("val", .string value) :: pos.fields)
    ["val", "lineno", "column"]
    [some (.string value), some (ofNat pos.line), some (ofNat pos.column)]
    (by simp) (by decide) isInner
  obtain _ | ⟨isValue, _ | ⟨isLine, _ | ⟨isColumn, _ | _⟩⟩⟩ := values
  rw [reads, readFields?, isFound]
  simp only [Json.required_of_value? isValue, readPlace?_of_value? isLine isColumn]
  rw [unshare]
  rfl

theorem returns_expression
    {terms : List Node}
    {pos : SourcePos}
    (returns : ∀ term ∈ terms, term.Returns) :
    (expression ⟨terms, pos⟩).Returns := by
  intro isInner
  rw [toJson, Expression.fields]
  obtain ⟨found, values, isFound, reads⟩ := read?_tagged "expression"
    (("nodes", .array (listJson terms)) :: pos.fields)
    ["nodes", "lineno", "column"]
    [some (.array (listJson terms)), some (ofNat pos.line), some (ofNat pos.column)]
    (by simp) (by decide) isInner
  obtain _ | ⟨areTerms, _ | ⟨isLine, _ | ⟨isColumn, _ | _⟩⟩⟩ := values
  rw [reads, readFields?, isFound]
  simp only [readList?_of_value? returns areTerms, readPlace?_of_value? isLine isColumn]
  rw [unshare, Expression.unshare]
  rfl

theorem returns_object
    {entries : List (String × Node)}
    {pos : SourcePos}
    (encodable : (object entries pos).IsEncodable)
    (returns : ∀ entry ∈ entries, entry.2.Returns) :
    (object entries pos).Returns := by
  intro isInner
  rw [toJson]
  obtain ⟨found, values, isFound, reads⟩ := read?_tagged "object"
    (("vals", .object (entriesJson entries)) :: pos.fields)
    ["vals", "lineno", "column"]
    [some (.object (entriesJson entries)), some (ofNat pos.line),
      some (ofNat pos.column)]
    (by simp) (by decide) isInner
  obtain _ | ⟨areEntries, _ | ⟨isLine, _ | ⟨isColumn, _ | _⟩⟩⟩ := values
  rw [reads, readFields?, isFound]
  simp only [readEntries?_of_value? encodable returns areEntries,
    readPlace?_of_value? isLine isColumn]
  rw [unshare]
  rfl

theorem returns_ternary
    {condition whenTrue whenFalse : Node}
    {pos : SourcePos}
    (conditionReturns : condition.Returns)
    (trueReturns : whenTrue.Returns)
    (falseReturns : whenFalse.Returns) :
    (ternary condition whenTrue whenFalse pos).Returns := by
  intro isInner
  rw [toJson]
  obtain ⟨found, values, isFound, reads⟩ := read?_tagged "ternary"
    ([("cond", condition.toJson), ("trueExpr", whenTrue.toJson),
      ("falseExpr", whenFalse.toJson)] ++ pos.fields)
    ["cond", "trueExpr", "falseExpr", "lineno", "column"]
    [some condition.toJson, some whenTrue.toJson, some whenFalse.toJson,
      some (ofNat pos.line), some (ofNat pos.column)]
    (by simp) (by decide) isInner
  obtain _ | ⟨isCondition, _ | ⟨isTrue, _ | ⟨isFalse, _ | ⟨isLine, _ | ⟨isColumn, _ | _⟩⟩⟩⟩⟩ := values
  rw [reads, readFields?, isFound]
  simp only [bind_of_value? conditionReturns isCondition, bind_of_value? trueReturns isTrue,
    bind_of_value? falseReturns isFalse, readPlace?_of_value? isLine isColumn]
  rw [unshare]
  rfl

theorem returns_property
    {name : List Segment}
    {value : Option Expression}
    {pos : SourcePos}
    (nameReturns : ∀ node ∈ name.flatMap Segment.nodes, node.Returns)
    (returns : ∀ inner ∈ value, ∀ term ∈ inner.terms, term.Returns) :
    (property name value pos).Returns := by
  intro isInner
  rw [toJson]
  obtain ⟨found, values, isFound, reads⟩ := read?_tagged "property"
    (("segments", .array (Segment.listJson name)) :: Expression.optionField value
      ++ pos.fields)
    ["segments", "expr", "lineno", "column"]
    [some (.array (Segment.listJson name)),
      value.map fun value => .object (Expression.fields value), some (ofNat pos.line),
      some (ofNat pos.column)]
    (by simp [expressionField_eq]) (by decide) isInner
  obtain _ | ⟨isName, _ | ⟨isValue, _ | ⟨isLine, _ | ⟨isColumn, _ | _⟩⟩⟩⟩ := values
  rw [reads, readFields?, isFound]
  simp only [readSegments?_of_value? nameReturns isName,
    readOptionalExpression?_of_value? returns isValue, readPlace?_of_value? isLine isColumn]
  rw [unshare]
  rfl

theorem returns_atblock
    {statements : List Node}
    {pos : SourcePos}
    (returns : ∀ node ∈ statements, node.Returns) :
    (atblock statements pos).Returns := by
  intro isInner
  rw [toJson]
  obtain ⟨found, values, isFound, reads⟩ := read?_tagged "atblock"
    (("nodes", .array (listJson statements)) :: pos.fields)
    ["nodes", "lineno", "column"]
    [some (.array (listJson statements)), some (ofNat pos.line),
      some (ofNat pos.column)]
    (by simp) (by decide) isInner
  obtain _ | ⟨areNodes, _ | ⟨isLine, _ | ⟨isColumn, _ | _⟩⟩⟩ := values
  rw [reads, readFields?, isFound]
  simp only [readList?_of_value? returns areNodes, readPlace?_of_value? isLine isColumn]
  rw [unshare]
  rfl

/-- A selector, whose body may be one that it shares. -/
theorem read?_selector
    {head : Selector}
    {body : Option Node}
    (headReturns : ∀ node ∈ head.segments.flatMap Segment.nodes, node.Returns)
    (returns : ∀ inner ∈ body, inner.Returns)
    (isInner : Bool) :
    read? isInner (Selector.toJson head (optionField "block" body)) =
      some (selector head.unshare (unshareOption body)) := by
  obtain ⟨segments, pos⟩ := head
  rw [Selector.toJson]
  obtain ⟨found, values, isFound, reads⟩ := read?_tagged "selector"
    (("segments", .array (Segment.listJson segments)) :: optionField "block" body
      ++ pos.fields)
    ["segments", "block", "lineno", "column"]
    [some (.array (Segment.listJson segments)), body.map toJson,
      some (ofNat pos.line), some (ofNat pos.column)]
    (by simp [optionField_eq]) (by decide) isInner
  obtain _ | ⟨areSegments, _ | ⟨isBody, _ | ⟨isLine, _ | ⟨isColumn, _ | _⟩⟩⟩⟩ := values
  rw [reads, readFields?, isFound]
  simp only [readSegments?_of_value? headReturns areSegments,
    readOptional?_of_value? returns isBody, readPlace?_of_value? isLine isColumn]
  rw [Selector.unshare]
  rfl

theorem returns_selector
    {head : Selector}
    {body : Option Node}
    (headReturns : ∀ node ∈ head.segments.flatMap Segment.nodes, node.Returns)
    (returns : ∀ inner ∈ body, inner.Returns) :
    (selector head body).Returns := by
  intro isInner
  rw [toJson, unshare]
  exact read?_selector headReturns returns isInner

theorem readFields?_wrapper
    {whole : Json}
    (kind : Wrapper)
    (read : Part whole → Option Node)
    (fields : List String → Option (List (Option (Part whole)))) :
    readFields? read kind.tag fields =
      match fields ["nodes", "block", "lineno", "column"] with
      | some [nodes, block, line, column] => do
        let nodes ← readList? read nodes
        return wrapper kind nodes (← readOptional? read block) (← readPlace? line column)
      | _ => none := by
  cases kind <;> rfl

/-- A wrapper, whose nodes may be written in a way of their own. -/
theorem read?_wrapper
    {γ : Type}
    {encode : γ → Json}
    {result : γ → Node}
    {items : List γ}
    {body : Option Node}
    (itemReads : ∀ item ∈ items, read? true (encode item) = some (result item))
    (returns : ∀ inner ∈ body, inner.Returns)
    (kind : Wrapper)
    (pos : SourcePos)
    (isInner : Bool) :
    read? isInner (tagged kind.tag
        (("nodes", .array (items.map encode)) :: optionField "block" body ++ pos.fields)) =
      some (wrapper kind (items.map result) (unshareOption body) pos) := by
  obtain ⟨found, values, isFound, reads⟩ := read?_tagged kind.tag
    (("nodes", .array (items.map encode)) :: optionField "block" body ++ pos.fields)
    ["nodes", "block", "lineno", "column"]
    [some (.array (items.map encode)), body.map toJson, some (ofNat pos.line),
      some (ofNat pos.column)]
    (by simp [optionField_eq]) (by decide) isInner
  obtain _ | ⟨areNodes, _ | ⟨isBody, _ | ⟨isLine, _ | ⟨isColumn, _ | _⟩⟩⟩⟩ := values
  rw [reads, readFields?_wrapper, isFound]
  simp only [readList?_of_items itemReads areNodes, readOptional?_of_value? returns isBody,
    readPlace?_of_value? isLine isColumn]
  rfl

theorem returns_wrapper
    {kind : Wrapper}
    {nodes : List Node}
    {body : Option Node}
    {pos : SourcePos}
    (nodesReturn : ∀ node ∈ nodes, node.Returns)
    (returns : ∀ inner ∈ body, inner.Returns) :
    (wrapper kind nodes body pos).Returns := by
  intro isInner
  rw [toJson, unshare, listJson_eq, unshareList_eq]
  exact read?_wrapper (fun node isNode => nodesReturn node isNode true) returns kind pos isInner

/-- The selectors of a rule are written with the body that they share, and read with one each. -/
theorem returns_rule
    {selectors : List Selector}
    {body : Node}
    {pos : SourcePos}
    (headReturns : ∀ node ∈ (selectors.flatMap Selector.segments).flatMap Segment.nodes,
      node.Returns)
    (returns : body.Returns) :
    (rule selectors body pos).Returns := by
  intro isInner
  have bodyReturns : ∀ inner ∈ some body, inner.Returns := by
    intro inner isBody
    rwa [← Option.some.inj isBody]
  have reads : ∀ head ∈ selectors,
      read? true (Selector.toJson head (optionField "block" (some body))) =
        some (selector head.unshare (unshareOption (some body))) := by
    intro head isHead
    apply read?_selector _ bodyReturns
    intro node isNode
    obtain ⟨segment, isSegment, isWithin⟩ := List.mem_flatMap.1 isNode
    exact headReturns node (List.mem_flatMap.2
      ⟨segment, List.mem_flatMap.2 ⟨head, isHead, isSegment⟩, isWithin⟩)
  have whole := read?_wrapper reads bodyReturns .group pos isInner
  rw [toJson, unshare, selectorsJson_eq, unshareSelectors_eq, List.map_map]
  rw [unshareOption, optionField] at whole
  exact whole

theorem readFields?_directive
    {whole : Json}
    (kind : Directive)
    (read : Part whole → Option Node)
    (fields : List String → Option (List (Option (Part whole)))) :
    readFields? read kind.tag fields =
      match fields ["val", "block", "lineno", "column"] with
      | some [text, block, line, column] => do
        let text ← Json.optional Json.string? text
        let block ← readOptional? read block
        return directive kind text block (← readPlace? line column)
      | _ => none := by
  cases kind <;> rfl

theorem returns_directive
    {kind : Directive}
    {text : Option String}
    {body : Option Node}
    {pos : SourcePos}
    (returns : ∀ inner ∈ body, inner.Returns) :
    (directive kind text body pos).Returns := by
  intro isInner
  rw [toJson]
  obtain ⟨found, values, isFound, reads⟩ := read?_tagged kind.tag
    (Json.optionalField "val" .string text ++ optionField "block" body ++ pos.fields)
    ["val", "block", "lineno", "column"]
    ([text.map .string, body.map toJson, some (ofNat pos.line),
      some (ofNat pos.column)])
    (by simp [optionField_eq]) (by decide) isInner
  obtain _ | ⟨isText, _ | ⟨isBody, _ | ⟨isLine, _ | ⟨isColumn, _ | _⟩⟩⟩⟩ := values
  rw [reads, readFields?_directive, isFound]
  simp only [Json.optional_string isText, readOptional?_of_value? returns isBody,
    readPlace?_of_value? isLine isColumn]
  rw [unshare]
  rfl

theorem returns_other : other.Returns := by
  intro isInner
  rw [toJson, unshare]
  exact read?_unknown rfl (fun _ => rfl) isInner

/-! ## Whole trees -/

/-- The nodes directly within a node, those in its selectors and its name included. -/
def within (node : Node) : List Node :=
  node.nested ++ node.segments.flatMap Segment.nodes

/-- A node returns when the nodes within it do. -/
theorem returns_of_within
    {node : Node}
    (encodable : node.IsEncodable)
    (returns : ∀ inner ∈ node.within, inner.Returns) :
    node.Returns := by
  have nested : ∀ inner ∈ node.nested, inner.Returns :=
    fun inner isIn => returns inner (List.mem_append_left _ isIn)
  have segments : ∀ inner ∈ node.segments.flatMap Segment.nodes, inner.Returns :=
    fun inner isIn => returns inner (List.mem_append_right _ isIn)
  cases node with
  | ident name value pos =>
    exact returns_ident fun inner isIn => nested inner (Option.mem_toList.2 isIn)
  | selector head body =>
    exact returns_selector segments fun inner isIn => nested inner (Option.mem_toList.2 isIn)
  | call name args pos => exact returns_call nested
  | function name params body pos =>
    exact returns_function fun inner isIn => nested inner (Option.mem_toList.2 isIn)
  | rgba color raw pos => exact returns_rgba encodable
  | unit value suffix pos => exact returns_unit encodable
  | binary op left right pos =>
    exact returns_binary (nested left (by simp [Node.nested])) (nested right (by simp [Node.nested]))
  | string value pos => exact returns_string
  | expression value =>
    obtain ⟨terms, pos⟩ := value
    exact returns_expression nested
  | object entries pos =>
    exact returns_object encodable fun entry isEntry =>
      nested entry.2 (List.mem_map_of_mem isEntry)
  | ternary condition whenTrue whenFalse pos =>
    exact returns_ternary (nested condition (by simp [Node.nested]))
      (nested whenTrue (by simp [Node.nested])) (nested whenFalse (by simp [Node.nested]))
  | property name value pos =>
    refine returns_property segments fun inner isValue term isTerm => nested term ?_
    exact List.mem_flatMap.2 ⟨inner, Option.mem_toList.2 isValue, isTerm⟩
  | atblock statements pos => exact returns_atblock nested
  | rule selectors body pos =>
    exact returns_rule segments (nested body (List.mem_singleton_self body))
  | wrapper kind nodes body pos =>
    exact returns_wrapper (fun node isNode => nested node (List.mem_append_left _ isNode))
      fun inner isIn => nested inner (List.mem_append_right _ (Option.mem_toList.2 isIn))
  | directive kind text body pos =>
    exact returns_directive fun inner isIn => nested inner (Option.mem_toList.2 isIn)
  | other => exact returns_other

theorem sizeOf_segments
    {segments : List Segment}
    {node : Node}
    (isIn : node ∈ segments.flatMap Segment.nodes) :
    sizeOf node < sizeOf segments := by
  obtain ⟨⟨text, line, nodes⟩, isSegment, isNode⟩ := List.mem_flatMap.1 isIn
  have inNodes : sizeOf node < sizeOf nodes := List.sizeOf_lt_of_mem isNode
  have inSegments := List.sizeOf_lt_of_mem isSegment
  simp only [Segment.mk.sizeOf_spec] at inSegments
  omega

theorem sizeOf_heads
    {heads : List Selector}
    {node : Node}
    (isIn : node ∈ (heads.flatMap Selector.segments).flatMap Segment.nodes) :
    sizeOf node < sizeOf heads := by
  obtain ⟨segment, isSegment, isNode⟩ := List.mem_flatMap.1 isIn
  obtain ⟨⟨segments, pos⟩, isHead, isWithin⟩ := List.mem_flatMap.1 isSegment
  have inSegments : sizeOf node < sizeOf segments :=
    sizeOf_segments (List.mem_flatMap.2 ⟨segment, isWithin, isNode⟩)
  have inHeads := List.sizeOf_lt_of_mem isHead
  simp only [Selector.mk.sizeOf_spec] at inHeads
  omega

theorem sizeOf_within
    {node inner : Node}
    (isWithin : inner ∈ node.within) :
    sizeOf inner < sizeOf node := by
  rcases List.mem_append.1 isWithin with isNested | isSegment
  · exact sizeOf_nested isNested
  · cases node with
    | selector head body =>
      obtain ⟨segments, pos⟩ := head
      have inSegments : sizeOf inner < sizeOf segments := sizeOf_segments isSegment
      simp only [selector.sizeOf_spec, Selector.mk.sizeOf_spec]
      omega
    | property name value pos =>
      have inName : sizeOf inner < sizeOf name := sizeOf_segments isSegment
      simp only [property.sizeOf_spec]
      omega
    | rule heads body pos =>
      have inHeads : sizeOf inner < sizeOf heads := sizeOf_heads isSegment
      simp only [rule.sizeOf_spec]
      omega
    | _ => cases isSegment

theorem mem_parts_of_mem_within
    {node inner : Node}
    (isWithin : inner ∈ node.within) :
    inner ∈ node.parts := by
  rcases List.mem_append.1 isWithin with isNested | isSegment
  · exact List.mem_append_left _ (List.mem_append_left _ isNested)
  · exact List.mem_append_right _ isSegment

/-- Every tree that can be written returns. -/
theorem returns
    (tree : Node)
    (encodable : tree.Everywhere IsEncodable) :
    tree.Returns :=
  returns_of_within (encodable tree .refl) fun inner isWithin =>
    inner.returns fun node contains =>
      encodable node (.head (mem_parts_of_mem_within isWithin) contains)
termination_by sizeOf tree
decreasing_by exact sizeOf_within isWithin

end Node

/-- The JSON of a tree whose numbers are finite and whose objects have no key twice is read back as
that tree, with a body of its own for every selector; and an object whose one tag is not known is
read as an unknown node, whatever else it has and wherever it stands. -/
theorem json_reads_back :
    (∀ tree : Node, tree.Everywhere Node.IsEncodable →
      Node.ofJson? tree.toJson = some tree.unshare) ∧
    ∀ (members : List (String × Json)) (tag : String) (isInner : Bool),
      given members "nodeName" = [.string tag] → (tag ∈ nodeTags → tag = "other") →
        Node.read? isInner (.object members) = some .other := by
  constructor
  · intro tree encodable
    exact tree.returns encodable false
  · intro members tag isInner tagged unknown
    exact Node.read?_unknown tagged unknown isInner

/-- A rule whose selector shares its body, a property with an object, and a tag that is not known. -/
theorem json_reads_back_shared_body :
    let pos : SourcePos := ⟨1, 1⟩
    let size : Node := .unit 0.5 (some "px") pos
    let object : Node := .object [("width", size), ("name", .other)] pos
    let body : Node := .property [⟨none, 1, [size]⟩] (some ⟨[object], pos⟩) pos
    let head : Selector := ⟨[⟨some ".b", 1, []⟩], pos⟩
    let tree : Node := .rule [head] body pos
    let comment := [("val", Json.null), ("nodeName", .string "comment")]
    tree.Everywhere Node.IsEncodable ∧
      Node.ofJson? tree.toJson =
        some (.wrapper .group [.selector head (some body)] (some body) pos) ∧
      Node.ofJson? (.object comment) = some .other := by
  intro pos size object body head tree comment
  have ofSize : size.Everywhere Node.IsEncodable :=
    Node.everywhere_of_parts (by decide) fun part isPart => nomatch isPart
  have ofOther : Node.other.Everywhere Node.IsEncodable :=
    Node.everywhere_of_parts trivial fun part isPart => nomatch isPart
  have ofObject : object.Everywhere Node.IsEncodable := by
    have members : ∀ part ∈ [size, .other], part.Everywhere Node.IsEncodable :=
      List.forall_mem_cons.2 ⟨ofSize, List.forall_mem_singleton.2 ofOther⟩
    exact Node.everywhere_of_parts (by decide : object.IsEncodable) members
  have ofBody : body.Everywhere Node.IsEncodable := by
    have members : ∀ part ∈ [object, size], part.Everywhere Node.IsEncodable :=
      List.forall_mem_cons.2 ⟨ofObject, List.forall_mem_singleton.2 ofSize⟩
    exact Node.everywhere_of_parts (trivial : body.IsEncodable) members
  have ofSelector : (Node.selector head (some body)).Everywhere Node.IsEncodable :=
    Node.everywhere_of_parts (trivial : (Node.selector head (some body)).IsEncodable)
      (List.forall_mem_singleton.2 ofBody)
  have encodable : tree.Everywhere Node.IsEncodable := by
    have members : ∀ part ∈ [body, .selector head (some body)],
        part.Everywhere Node.IsEncodable :=
      List.forall_mem_cons.2 ⟨ofBody, List.forall_mem_singleton.2 ofSelector⟩
    exact Node.everywhere_of_parts (trivial : tree.IsEncodable) members
  obtain ⟨reads, unknown⟩ := json_reads_back
  refine ⟨encodable, reads tree encodable, ?_⟩
  exact unknown comment "comment" false rfl (by decide)

end StyleSense
