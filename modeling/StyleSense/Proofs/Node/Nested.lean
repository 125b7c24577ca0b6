import StyleSense.Node.Basic

/-!
Contract: induction on a tree.

Owns:
- `Node.nested`, the nodes directly within a node: values, arguments, terms, entries, statements and
  bodies;
- `Node.nested_induction`: what holds of a node when it holds of the nodes within it holds of all.

Does not own: selectors and names, whose interpolations are no values.
-/

namespace StyleSense

/-- The nodes directly within a node. -/
def Node.nested : Node → List Node
  | .ident _ value _ => value.toList
  | .selector _ body => body.toList
  | .call _ args _ => args
  | .function _ _ body _ => body.toList
  | .binary _ left right _ => [left, right]
  | .expression value => value.terms
  | .object entries _ => entries.map Prod.snd
  | .ternary condition whenTrue whenFalse _ => [condition, whenTrue, whenFalse]
  | .property _ value _ => value.toList.flatMap Expression.terms
  | .atblock statements _ => statements
  | .rule _ body _ => [body]
  | .wrapper _ nodes body _ => nodes ++ body.toList
  | .directive _ _ body _ => body.toList
  | _ => []

theorem Expression.sizeOf_terms
    (value : Expression)
    {node : Node}
    (isTerm : node ∈ value.terms) :
    sizeOf node < sizeOf value := by
  obtain ⟨terms, pos⟩ := value
  have smaller : sizeOf node < sizeOf terms := List.sizeOf_lt_of_mem isTerm
  simp only [Expression.mk.sizeOf_spec]
  omega

theorem Node.sizeOf_nested
    {node inner : Node}
    (isInner : inner ∈ node.nested) :
    sizeOf inner < sizeOf node := by
  cases node with
  | ident name value pos | selector name value | function name params value pos
  | directive kind text value pos =>
    obtain rfl : value = some inner := Option.mem_toList.mp isInner
    simp
    omega
  | call name nodes pos =>
    have smaller : sizeOf inner < sizeOf nodes := List.sizeOf_lt_of_mem isInner
    simp only [Node.call.sizeOf_spec]
    omega
  | atblock nodes pos =>
    have smaller : sizeOf inner < sizeOf nodes := List.sizeOf_lt_of_mem isInner
    simp only [Node.atblock.sizeOf_spec]
    omega
  | binary op left right pos =>
    simp only [nested, List.mem_cons, List.not_mem_nil, or_false] at isInner
    simp only [Node.binary.sizeOf_spec]
    rcases isInner with rfl | rfl <;> omega
  | ternary condition whenTrue whenFalse pos =>
    simp only [nested, List.mem_cons, List.not_mem_nil, or_false] at isInner
    simp only [Node.ternary.sizeOf_spec]
    rcases isInner with rfl | rfl | rfl <;> omega
  | expression value =>
    have smaller := value.sizeOf_terms isInner
    simp only [Node.expression.sizeOf_spec]
    omega
  | object entries pos =>
    obtain ⟨⟨key, value⟩, isEntry, rfl⟩ := List.mem_map.mp isInner
    have smaller : sizeOf (key, value) < sizeOf entries := List.sizeOf_lt_of_mem isEntry
    simp only [Prod.mk.sizeOf_spec] at smaller
    simp only [Node.object.sizeOf_spec]
    omega
  | property name value pos =>
    cases value with
    | none => cases isInner
    | some value =>
      have smaller := value.sizeOf_terms (by simpa [nested] using isInner)
      simp only [Node.property.sizeOf_spec, Option.some.sizeOf_spec]
      omega
  | rule selectors body pos =>
    obtain rfl := List.mem_singleton.mp isInner
    simp only [Node.rule.sizeOf_spec]
    omega
  | wrapper kind nodes body pos =>
    simp only [Node.wrapper.sizeOf_spec]
    rcases List.mem_append.mp isInner with isNode | isBody
    · have smaller : sizeOf inner < sizeOf nodes := List.sizeOf_lt_of_mem isNode
      omega
    · obtain rfl : body = some inner := Option.mem_toList.mp isBody
      simp only [Option.some.sizeOf_spec]
      omega
  | rgba | unit | string | other => cases isInner

/-- What holds of a node when it holds of the nodes directly within it holds of all nodes. -/
@[elab_as_elim]
theorem Node.nested_induction
    {P : Node → Prop}
    (step : ∀ node : Node, (∀ inner ∈ node.nested, P inner) → P node)
    (node : Node) :
    P node :=
  step node fun inner _ => Node.nested_induction step inner
termination_by sizeOf node
decreasing_by
  apply Node.sizeOf_nested
  assumption

end StyleSense
