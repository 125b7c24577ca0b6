import StyleSense.Node.Basic

/-!
Contract: the statements of a tree in source order.

Owns:
- `Node.statements`, every node that can declare something, bodies included. A wrapper gives way to
  what it wraps and stands for itself only when it wraps nothing. Keyframes are not entered. A body
  that several selectors share belongs to the first of them;
- `Node.candidates`, the statements that completion offers.

Does not own: what a statement declares (`StyleSense.Symbol.Basic`).
-/

namespace StyleSense

mutual

/-- The statements of a tree. -/
def Node.statements : Node → List Node
  | .directive .keyframes text body pos => [.directive .keyframes text body pos]
  | .directive kind text body pos => .directive kind text body pos :: bodyStatements body
  | .selector head body => .selector head body :: bodyStatements body
  | .function name params body pos => .function name params body pos :: bodyStatements body
  | .expression value => .expression value :: value.statements
  | .atblock nodes pos => .atblock nodes pos :: listStatements nodes
  | .rule selectors body _ =>
    match selectors.map fun head => Node.selector head (some body) with
    | [] => body.statements
    | first :: others => first :: body.statements ++ others
  | .wrapper kind nodes body pos =>
    if nodes.isEmpty && body.isNone then [.wrapper kind nodes body pos]
    else listStatements nodes ++ bodyStatements body
  | node => [node]

/-- The statements among the terms of an expression. -/
def Expression.statements : Expression → List Node
  | ⟨terms, _⟩ => listStatements terms

/-- The statements of a body. -/
def bodyStatements : Option Node → List Node
  | none => []
  | some body => body.statements

/-- The statements of several trees in order. -/
def listStatements : List Node → List Node
  | [] => []
  | node :: rest => node.statements ++ listStatements rest

end

/-- Whether a node is an at-rule. -/
def Node.isDirective : Node → Bool
  | .directive .. => true
  | _ => false

/-- Whether a node is a property. -/
def Node.isProperty : Node → Bool
  | .property .. => true
  | _ => false

/-- The statements of a tree that completion offers: neither properties nor at-rules. -/
def Node.candidates (tree : Node) : List Node :=
  tree.statements.filter fun node => !node.isProperty && !node.isDirective

end StyleSense
