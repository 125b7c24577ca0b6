import StyleSense.Node.Basic
import StyleSense.Number.Decimal

/-!
Contract: the source text of values.

Owns: `Node.source`, which writes a value as it could stand in a stylesheet. Nodes that are not
values are written as their tag in brackets.

Does not own: JSON (`StyleSense.Node.Json`).
-/

namespace StyleSense

mutual

/-- A value as source text. -/
def Node.source : Node → String
  | .ident name _ _ => name
  | .rgba _ raw _ => raw
  | .unit value suffix _ => Number.plain value ++ suffix.getD ""
  | .string value _ => "'" ++ value ++ "'"
  | .binary op left right _ => left.source ++ " " ++ op ++ " " ++ right.source
  | .call name args _ => name ++ "(" ++ ", ".intercalate (Node.sources args) ++ ")"
  | .expression value => value.source
  | .ternary condition whenTrue whenFalse _ =>
    condition.source ++ " ? " ++ whenTrue.source ++ " : " ++ whenFalse.source
  | .object entries _ => "\x7b" ++ ", ".intercalate (Node.entrySources entries) ++ "\x7d"
  | node => "[" ++ node.tag ++ "]"

/-- The terms of an expression with blanks between them. -/
def Expression.source : Expression → String
  | ⟨terms, _⟩ => " ".intercalate (Node.sources terms)

/-- Nodes as source texts. -/
def Node.sources : List Node → List String
  | [] => []
  | node :: rest => node.source :: Node.sources rest

/-- The entries of an object as source texts. -/
def Node.entrySources : List (String × Node) → List String
  | [] => []
  | (key, node) :: rest => (key ++ ": " ++ node.source) :: Node.entrySources rest

end

end StyleSense
