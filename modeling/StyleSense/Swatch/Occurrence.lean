import StyleSense.Color.Conversion
import StyleSense.Color.Named
import StyleSense.Document
import StyleSense.Node.Basic

/-!
Contract: the colors in the values of a tree.

Owns:
- `Occurrence`, a color in a value, with its channels or the reason why they cannot be computed;
- `Expression.occurrences`, the colors of a value however deep they are nested in calls, objects and
  blocks;
- `declaredColors`, the colors that statements declare.

Does not own: where a color stands in the text (`StyleSense.Swatch.Colors`).
-/

namespace StyleSense

/-- How a color is written. -/
inductive ColorForm where
  /-- A color keyword. -/
  | named
  /-- A literal of the stylesheet. -/
  | literal
  /-- A constructor call with literal channels. -/
  | function
deriving DecidableEq, Repr

/-- The name of a form. -/
def ColorForm.name : ColorForm → String
  | .named => "named-color"
  | .literal => "rgba-literal"
  | .function => "function-color"

/-- A color in a value. -/
structure Occurrence where
  form : ColorForm
  /-- The place that the tree gives. -/
  place : Place
  /-- The text to look for: the keyword, the literal or the name of the constructor. -/
  text : String
  color : Except (ColorError Float) (Rgba Float)

/-- The place of a node, counted from zero. -/
def SourcePos.place (pos : SourcePos) : Place :=
  ⟨lineIndex pos.line, pos.column - 1⟩

/-- The terms of an argument. -/
def Node.argumentTerms : Node → List Node
  | .expression value => value.terms
  | _ => []

/-- The channel that a number is. -/
def Node.channel? : Node → Option (Channel Float)
  | .unit value suffix _ => some ⟨value, suffix⟩
  | _ => none

/-- The channels that a term of a single argument is: one for a number, two for an operation on two
numbers, as in `hwb(0 0% 0% / 0.5)`. -/
def Node.channels? : Node → Option (List (Channel Float))
  | .binary _ left right _ => do return [← Node.channel? left, ← Node.channel? right]
  | term => (Node.channel? term).map fun channel => [channel]

/-- The channels of a call whose arguments are literal numbers. Of several arguments only the first
term counts; a single one has a channel for every term. -/
def literalChannels? : List Node → Option (List (Channel Float))
  | [single] => ((Node.argumentTerms single).mapM Node.channels?).map List.flatten
  | args => args.mapM fun arg => (Node.argumentTerms arg).head?.bind Node.channel?

mutual

/-- The colors that a term is or contains. -/
def Node.occurrences : Node → List Occurrence
  | .ident name _ pos =>
    if Named.isColor name then [⟨.named, pos.place, name, Named.read name⟩] else []
  | .rgba color raw pos => [⟨.literal, pos.place, raw, .ok color⟩]
  | .call name args pos =>
    match if Rgba.isConstructor name then literalChannels? args else none with
    | some channels => [⟨.function, pos.place, name, Rgba.ofCall name channels⟩]
    | none => Node.argumentOccurrences args
  | .object entries _ => Node.entryOccurrences entries
  | .atblock statements _ => Node.propertyOccurrences statements
  | _ => []

/-- The colors of a value. -/
def Expression.occurrences : Expression → List Occurrence
  | ⟨terms, _⟩ => Node.termOccurrences terms

/-- The colors of some terms. -/
def Node.termOccurrences : List Node → List Occurrence
  | [] => []
  | term :: rest => term.occurrences ++ Node.termOccurrences rest

/-- The colors in the arguments of a call. -/
def Node.argumentOccurrences : List Node → List Occurrence
  | [] => []
  | .expression value :: rest => value.occurrences ++ Node.argumentOccurrences rest
  | _ :: rest => Node.argumentOccurrences rest

/-- The colors in the values of an object. -/
def Node.entryOccurrences : List (String × Node) → List Occurrence
  | [] => []
  | (_, .expression value) :: rest => value.occurrences ++ Node.entryOccurrences rest
  | _ :: rest => Node.entryOccurrences rest

/-- The colors in the properties of a block. -/
def Node.propertyOccurrences : List Node → List Occurrence
  | [] => []
  | .property _ (some value) _ :: rest => value.occurrences ++ Node.propertyOccurrences rest
  | _ :: rest => Node.propertyOccurrences rest

end

/-- The colors of a node that is a value. -/
def Node.valueOccurrences : Node → List Occurrence
  | .expression value => value.occurrences
  | _ => []

/-- The colors that a statement declares. Of a conditional value only the last branch counts. -/
def Node.declaredColors : Node → List Occurrence
  | .ident _ (some value) _ => value.valueOccurrences
  | .property _ (some value) _ => value.occurrences
  | .ternary _ _ whenFalse _ =>
    match whenFalse with
    | .expression value => value.occurrences
    | .ident _ (some value) _ => value.valueOccurrences
    | branch => branch.occurrences
  | _ => []

/-- The colors that some statements declare. -/
def declaredColors (statements : List Node) : List Occurrence :=
  statements.flatMap Node.declaredColors

end StyleSense
