import StyleSense.Color.Named
import StyleSense.Document
import StyleSense.Node.Printer
import StyleSense.Node.Statements

/-!
Contract: swatches beside the colors of a document.

Owns:
- `Node.isColor`, whether a term looks like a color;
- `Document.decorations`, a swatch for each such term of a variable or property. Its background is
  the source text of the term, which the editor interprets.

Does not own: the channels of a color (`StyleSense.Swatch.Occurrence`).
-/

namespace StyleSense

/-- A swatch; lines and columns are counted from zero. -/
structure Decoration where
  line : Nat
  column : Nat
  background : String
deriving DecidableEq, Repr

/-- Calls that count as colors. -/
def colorCalls : List String :=
  ["rgb", "rgba", "hsl", "hsla"]

/-- Whether a term looks like a color. -/
def Node.isColor : Node → Bool
  | .ident name _ _ => Named.isColor name
  | .rgba .. => true
  | .call name _ _ => colorCalls.contains name
  | _ => false

mutual

/-- The colors among the terms of an expression, those in objects included. -/
def Expression.colorTerms : Expression → List Node
  | ⟨terms, _⟩ => Node.colorTermsOf terms

/-- The colors among some terms, those in objects included. -/
def Node.colorTermsOf : List Node → List Node
  | [] => []
  | .object entries _ :: rest => Node.entryColorTerms entries ++ Node.colorTermsOf rest
  | term :: rest => (if term.isColor then [term] else []) ++ Node.colorTermsOf rest

/-- The colors in the values of an object. -/
def Node.entryColorTerms : List (String × Node) → List Node
  | [] => []
  | (_, .expression value) :: rest => value.colorTerms ++ Node.entryColorTerms rest
  | _ :: rest => Node.entryColorTerms rest

end

/-- The color terms of a statement. -/
def Node.colorTerms : Node → List Node
  | .ident _ (some (.expression value)) _ => value.colorTerms
  | .property _ (some value) _ => value.colorTerms
  | _ => []

/-- The text to look for and the background of a color term. -/
def Node.swatchText? : Node → Option (String × String)
  | .ident name _ _ => some (name, name)
  | .rgba _ raw _ => some (raw, raw)
  | .call name args pos => some (name, (Node.call name args pos).source)
  | _ => none

/-- The swatch of a color term, at the first match on its line. -/
def Node.decoration? (document : Document) (term : Node) : Option Decoration :=
  (Node.swatchText? term).map fun (search, background) =>
    let line := lineIndex term.pos.line
    ⟨line, findColumn search.toList (document.line line), background⟩

/-- The swatches of a tree, at most `most` of them. -/
def Document.decorations (document : Document) (most : Nat) (tree : Node) : List Decoration :=
  ((tree.statements.flatMap Node.colorTerms).take most).filterMap (Node.decoration? document)

end StyleSense
