import StyleSense.Node.Statements
import StyleSense.Swatch.Occurrence

/-!
Contract: the colors of a tree, collected over lists.

Owns: the functions that collect colors and statements along a list of terms, arguments, entries or
properties, as one collection over its members.

Does not own: the terms among which colors are looked for (`StyleSense.Proofs.Swatch.Search`).
-/

namespace StyleSense

theorem argumentOccurrences_eq (args : List Node) :
    Node.argumentOccurrences args = args.flatMap Node.valueOccurrences := by
  induction args with
  | nil => rfl
  | cons arg rest inductionHypothesis =>
    rw [List.flatMap_cons, ← inductionHypothesis]
    cases arg <;> rfl

theorem termOccurrences_eq (terms : List Node) :
    Node.termOccurrences terms = terms.flatMap Node.occurrences := by
  induction terms with
  | nil => rfl
  | cons term rest inductionHypothesis => rw [List.flatMap_cons, ← inductionHypothesis]; rfl

theorem entryOccurrences_eq (entries : List (String × Node)) :
    Node.entryOccurrences entries = entries.flatMap fun entry => entry.2.valueOccurrences := by
  induction entries with
  | nil => rfl
  | cons entry rest inductionHypothesis =>
    obtain ⟨key, value⟩ := entry
    rw [List.flatMap_cons, ← inductionHypothesis]
    cases value <;> rfl

theorem propertyOccurrences_eq (nodes : List Node) :
    Node.propertyOccurrences nodes =
      nodes.flatMap fun node => if node.isProperty then node.declaredColors else [] := by
  induction nodes with
  | nil => rfl
  | cons node rest inductionHypothesis =>
    rw [List.flatMap_cons, ← inductionHypothesis]
    cases node with
    | property name value pos => cases value <;> rfl
    | _ => rfl

theorem listStatements_eq (nodes : List Node) :
    listStatements nodes = nodes.flatMap Node.statements := by
  induction nodes with
  | nil => rfl
  | cons node rest inductionHypothesis =>
    rw [List.flatMap_cons, ← inductionHypothesis, listStatements]

end StyleSense
