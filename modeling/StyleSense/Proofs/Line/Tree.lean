import Mathlib.Data.List.Forall2
import StyleSense.Line.Tree

/-!
Contract: lines that are nested alike.

Owns:
- `LineTree.ListAlike`, nested lines of one shape;
- `LineTree.buildForest_alike`, that only the order of the indentations matters to the nesting;
- `LineTree.forestLines_buildForest`, that nesting loses no line.

Does not own: what nested lines mean (`StyleSense.Proofs.Statement.Matching`).
-/

namespace StyleSense.LineTree

mutual

/-- Trees of one shape whose lines are related. -/
inductive Alike (R : Line → Line → Prop) : LineTree → LineTree → Prop
  | node {line line' : Line} {children children' : List LineTree}
      (lines : R line line')
      (bodies : ListAlike R children children') :
      Alike R (.node line children) (.node line' children')

/-- Lists of trees of one shape whose lines are related. -/
inductive ListAlike (R : Line → Line → Prop) : List LineTree → List LineTree → Prop
  | nil : ListAlike R [] []
  | cons {tree tree' : LineTree} {rest rest' : List LineTree}
      (first : Alike R tree tree')
      (others : ListAlike R rest rest') :
      ListAlike R (tree :: rest) (tree' :: rest')

end

variable {R : Line → Line → Prop}

/-- Of two pairs of related lines, the second is indented deeper in both texts or in neither. -/
def KeepsOrder (R : Line → Line → Prop) : Prop :=
  ∀ ⦃line line' other other' : Line⦄, R line line' → R other other' →
    (line.indent < other.indent ↔ line'.indent < other'.indent)

theorem keepsOrder_of_indent_eq
    (sameIndent : ∀ {line line' : Line}, R line line' → line.indent = line'.indent) :
    KeepsOrder R := by
  intro line line' other other' lines others
  rw [sameIndent lines, sameIndent others]

theorem Alike.line
    {tree tree' : LineTree}
    (trees : Alike R tree tree') :
    R tree.line tree'.line := by
  cases trees with
  | node lines _ => exact lines

theorem ListAlike.span
    (sameOrder : KeepsOrder R)
    {line line' : Line}
    (lines : R line line')
    {trees trees' : List LineTree}
    (forests : ListAlike R trees trees') :
    ListAlike R (trees.takeWhile fun tree => line.indent < tree.line.indent)
        (trees'.takeWhile fun tree => line'.indent < tree.line.indent) ∧
      ListAlike R (trees.dropWhile fun tree => line.indent < tree.line.indent)
        (trees'.dropWhile fun tree => line'.indent < tree.line.indent) := by
  induction trees generalizing trees' with
  | nil =>
    cases forests
    exact ⟨.nil, .nil⟩
  | cons tree rest inductionHypothesis =>
    cases forests with
    | @cons _ tree' _ rest' first others =>
      have deeper := sameOrder lines first.line
      obtain ⟨inner, outer⟩ := inductionHypothesis others
      by_cases isDeeper : line.indent < tree.line.indent
      · have isDeeper' := deeper.mp isDeeper
        simp only [List.takeWhile_cons, List.dropWhile_cons, isDeeper, isDeeper', decide_true, if_true]
        exact ⟨.cons first inner, outer⟩
      · have isDeeper' := mt deeper.mpr isDeeper
        simp only [List.takeWhile_cons, List.dropWhile_cons, isDeeper, isDeeper', decide_false,
          Bool.false_eq_true, if_false]
        exact ⟨.nil, .cons first others⟩

/-- Lines that are indented alike are nested alike. -/
theorem buildForest_alike
    (sameOrder : KeepsOrder R)
    {lines lines' : List Line}
    (pairs : List.Forall₂ R lines lines') :
    ListAlike R (buildForest lines) (buildForest lines') := by
  induction pairs with
  | nil => exact .nil
  | cons first _ inductionHypothesis =>
    obtain ⟨inner, outer⟩ := inductionHypothesis.span sameOrder first
    exact .cons (.node first inner) outer

theorem forestLines_append
    (trees others : List LineTree) :
    forestLines (trees ++ others) = forestLines trees ++ forestLines others := by
  induction trees with
  | nil => rfl
  | cons tree rest inductionHypothesis =>
    rw [List.cons_append, forestLines, forestLines, inductionHypothesis, List.append_assoc]

theorem forestLines_buildForest (lines : List Line) : forestLines (buildForest lines) = lines := by
  induction lines with
  | nil => rfl
  | cons line rest inductionHypothesis =>
    have attached : buildForest (line :: rest) = attach line (buildForest rest) := rfl
    rw [attached, attach, forestLines, LineTree.lines, List.cons_append, ← forestLines_append,
      List.takeWhile_append_dropWhile, inductionHypothesis]

theorem ListAlike.forestLines_forall₂
    {trees trees' : List LineTree}
    (forests : ListAlike R trees trees') :
    List.Forall₂ R (forestLines trees) (forestLines trees') := by
  apply @ListAlike.rec R
    (fun tree tree' _ => List.Forall₂ R tree.lines tree'.lines)
    (fun trees trees' _ => List.Forall₂ R (forestLines trees) (forestLines trees'))
    (t := forests)
  case node =>
    intro line line' children children' lines _ inner
    rw [LineTree.lines, LineTree.lines]
    exact .cons lines inner
  case nil => exact .nil
  case cons =>
    intro tree tree' rest rest' _ _ first others
    rw [forestLines, forestLines]
    exact List.rel_append first others

end StyleSense.LineTree
