import Mathlib.Data.List.TakeWhile
import StyleSense.Proofs.Line.Tree

/-!
Contract: the parent of a line.

Owns:
- `LineTree.readForest`, nesting as a descent through the lines: the lines below a line are read
  before the next one is looked at, and every level takes its lines from what the others left;
- `LineTree.readForest_eq`: the descent builds the same trees, up to the first line that is not
  indented deeper than its limit;
- `LineTree.forestParents`, where the parent of each line stands, and `LineTree.IsParent`, the
  nearest line before it that is indented less;
- `LineTree.buildForest_parents`: nesting takes every line, keeps their order, and the parent of each
  is the nearest line before it that is indented less.

Does not own: lines that are nested alike (`StyleSense.Proofs.Line.Tree`).
-/

namespace StyleSense.LineTree

/-! ## One more line at the front -/

section Front

variable (top : Line) (rest : List Line)

/-- The trees of `rest` that come to stand below a line in front of it. -/
def bodyTrees : List LineTree :=
  (buildForest rest).takeWhile fun tree => decide (top.indent < tree.line.indent)

/-- The trees of `rest` that stay beside a line in front of it. -/
def laterTrees : List LineTree :=
  (buildForest rest).dropWhile fun tree => decide (top.indent < tree.line.indent)

theorem buildForest_cons :
    buildForest (top :: rest) = node top (bodyTrees top rest) :: laterTrees top rest :=
  rfl

theorem bodyTrees_append_laterTrees : bodyTrees top rest ++ laterTrees top rest = buildForest rest :=
  List.takeWhile_append_dropWhile

theorem laterTrees_suffix : laterTrees top rest <:+ buildForest rest :=
  List.dropWhile_suffix _

theorem forestLines_bodyTrees_append :
    forestLines (bodyTrees top rest) ++ forestLines (laterTrees top rest) = rest := by
  rw [← forestLines_append, bodyTrees_append_laterTrees, forestLines_buildForest]

end Front

/-! ## Nesting as a descent -/

/-- The trees of the lines that are indented deeper than `limit`, up to the first that is not, and the
lines from that one on. -/
def readForest (limit : Option Nat) :
    (lines : List Line) → { read : List LineTree × List Line // read.2.length ≤ lines.length }
  | [] => ⟨([], []), Nat.le_refl 0⟩
  | line :: rest =>
    if limit.all (· < line.indent) then
      let body := readForest (some line.indent) rest
      let others := readForest limit body.1.2
      ⟨(node line body.1.1 :: others.1.1, others.1.2),
        Nat.le_succ_of_le (Nat.le_trans others.2 body.2)⟩
    else ⟨([], line :: rest), Nat.le_refl _⟩
termination_by lines => lines.length
decreasing_by
  · simp
  · exact Nat.lt_succ_of_le body.2

/-- The trees at the end of a forest are built from their own lines. -/
theorem buildForest_forestLines
    {lines : List Line}
    {trees : List LineTree}
    (isEnd : trees <:+ buildForest lines) :
    buildForest (forestLines trees) = trees := by
  induction lines with
  | nil =>
    obtain rfl := List.suffix_nil.mp isEnd
    rfl
  | cons line rest inductionHypothesis =>
    rw [buildForest_cons] at isEnd
    rcases List.suffix_cons_iff.mp isEnd with whole | isLater
    · rw [whole, ← buildForest_cons, forestLines_buildForest]
    · exact inductionHypothesis (isLater.trans (laterTrees_suffix line rest))

/-- The descent builds the same trees. -/
theorem readForest_eq
    (limit : Option Nat)
    (lines : List Line) :
    (readForest limit lines).1 =
      ((buildForest lines).takeWhile (fun tree => limit.all (· < tree.line.indent)),
        forestLines ((buildForest lines).dropWhile fun tree => limit.all (· < tree.line.indent))) := by
  cases lines with
  | nil => rw [readForest]; rfl
  | cons line rest =>
    have body : (readForest (some line.indent) rest).1 =
        (bodyTrees line rest, forestLines (laterTrees line rest)) :=
      readForest_eq (some line.indent) rest
    have others := readForest_eq limit (readForest (some line.indent) rest).1.2
    rw [readForest, buildForest_cons]
    by_cases isDeeper : limit.all (· < line.indent) = true
    · rw [if_pos isDeeper, List.takeWhile_cons_of_pos (by exact isDeeper),
        List.dropWhile_cons_of_pos (by exact isDeeper)]
      simp only [body] at others ⊢
      rw [others, buildForest_forestLines (laterTrees_suffix line rest)]
    · rw [if_neg isDeeper, List.takeWhile_cons_of_neg (by exact isDeeper),
        List.dropWhile_cons_of_neg (by exact isDeeper), ← buildForest_cons,
        forestLines_buildForest]
termination_by lines.length
decreasing_by
  · simp
  · exact Nat.lt_succ_of_le (readForest (some line.indent) rest).2

/-- Without a limit the descent takes every line. -/
theorem readForest_none (lines : List Line) : (readForest none lines).1 = (buildForest lines, []) := by
  have all : ∀ tree ∈ buildForest lines, Option.all (· < tree.line.indent) none = true :=
    fun _ _ => rfl
  rw [readForest_eq, List.takeWhile_eq_self_iff.mpr all, List.dropWhile_eq_nil_iff.mpr all]
  rfl

/-! ## Parents -/

mutual

/-- Where the parent of each line of a tree stands, from top to bottom: the tree itself stands at
position `start`, under the line at `parent` if there is one. -/
def parents (parent : Option Nat) (start : Nat) : LineTree → List (Option Nat)
  | node _ children => parent :: forestParents (some start) (start + 1) children

/-- Where the parent of each line of some trees stands, from top to bottom: the first tree stands at
position `start`, all of them under the line at `parent` if there is one. -/
def forestParents (parent : Option Nat) (start : Nat) : List LineTree → List (Option Nat)
  | [] => []
  | tree :: rest =>
    tree.parents parent start ++ forestParents parent (start + tree.lines.length) rest

end

/-- The parent of a line after the lines `before`: the nearest of them that is indented less, or
nothing when none is. -/
def IsParent (before : List Line) (line : Line) : Option Nat → Prop
  | none => ∀ other ∈ before, line.indent ≤ other.indent
  | some position => ∃ front outer between, before = front ++ outer :: between ∧
      front.length = position ∧ outer.indent < line.indent ∧
      ∀ other ∈ between, line.indent ≤ other.indent

mutual

theorem length_parents
    (parent : Option Nat)
    (start : Nat) :
    ∀ tree : LineTree, (tree.parents parent start).length = tree.lines.length
  | node line children => by
    rw [parents, lines, List.length_cons, List.length_cons, length_forestParents]

theorem length_forestParents
    (parent : Option Nat)
    (start : Nat) :
    ∀ trees : List LineTree, (forestParents parent start trees).length = (forestLines trees).length
  | [] => rfl
  | tree :: rest => by
    rw [forestParents, forestLines, List.length_append, List.length_append, length_parents,
      length_forestParents]

end

section Moving

variable {move : Option Nat → Option Nat} {count : Nat}

mutual

/-- Positions are moved together with the place of the trees. -/
theorem parents_move
    (moves : ∀ position, move (some position) = some (position + count))
    (parent : Option Nat)
    (start : Nat) :
    ∀ tree : LineTree,
      tree.parents (move parent) (start + count) = (tree.parents parent start).map move
  | node line children => by
    have inner := forestParents_move moves (some start) (start + 1) children
    rw [moves, Nat.add_right_comm] at inner
    rw [parents, parents, List.map_cons, inner]

theorem forestParents_move
    (moves : ∀ position, move (some position) = some (position + count))
    (parent : Option Nat)
    (start : Nat) :
    ∀ trees : List LineTree, forestParents (move parent) (start + count) trees =
      (forestParents parent start trees).map move
  | [] => rfl
  | tree :: rest => by
    rw [forestParents, forestParents, List.map_append, parents_move moves,
      Nat.add_right_comm start count, forestParents_move moves]

end

end Moving

theorem forestParents_append
    (parent : Option Nat)
    (start : Nat)
    (trees others : List LineTree) :
    forestParents parent start (trees ++ others) = forestParents parent start trees ++
      forestParents parent (start + (forestLines trees).length) others := by
  induction trees generalizing start with
  | nil => rfl
  | cons tree rest inductionHypothesis =>
    rw [List.cons_append, forestParents, forestParents, inductionHypothesis, forestLines,
      List.length_append, List.append_assoc, Nat.add_assoc]

theorem mem_forestLines
    {trees : List LineTree}
    {line : Line} :
    line ∈ forestLines trees ↔ ∃ tree ∈ trees, line ∈ tree.lines := by
  induction trees with
  | nil => simp [forestLines]
  | cons tree rest inductionHypothesis =>
    rw [forestLines, List.mem_append, inductionHypothesis]
    simp

/-- No line of a tree is indented less than the line at its top. -/
theorem indent_le_of_mem_lines
    {lines : List Line}
    {tree : LineTree}
    (isBuilt : tree ∈ buildForest lines)
    {line : Line}
    (isIn : line ∈ tree.lines) :
    tree.line.indent ≤ line.indent := by
  induction lines generalizing tree with
  | nil => cases isBuilt
  | cons top rest inductionHypothesis =>
    rcases List.mem_cons.mp isBuilt with rfl | isLater
    · rw [LineTree.lines] at isIn
      rcases List.mem_cons.mp isIn with rfl | isBelow
      · exact Nat.le_refl _
      · obtain ⟨child, isChild, isIn⟩ := mem_forestLines.mp isBelow
        have isDeeper : top.indent < child.line.indent := by
          simpa using List.mem_takeWhile_imp isChild
        have inner := inductionHypothesis ((List.takeWhile_prefix _).subset isChild) isIn
        exact Nat.le_trans (Nat.le_of_lt isDeeper) inner
    · exact inductionHypothesis ((List.dropWhile_suffix _).subset isLater) isIn

/-! ## Parents after one more line at the front -/

section Front

variable (top : Line) (rest : List Line)

/-- The lines below the line in front are indented deeper. -/
theorem indent_lt_of_mem_bodyTrees
    {line : Line}
    (isBelow : line ∈ forestLines (bodyTrees top rest)) :
    top.indent < line.indent := by
  obtain ⟨tree, isTree, isIn⟩ := mem_forestLines.mp isBelow
  have isDeeper : top.indent < tree.line.indent := by simpa using List.mem_takeWhile_imp isTree
  exact Nat.lt_of_lt_of_le isDeeper
    (indent_le_of_mem_lines ((List.takeWhile_prefix _).subset isTree) isIn)

/-- The first line beside the line in front is not indented deeper. -/
theorem indent_le_of_laterTrees
    {tree : LineTree}
    {others : List LineTree}
    (isBeside : laterTrees top rest = tree :: others) :
    tree.line.indent ≤ top.indent := by
  have stops := List.head_dropWhile_not
    (fun tree : LineTree => decide (top.indent < tree.line.indent)) (l := buildForest rest)
    (by rw [← laterTrees, isBeside]; exact List.cons_ne_nil _ _)
  simp only [laterTrees] at isBeside
  simpa [isBeside] using stops

/-- A position after one more line at the front. A line without a parent gets that line when it comes to
stand below it. -/
def moved (isBelow : Bool) : Option Nat → Option Nat
  | some position => some (position + 1)
  | none => if isBelow then some 0 else none

/-- The parents of the lines after one more line at the front. -/
theorem forestParents_cons
    (position : Nat) :
    (forestParents none 0 (buildForest (top :: rest)))[position + 1]? =
      (forestParents none 0 (buildForest rest))[position]?.map
        (moved (position < (forestLines (bodyTrees top rest)).length)) := by
  let count := (forestLines (bodyTrees top rest)).length
  have inner : forestParents (some 0) 1 (bodyTrees top rest) =
      (forestParents none 0 (bodyTrees top rest)).map (moved true) :=
    @forestParents_move (moved true) 1 (fun _ => rfl) none 0 _
  have outer : forestParents none (count + 1) (laterTrees top rest) =
      (forestParents none count (laterTrees top rest)).map (moved false) :=
    @forestParents_move (moved false) 1 (fun _ => rfl) none count _
  have start : 0 + (node top (bodyTrees top rest)).lines.length = count + 1 := by
    rw [LineTree.lines, List.length_cons, Nat.zero_add]
  have counted : (forestParents none 0 (bodyTrees top rest)).length = count := length_forestParents ..
  rw [buildForest_cons, forestParents, parents, start, Nat.zero_add, inner, outer, List.cons_append,
    List.getElem?_cons_succ, ← bodyTrees_append_laterTrees top rest, forestParents_append,
    Nat.zero_add]
  by_cases isInside : position < count
  · rw [List.getElem?_append_left (by rwa [List.length_map, counted]),
      List.getElem?_append_left (by rwa [counted]), List.getElem?_map, decide_eq_true isInside]
  · have isAfter := Nat.le_of_not_lt isInside
    rw [List.getElem?_append_right (by rwa [List.length_map, counted]),
      List.getElem?_append_right (by rwa [counted]), List.getElem?_map, List.length_map,
      decide_eq_false isInside]

end Front

theorem isParent_cons
    {top line : Line}
    {before : List Line}
    {parent : Option Nat}
    (isParent : IsParent before line parent)
    {isBelow : Bool}
    (decided : parent = none → (isBelow = true ↔ top.indent < line.indent)) :
    IsParent (top :: before) line (moved isBelow parent) := by
  cases parent with
  | some position =>
    obtain ⟨front, outer, between, rfl, rfl, isLess, notLess⟩ := isParent
    exact ⟨top :: front, outer, between, rfl, rfl, isLess, notLess⟩
  | none =>
    cases isBelow with
    | true => exact ⟨[], top, before, rfl, rfl, (decided rfl).mp rfl, isParent⟩
    | false =>
      have notLess : line.indent ≤ top.indent :=
        Nat.le_of_not_lt (mt (decided rfl).mpr (by decide))
      exact List.forall_mem_cons.mpr ⟨notLess, isParent⟩

/-- A line that is indented no deeper than the lines before it comes to stand below a line in front of
them all just when it is indented deeper. -/
theorem isBelow_iff
    {top line : Line}
    {rest before after : List Line}
    (split : rest = before ++ line :: after)
    (notLess : ∀ other ∈ before, line.indent ≤ other.indent) :
    before.length < (forestLines (bodyTrees top rest)).length ↔ top.indent < line.indent := by
  have whole := forestLines_bodyTrees_append top rest
  have isDeeper := fun line => @indent_lt_of_mem_bodyTrees top rest line
  generalize forestLines (bodyTrees top rest) = inside at whole isDeeper ⊢
  have here : (before ++ line :: after)[before.length]? = some line := by simp
  constructor
  · intro isInside
    rw [← split, ← whole, List.getElem?_append_left isInside] at here
    exact isDeeper line (List.mem_of_getElem? here)
  · intro isDeep
    by_contra isAfter
    have isAfter := Nat.le_of_not_lt isAfter
    cases isBeside : laterTrees top rest with
    | nil =>
      rw [← split, ← whole, isBeside, forestLines, List.append_nil,
        List.getElem?_eq_none isAfter] at here
      cases here
    | cons tree others =>
      -- the line at the top of the first tree beside the one in front is this line or before it
      have isFirst := indent_le_of_laterTrees top rest isBeside
      have first : (before ++ line :: after)[inside.length]? = some tree.line := by
        obtain ⟨top', children⟩ := tree
        rw [← split, ← whole, isBeside, List.getElem?_append_right (Nat.le_refl _), Nat.sub_self]
        rfl
      have notDeeper : line.indent ≤ tree.line.indent := by
        rcases Nat.eq_or_lt_of_le isAfter with same | isBefore
        · rw [same, here] at first
          exact Nat.le_of_eq (congrArg Line.indent (Option.some.inj first))
        · rw [List.getElem?_append_left isBefore] at first
          exact notLess _ (List.mem_of_getElem? first)
      omega

/-- The parent of a line is the nearest line before it that is indented less. -/
theorem exists_parent
    {lines before after : List Line}
    {line : Line}
    (split : lines = before ++ line :: after) :
    ∃ parent, (forestParents none 0 (buildForest lines))[before.length]? = some parent ∧
      IsParent before line parent := by
  induction lines generalizing before with
  | nil => simp at split
  | cons top rest inductionHypothesis =>
    cases before with
    | nil => exact ⟨none, rfl, fun other isIn => absurd isIn List.not_mem_nil⟩
    | cons first before =>
      obtain ⟨sameTop, later⟩ := List.cons.inj split
      subst sameTop
      obtain ⟨parent, isListed, isParent⟩ := inductionHypothesis later
      let isBelow := decide (before.length < (forestLines (bodyTrees top rest)).length)
      refine ⟨moved isBelow parent, ?_, isParent_cons isParent fun isNone => ?_⟩
      · rw [List.length_cons, forestParents_cons, isListed, Option.map_some]
      · subst isNone
        rw [decide_eq_true_eq]
        exact isBelow_iff later isParent

/-- Nesting by indentation. The descent through the lines takes all of them, the trees hold the lines in
their order, and the parent of each line is the nearest line before it that is indented less; a line
that has no such line before it stands at the top. -/
theorem buildForest_parents (lines : List Line) :
    (readForest none lines).1 = (buildForest lines, []) ∧
      forestLines (buildForest lines) = lines ∧
      ∀ before line after, lines = before ++ line :: after →
        ∃ parent, (forestParents none 0 (buildForest lines))[before.length]? = some parent ∧
          IsParent before line parent :=
  ⟨readForest_none lines, forestLines_buildForest lines, fun _ _ _ split => exists_parent split⟩

/-- Lines beside each other need not be indented alike. -/
theorem buildForest_parents_not_aligned :
    let line (number indent : Nat) : Line := ⟨indent, ⟨number, indent, ['a']⟩, []⟩
    let before := [line 1 2, line 2 6]
    let lines := before ++ line 3 4 :: [line 4 0, line 5 1]
    lines = before ++ line 3 4 :: [line 4 0, line 5 1] ∧
      forestParents none 0 (buildForest lines) = [none, some 0, some 0, none, some 3] ∧
      IsParent before (line 3 4) (some 0) := by
  intro line before lines
  have listed : forestParents none 0 (buildForest lines) = [none, some 0, some 0, none, some 3] := by
    decide
  obtain ⟨parent, isListed, isParent⟩ := (buildForest_parents lines).2.2 before (line 3 4) _ rfl
  rw [listed] at isListed
  cases isListed
  exact ⟨rfl, listed, isParent⟩

end StyleSense.LineTree
