import StyleSense.Node.Basic

/-!
Contract: trees without their places.

Owns:
- `Node.unplaced`, the tree in which every line number and column is unknown. Two texts are read the
  same up to line numbers and columns when their trees are equal after it.

Does not own: which texts are read the same (`StyleSense.Proofs.Statement`).
-/

namespace StyleSense

mutual

/-- The same tree without its places. -/
def Node.unplaced : Node → Node
  | .ident name value _ => .ident name (Node.unplacedOption value) .unknown
  | .selector head body => .selector head.unplaced (Node.unplacedOption body)
  | .call name args _ => .call name (Node.unplacedList args) .unknown
  | .function name params body _ => .function name params (Node.unplacedOption body) .unknown
  | .rgba color raw _ => .rgba color raw .unknown
  | .unit value suffix _ => .unit value suffix .unknown
  | .binary op left right _ => .binary op left.unplaced right.unplaced .unknown
  | .string value _ => .string value .unknown
  | .expression value => .expression value.unplaced
  | .object entries _ => .object (Node.unplacedEntries entries) .unknown
  | .ternary condition whenTrue whenFalse _ =>
    .ternary condition.unplaced whenTrue.unplaced whenFalse.unplaced .unknown
  | .property name value _ =>
    .property (Segment.unplacedList name) (Expression.unplacedOption value) .unknown
  | .atblock statements _ => .atblock (Node.unplacedList statements) .unknown
  | .rule selectors body _ => .rule (Selector.unplacedList selectors) body.unplaced .unknown
  | .wrapper kind nodes body _ =>
    .wrapper kind (Node.unplacedList nodes) (Node.unplacedOption body) .unknown
  | .directive kind text body _ => .directive kind text (Node.unplacedOption body) .unknown
  | .other => .other

/-- The same node, if there is one, without its places. -/
def Node.unplacedOption : Option Node → Option Node
  | none => none
  | some node => some node.unplaced

/-- The same nodes without their places. -/
def Node.unplacedList : List Node → List Node
  | [] => []
  | node :: rest => node.unplaced :: Node.unplacedList rest

/-- The same entries without their places. -/
def Node.unplacedEntries : List (String × Node) → List (String × Node)
  | [] => []
  | (key, value) :: rest => (key, value.unplaced) :: Node.unplacedEntries rest

/-- The same terms, if there are any, without their places. -/
def Expression.unplacedOption : Option Expression → Option Expression
  | none => none
  | some value => some value.unplaced

/-- The same terms without their places. -/
def Expression.unplaced : Expression → Expression
  | ⟨terms, _⟩ => ⟨Node.unplacedList terms, .unknown⟩

/-- The same segments without their places. -/
def Segment.unplacedList : List Segment → List Segment
  | [] => []
  | ⟨text, _, nodes⟩ :: rest => ⟨text, 0, Node.unplacedList nodes⟩ :: Segment.unplacedList rest

/-- The same selector without its place. -/
def Selector.unplaced : Selector → Selector
  | ⟨segments, _⟩ => ⟨Segment.unplacedList segments, .unknown⟩

/-- The same selectors without their places. -/
def Selector.unplacedList : List Selector → List Selector
  | [] => []
  | head :: rest => head.unplaced :: Selector.unplacedList rest

end

/-- Setting an entry and dropping the places can be exchanged. -/
theorem Node.unplacedEntries_setEntry
    (key : String)
    (value : Node)
    (entries : List (String × Node)) :
    Node.unplacedEntries (Node.setEntry key value entries) =
      Node.setEntry key value.unplaced (Node.unplacedEntries entries) := by
  induction entries with
  | nil => rfl
  | cons entry rest inductionHypothesis =>
    obtain ⟨name, old⟩ := entry
    by_cases same : name = key
    · simp [Node.setEntry, Node.unplacedEntries, same]
    · simp [Node.setEntry, Node.unplacedEntries, same, inductionHypothesis]

end StyleSense
