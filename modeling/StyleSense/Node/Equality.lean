import StyleSense.Node.Basic

/-!
Contract: equality of trees is decidable.

Owns:
- `Node.same`, which compares two trees;
- the instance `DecidableEq Node`, so that what a text parses to can be computed and compared.

Does not own: equality up to sharing or up to places (`StyleSense.Node.Basic`).
-/

namespace StyleSense

mutual

/-- Whether two trees are the same. -/
def Node.same : Node → Node → Bool
  | .ident name value pos, .ident name' value' pos' =>
    name == name' && Node.sameOption value value' && pos == pos'
  | .selector head body, .selector head' body' => head.same head' && Node.sameOption body body'
  | .call name args pos, .call name' args' pos' =>
    name == name' && Node.sameList args args' && pos == pos'
  | .function name params body pos, .function name' params' body' pos' =>
    name == name' && params == params' && Node.sameOption body body' && pos == pos'
  | .rgba color raw pos, .rgba color' raw' pos' => color == color' && raw == raw' && pos == pos'
  | .unit value suffix pos, .unit value' suffix' pos' =>
    decide (value = value') && suffix == suffix' && pos == pos'
  | .binary op left right pos, .binary op' left' right' pos' =>
    op == op' && left.same left' && right.same right' && pos == pos'
  | .string value pos, .string value' pos' => value == value' && pos == pos'
  | .expression value, .expression value' => value.same value'
  | .object entries pos, .object entries' pos' => Node.sameEntries entries entries' && pos == pos'
  | .ternary condition whenTrue whenFalse pos, .ternary condition' whenTrue' whenFalse' pos' =>
    condition.same condition' && whenTrue.same whenTrue' && whenFalse.same whenFalse' && pos == pos'
  | .property name value pos, .property name' value' pos' =>
    Segment.sameList name name' && Expression.sameOption value value' && pos == pos'
  | .atblock statements pos, .atblock statements' pos' =>
    Node.sameList statements statements' && pos == pos'
  | .rule selectors body pos, .rule selectors' body' pos' =>
    Selector.sameList selectors selectors' && body.same body' && pos == pos'
  | .wrapper kind nodes body pos, .wrapper kind' nodes' body' pos' =>
    kind == kind' && Node.sameList nodes nodes' && Node.sameOption body body' && pos == pos'
  | .directive kind text body pos, .directive kind' text' body' pos' =>
    kind == kind' && text == text' && Node.sameOption body body' && pos == pos'
  | .other, .other => true
  | _, _ => false
termination_by structural left => left

/-- Whether both nodes are the same or missing. -/
def Node.sameOption : Option Node → Option Node → Bool
  | none, none => true
  | some node, some node' => node.same node'
  | _, _ => false
termination_by structural left => left

/-- Whether two lists of nodes are the same. -/
def Node.sameList : List Node → List Node → Bool
  | [], [] => true
  | node :: rest, node' :: rest' => node.same node' && Node.sameList rest rest'
  | _, _ => false
termination_by structural left => left

/-- Whether two objects have the same entries in the same order. -/
def Node.sameEntries : List (String × Node) → List (String × Node) → Bool
  | [], [] => true
  | (key, value) :: rest, (key', value') :: rest' =>
    key == key' && value.same value' && Node.sameEntries rest rest'
  | _, _ => false
termination_by structural left => left

/-- Whether two values are the same. -/
def Expression.same : Expression → Expression → Bool
  | ⟨terms, pos⟩, ⟨terms', pos'⟩ => Node.sameList terms terms' && pos == pos'
termination_by structural left => left

/-- Whether both values are the same or missing. -/
def Expression.sameOption : Option Expression → Option Expression → Bool
  | none, none => true
  | some value, some value' => value.same value'
  | _, _ => false
termination_by structural left => left

/-- Whether two names are the same, piece by piece. -/
def Segment.sameList : List Segment → List Segment → Bool
  | [], [] => true
  | ⟨text, line, nodes⟩ :: rest, ⟨text', line', nodes'⟩ :: rest' =>
    text == text' && line == line' && Node.sameList nodes nodes' && Segment.sameList rest rest'
  | _, _ => false
termination_by structural left => left

/-- Whether two selectors are the same. -/
def Selector.same : Selector → Selector → Bool
  | ⟨segments, pos⟩, ⟨segments', pos'⟩ => Segment.sameList segments segments' && pos == pos'
termination_by structural left => left

/-- Whether two lists of selectors are the same. -/
def Selector.sameList : List Selector → List Selector → Bool
  | [], [] => true
  | head :: rest, head' :: rest' => head.same head' && Selector.sameList rest rest'
  | _, _ => false
termination_by structural left => left

end

mutual

theorem Node.same_iff : ∀ left right : Node, left.same right = true ↔ left = right
  | .ident _ value _, right => by
    cases right with
    | ident => simp [Node.same, Node.sameOption_iff value, and_assoc]
    | _ => exact iff_of_false Bool.false_ne_true nofun
  | .selector head body, right => by
    cases right with
    | selector => simp [Node.same, Selector.same_iff head, Node.sameOption_iff body]
    | _ => exact iff_of_false Bool.false_ne_true nofun
  | .call _ args _, right => by
    cases right with
    | call => simp [Node.same, Node.sameList_iff args, and_assoc]
    | _ => exact iff_of_false Bool.false_ne_true nofun
  | .function _ _ body _, right => by
    cases right with
    | function => simp [Node.same, Node.sameOption_iff body, and_assoc]
    | _ => exact iff_of_false Bool.false_ne_true nofun
  | .rgba .., right => by
    cases right with
    | rgba => simp [Node.same, and_assoc]
    | _ => exact iff_of_false Bool.false_ne_true nofun
  | .unit .., right => by
    cases right with
    | unit => simp [Node.same, and_assoc]
    | _ => exact iff_of_false Bool.false_ne_true nofun
  | .binary _ first second _, right => by
    cases right with
    | binary => simp [Node.same, Node.same_iff first, Node.same_iff second, and_assoc]
    | _ => exact iff_of_false Bool.false_ne_true nofun
  | .string .., right => by
    cases right with
    | string => simp [Node.same]
    | _ => exact iff_of_false Bool.false_ne_true nofun
  | .expression value, right => by
    cases right with
    | expression => simp [Node.same, Expression.same_iff value]
    | _ => exact iff_of_false Bool.false_ne_true nofun
  | .object entries _, right => by
    cases right with
    | object => simp [Node.same, Node.sameEntries_iff entries]
    | _ => exact iff_of_false Bool.false_ne_true nofun
  | .ternary condition whenTrue whenFalse _, right => by
    cases right with
    | ternary =>
      simp [Node.same, Node.same_iff condition, Node.same_iff whenTrue, Node.same_iff whenFalse,
        and_assoc]
    | _ => exact iff_of_false Bool.false_ne_true nofun
  | .property name value _, right => by
    cases right with
    | property =>
      simp [Node.same, Segment.sameList_iff name, Expression.sameOption_iff value, and_assoc]
    | _ => exact iff_of_false Bool.false_ne_true nofun
  | .atblock statements _, right => by
    cases right with
    | atblock => simp [Node.same, Node.sameList_iff statements]
    | _ => exact iff_of_false Bool.false_ne_true nofun
  | .rule selectors body _, right => by
    cases right with
    | rule => simp [Node.same, Selector.sameList_iff selectors, Node.same_iff body, and_assoc]
    | _ => exact iff_of_false Bool.false_ne_true nofun
  | .wrapper _ nodes body _, right => by
    cases right with
    | wrapper => simp [Node.same, Node.sameList_iff nodes, Node.sameOption_iff body, and_assoc]
    | _ => exact iff_of_false Bool.false_ne_true nofun
  | .directive _ _ body _, right => by
    cases right with
    | directive => simp [Node.same, Node.sameOption_iff body, and_assoc]
    | _ => exact iff_of_false Bool.false_ne_true nofun
  | .other, right => by
    cases right with
    | other => simp [Node.same]
    | _ => exact iff_of_false Bool.false_ne_true nofun

theorem Node.sameOption_iff :
    ∀ left right : Option Node, Node.sameOption left right = true ↔ left = right
  | none, right => by cases right <;> simp [Node.sameOption]
  | some node, right => by cases right <;> simp [Node.sameOption, Node.same_iff node]

theorem Node.sameList_iff :
    ∀ left right : List Node, Node.sameList left right = true ↔ left = right
  | [], right => by cases right <;> simp [Node.sameList]
  | node :: rest, right => by
    cases right <;> simp [Node.sameList, Node.same_iff node, Node.sameList_iff rest]

theorem Node.sameEntries_iff :
    ∀ left right : List (String × Node), Node.sameEntries left right = true ↔ left = right
  | [], right => by cases right <;> simp [Node.sameEntries]
  | (_, value) :: rest, right => by
    rcases right with _ | ⟨⟨_, _⟩, _⟩ <;>
      simp [Node.sameEntries, Node.same_iff value, Node.sameEntries_iff rest, and_assoc]

theorem Expression.same_iff : ∀ left right : Expression, left.same right = true ↔ left = right
  | ⟨terms, _⟩, ⟨_, _⟩ => by simp [Expression.same, Node.sameList_iff terms]

theorem Expression.sameOption_iff :
    ∀ left right : Option Expression, Expression.sameOption left right = true ↔ left = right
  | none, right => by cases right <;> simp [Expression.sameOption]
  | some value, right => by cases right <;> simp [Expression.sameOption, Expression.same_iff value]

theorem Segment.sameList_iff :
    ∀ left right : List Segment, Segment.sameList left right = true ↔ left = right
  | [], right => by cases right <;> simp [Segment.sameList]
  | ⟨_, _, nodes⟩ :: rest, right => by
    rcases right with _ | ⟨⟨_, _, _⟩, _⟩ <;>
      simp [Segment.sameList, Node.sameList_iff nodes, Segment.sameList_iff rest, and_assoc]

theorem Selector.same_iff : ∀ left right : Selector, left.same right = true ↔ left = right
  | ⟨segments, _⟩, ⟨_, _⟩ => by simp [Selector.same, Segment.sameList_iff segments]

theorem Selector.sameList_iff :
    ∀ left right : List Selector, Selector.sameList left right = true ↔ left = right
  | [], right => by cases right <;> simp [Selector.sameList]
  | head :: rest, right => by
    cases right <;> simp [Selector.sameList, Selector.same_iff head, Selector.sameList_iff rest]

end

instance : DecidableEq Node :=
  fun left right => decidable_of_iff _ (Node.same_iff left right)

end StyleSense
