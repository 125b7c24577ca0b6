import StyleSense.Proofs.Node.Unplaced
import StyleSense.Token.Basic

/-!
Contract: two readings of a value that agree up to what the reader does not look at.

The reader of values decides by the kinds of the tokens, by the blanks between them and by which of
them stand on one line. It copies places and the values of strings without looking at them. A
`Matching` says which places and string values of two texts correspond and what is known of the
words at their places; `Token.Matches` and `Node.Matches` carry it over to tokens and trees.

Owns:
- `Matching`, and `Matching.KeepsLines`, which asks of places that the reader cannot tell the lines of
  the two texts apart;
- the relations on tokens, nodes, entries, segments and selectors;
- `Node.Matches.unplaced_eq`: trees that match with equal strings differ in their places only.

Does not own: that the reader keeps the relation (`StyleSense.Proofs.Expression.Matching`).
-/

namespace StyleSense

/-- What corresponds in two texts that are read alike. -/
structure Matching where
  /-- Places that correspond. -/
  pos : SourcePos → SourcePos → Prop
  /-- Values of strings that correspond. -/
  string : String → String → Prop
  /-- What is known of a name and the place at which it stands in the first text. -/
  word : String → SourcePos → Prop
  /-- What is known of a hash and the place at which it stands in the first text. -/
  literal : String → SourcePos → Prop
  pos_unknown : pos .unknown .unknown
  /-- A place may be moved on its line to the column of another one. -/
  pos_column : ∀ {left left' right right'}, pos left left' → pos right right' →
    pos { left with column := right.column } { left' with column := right'.column }
  string_refl : ∀ value, string value value
  word_of_literal : ∀ {text pos}, literal text pos → word text pos
  /-- The names that the reader puts together itself. -/
  word_member : ∀ name key pos, word (name ++ "." ++ key) pos
  word_selector : ∀ pos, word "selector" pos

namespace Matching

variable (M : Matching)

/-- Places of one text are on one line exactly when those of the other are. -/
class KeepsLines : Prop where
  line_eq_iff : ∀ {left left' right right'}, M.pos left left' → M.pos right right' →
    (left.line = right.line ↔ left'.line = right'.line)

/-- Line numbers that correspond. -/
def line (left right : Nat) : Prop :=
  ∃ leftColumn rightColumn, M.pos ⟨left, leftColumn⟩ ⟨right, rightColumn⟩

/-- Errors that correspond: one cause at corresponding places. -/
def error (left right : ParseError) : Prop :=
  left.fault = right.fault ∧ M.pos left.pos right.pos

/-- Outcomes that correspond: results that do, or errors that do. -/
inductive Outcome {α β : Type} (related : α → β → Prop) :
    Except ParseError α → Except ParseError β → Prop
  | ok {left : α} {right : β} (results : related left right) : Outcome related (.ok left) (.ok right)
  | error {left right : ParseError} (errors : M.error left right) :
    Outcome related (.error left) (.error right)

end Matching

/-- The text that a token shows in the source where it starts. -/
def Token.Kind.shown? : Token.Kind → Option String
  | .name text => some text
  | .hash text => some text
  | .url _ => some "url"
  | _ => none

/-- Kinds of tokens that correspond, the first of a token at `pos`. -/
def Token.Kind.Matches (M : Matching) (pos : SourcePos) : Token.Kind → Token.Kind → Prop
  | .string left, .string right => M.string left right
  | .hash left, .hash right => left = right ∧ M.literal left pos
  | left, right => left = right ∧ ∀ text ∈ left.shown?, M.word text pos

/-- Tokens that correspond. -/
structure Token.Matches (M : Matching) (left right : Token) : Prop where
  kind : left.kind.Matches M left.pos right.kind
  pos : M.pos left.pos right.pos
  spaced : left.spaced = right.spaced

mutual

/-- Nodes that correspond. -/
inductive Node.Matches (M : Matching) : Node → Node → Prop
  | ident {name : String} {pos pos' : SourcePos}
      (word : M.word name pos)
      (places : M.pos pos pos') :
      Node.Matches M (.ident name none pos) (.ident name none pos')
  | declaration {name : String} {value value' : Node} {pos pos' : SourcePos}
      (word : M.word name pos)
      (values : Node.Matches M value value')
      (places : M.pos pos pos') :
      Node.Matches M (.ident name (some value) pos) (.ident name (some value') pos')
  | call {name : String} {args args' : List Node} {pos pos' : SourcePos}
      (word : M.word name pos)
      (arguments : Node.ListMatches M args args')
      (places : M.pos pos pos') :
      Node.Matches M (.call name args pos) (.call name args' pos')
  | function {name : String} {params : List String} {body body' : Node} {pos pos' : SourcePos}
      (bodies : Node.Matches M body body')
      (places : M.pos pos pos') :
      Node.Matches M (.function name params (some body) pos) (.function name params (some body') pos')
  | rgba {color : Rgba Float} {raw : String} {pos pos' : SourcePos}
      (literal : M.literal raw pos)
      (places : M.pos pos pos') :
      Node.Matches M (.rgba color raw pos) (.rgba color raw pos')
  | unit {value : Float} {suffix : Option String} {pos pos' : SourcePos}
      (places : M.pos pos pos') :
      Node.Matches M (.unit value suffix pos) (.unit value suffix pos')
  | binary {op : String} {left left' right right' : Node} {pos pos' : SourcePos}
      (lefts : Node.Matches M left left')
      (rights : Node.Matches M right right')
      (places : M.pos pos pos') :
      Node.Matches M (.binary op left right pos) (.binary op left' right' pos')
  | string {value value' : String} {pos pos' : SourcePos}
      (values : M.string value value')
      (places : M.pos pos pos') :
      Node.Matches M (.string value pos) (.string value' pos')
  | expression {value value' : Expression}
      (values : Expression.Matches M value value') :
      Node.Matches M (.expression value) (.expression value')
  | object {entries entries' : List (String × Node)} {pos pos' : SourcePos}
      (values : Node.EntriesMatch M entries entries')
      (places : M.pos pos pos') :
      Node.Matches M (.object entries pos) (.object entries' pos')
  | ternary {condition condition' whenTrue whenTrue' whenFalse whenFalse' : Node}
      {pos pos' : SourcePos}
      (conditions : Node.Matches M condition condition')
      (firsts : Node.Matches M whenTrue whenTrue')
      (seconds : Node.Matches M whenFalse whenFalse')
      (places : M.pos pos pos') :
      Node.Matches M (.ternary condition whenTrue whenFalse pos)
        (.ternary condition' whenTrue' whenFalse' pos')
  | property {name name' : List Segment} {value value' : Expression} {pos pos' : SourcePos}
      (names : Segment.ListMatches M name name')
      (values : Expression.Matches M value value')
      (places : M.pos pos pos') :
      Node.Matches M (.property name (some value) pos) (.property name' (some value') pos')
  | atblock {statements statements' : List Node} {pos pos' : SourcePos}
      (nodes : Node.ListMatches M statements statements')
      (places : M.pos pos pos') :
      Node.Matches M (.atblock statements pos) (.atblock statements' pos')
  | rule {selectors selectors' : List Selector} {body body' : Node} {pos pos' : SourcePos}
      (heads : Selector.ListMatches M selectors selectors')
      (bodies : Node.Matches M body body')
      (places : M.pos pos pos') :
      Node.Matches M (.rule selectors body pos) (.rule selectors' body' pos')
  | wrapper {kind : Wrapper} {nodes nodes' : List Node} {body body' : Option Node}
      {pos pos' : SourcePos}
      (members : Node.ListMatches M nodes nodes')
      (bodies : Node.OptionMatches M body body')
      (places : M.pos pos pos') :
      Node.Matches M (.wrapper kind nodes body pos) (.wrapper kind nodes' body' pos')
  | directive {kind : Directive} {text : Option String} {body body' : Option Node}
      {pos pos' : SourcePos}
      (bodies : Node.OptionMatches M body body')
      (places : M.pos pos pos') :
      Node.Matches M (.directive kind text body pos) (.directive kind text body' pos')
  | other : Node.Matches M .other .other

/-- Bodies that correspond. -/
inductive Node.OptionMatches (M : Matching) : Option Node → Option Node → Prop
  | none : Node.OptionMatches M none none
  | some {body body' : Node} (bodies : Node.Matches M body body') :
      Node.OptionMatches M (some body) (some body')

/-- Lists of nodes that correspond one by one. -/
inductive Node.ListMatches (M : Matching) : List Node → List Node → Prop
  | nil : Node.ListMatches M [] []
  | cons {node node' : Node} {rest rest' : List Node}
      (first : Node.Matches M node node')
      (others : Node.ListMatches M rest rest') :
      Node.ListMatches M (node :: rest) (node' :: rest')

/-- Values that correspond. -/
inductive Expression.Matches (M : Matching) : Expression → Expression → Prop
  | intro {terms terms' : List Node} {pos pos' : SourcePos}
      (nodes : Node.ListMatches M terms terms')
      (places : M.pos pos pos') :
      Expression.Matches M ⟨terms, pos⟩ ⟨terms', pos'⟩

/-- Entries that were set in one order, with corresponding keys and values. -/
inductive Node.EntriesMatch (M : Matching) : List (String × Node) → List (String × Node) → Prop
  | nil : Node.EntriesMatch M [] []
  | set {key key' : String} {value value' : Node} {entries entries' : List (String × Node)}
      (keys : M.string key key')
      (values : Node.Matches M value value')
      (before : Node.EntriesMatch M entries entries') :
      Node.EntriesMatch M (Node.setEntry key value entries) (Node.setEntry key' value' entries')

/-- Segments that correspond one by one. -/
inductive Segment.ListMatches (M : Matching) : List Segment → List Segment → Prop
  | nil : Segment.ListMatches M [] []
  | cons {text : Option String} {line line' : Nat} {nodes nodes' : List Node}
      {rest rest' : List Segment}
      (members : Node.ListMatches M nodes nodes')
      (lines : M.line line line')
      (others : Segment.ListMatches M rest rest') :
      Segment.ListMatches M (⟨text, line, nodes⟩ :: rest) (⟨text, line', nodes'⟩ :: rest')

/-- Selectors that correspond one by one. -/
inductive Selector.ListMatches (M : Matching) : List Selector → List Selector → Prop
  | nil : Selector.ListMatches M [] []
  | cons {segments segments' : List Segment} {pos pos' : SourcePos} {rest rest' : List Selector}
      (parts : Segment.ListMatches M segments segments')
      (places : M.pos pos pos')
      (others : Selector.ListMatches M rest rest') :
      Selector.ListMatches M (⟨segments, pos⟩ :: rest) (⟨segments', pos'⟩ :: rest')

end

variable {M : Matching}

/-- Nodes that correspond start at corresponding places. -/
theorem Node.Matches.pos
    {node node' : Node}
    (nodes : Node.Matches M node node') :
    M.pos node.pos node'.pos := by
  cases nodes with
  | expression values =>
    cases values
    assumption
  | other => exact M.pos_unknown
  | _ => assumption

theorem Node.ListMatches.append
    {left left' right right' : List Node}
    (lefts : Node.ListMatches M left left')
    (rights : Node.ListMatches M right right') :
    Node.ListMatches M (left ++ right) (left' ++ right') := by
  induction left generalizing left' with
  | nil =>
    cases lefts
    exact rights
  | cons node rest inductionHypothesis =>
    cases lefts with
    | cons first others => exact .cons first (inductionHypothesis others)

theorem Selector.ListMatches.append
    {left left' right right' : List Selector}
    (lefts : Selector.ListMatches M left left')
    (rights : Selector.ListMatches M right right') :
    Selector.ListMatches M (left ++ right) (left' ++ right') := by
  induction left generalizing left' with
  | nil =>
    cases lefts
    exact rights
  | cons head rest inductionHypothesis =>
    cases lefts with
    | cons parts places others => exact .cons parts places (inductionHypothesis others)

/-- Nodes that correspond with equal strings are equal up to their places. -/
theorem Node.Matches.unplaced_eq
    (equalStrings : ∀ {value value'}, M.string value value' → value = value')
    {node node' : Node}
    (nodes : Node.Matches M node node') :
    node.unplaced = node'.unplaced := by
  -- Values that were overwritten are no part of an object, so the induction is on the relation.
  apply @Node.Matches.rec M
    (fun node node' _ => node.unplaced = node'.unplaced)
    (fun body body' _ => Node.unplacedOption body = Node.unplacedOption body')
    (fun nodes nodes' _ => Node.unplacedList nodes = Node.unplacedList nodes')
    (fun value value' _ => value.unplaced = value'.unplaced)
    (fun entries entries' _ => Node.unplacedEntries entries = Node.unplacedEntries entries')
    (fun segments segments' _ => Segment.unplacedList segments = Segment.unplacedList segments')
    (fun heads heads' _ => Selector.unplacedList heads = Selector.unplacedList heads')
    (t := nodes)
  case string =>
    intro value value' pos pos' values _
    rw [equalStrings values]
    rfl
  case set =>
    intro key key' value value' entries entries' keys _ _ valuesEqual entriesEqual
    rw [Node.unplacedEntries_setEntry, Node.unplacedEntries_setEntry, equalStrings keys,
      valuesEqual, entriesEqual]
  all_goals
    intros
    simp_all [Node.unplaced, Node.unplacedOption, Node.unplacedList, Node.unplacedEntries,
      Expression.unplaced, Expression.unplacedOption, Segment.unplacedList, Selector.unplaced,
      Selector.unplacedList]

end StyleSense
