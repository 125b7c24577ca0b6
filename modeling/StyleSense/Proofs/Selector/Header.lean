import Mathlib.Logic.Relation
import StyleSense.Proofs.Node.Nested
import StyleSense.Proofs.Selector.Segment
import StyleSense.Proofs.Statement.Declaration

/-!
Contract: the rules and the selectors of a tree come from rule headers.

Owns:
- `Node.Contains`, the nodes within a tree however deep, those in selectors and interpolations
  included, and `Node.Everywhere`, that all of them have a property;
- `Node.IsPlain`, trees without rules and selectors; values are plain (`Expression.read_plain`);
- `Line.Heads`, the rule of which a line is the header, and its selectors;
- `parse_heads`: every rule and every selector in the tree of a text has such a line.

Does not own: what the selectors of a header spell (`StyleSense.Proofs.Selector.Source`).
-/

namespace StyleSense

open Text

/-! ## Nodes within a tree -/

namespace Node

/-- The segments of the selectors or of the name in a node. -/
def segments : Node → List Segment
  | .selector head _ => head.segments
  | .property name _ _ => name
  | .rule heads _ _ => heads.flatMap Selector.segments
  | _ => []

/-- The nodes directly within a node, with the selectors of a rule and the terms of
interpolations. -/
def parts (node : Node) : List Node :=
  node.nested ++ node.children ++ node.segments.flatMap Segment.nodes

/-- A node is in a tree: it is the tree, or it is in a part of it. -/
def Contains : Node → Node → Prop :=
  Relation.ReflTransGen fun outer inner => inner ∈ outer.parts

/-- All nodes in a tree have a property. -/
def Everywhere (P : Node → Prop) (tree : Node) : Prop :=
  ∀ node, tree.Contains node → P node

variable {P Q : Node → Prop} {tree : Node}

theorem everywhere_of_parts
    (here : P tree)
    (within : ∀ part ∈ tree.parts, part.Everywhere P) :
    tree.Everywhere P := by
  intro node contains
  rcases Relation.ReflTransGen.cases_head contains with rfl | ⟨part, isPart, later⟩
  · exact here
  · exact within part isPart node later

theorem Everywhere.imp
    (all : tree.Everywhere P)
    (weaker : ∀ node, P node → Q node) :
    tree.Everywhere Q :=
  fun node contains => weaker node (all node contains)

/-! ## Trees without rules -/

/-- Whether a node is a rule or a selector. -/
def isHeaded : Node → Bool
  | .rule .. => true
  | .selector .. => true
  | _ => false

/-- Without selectors and names, the parts of a node are those nested in it. -/
theorem everywhere_of_nested
    (here : P tree)
    (notHeaded : tree.isHeaded = false)
    (noNames : tree.segments = [])
    (within : ∀ inner ∈ tree.nested, inner.Everywhere P) :
    tree.Everywhere P := by
  have children : ∀ child ∈ tree.children, child ∈ tree.nested := by
    cases tree with
    | rule | selector => cases notHeaded
    | wrapper kind nodes body pos => exact fun child => List.mem_append_left _
    | expression | atblock => exact fun child isChild => isChild
    | _ => exact fun child isChild => nomatch isChild
  refine everywhere_of_parts here fun part isPart => ?_
  rw [parts, noNames, List.flatMap_nil, List.append_nil] at isPart
  rcases List.mem_append.mp isPart with isNested | isChild
  · exact within part isNested
  · exact within part (children part isChild)

/-- There is no rule and no selector in the tree. -/
def IsPlain (tree : Node) : Prop :=
  tree.Everywhere fun node => node.isHeaded = false

/-- Trees all of which are plain. -/
def ArePlain (nodes : List Node) : Prop :=
  ∀ node ∈ nodes, node.IsPlain

theorem isPlain_leaf
    (notHeaded : tree.isHeaded = false)
    (noNames : tree.segments = [])
    (leaf : tree.nested = []) :
    tree.IsPlain := by
  refine everywhere_of_nested notHeaded notHeaded noNames ?_
  rw [leaf]
  exact fun _ isIn => nomatch isIn

theorem isPlain_expression
    {value : Expression}
    (plain : ArePlain value.terms) :
    (Node.expression value).IsPlain :=
  everywhere_of_nested rfl rfl rfl plain

theorem arePlain_nil : ArePlain [] :=
  fun _ isIn => nomatch isIn

theorem arePlain_cons
    {node : Node}
    {nodes : List Node} :
    ArePlain (node :: nodes) ↔ node.IsPlain ∧ ArePlain nodes :=
  List.forall_mem_cons

theorem arePlain_setEntry
    {key : String}
    {value : Node}
    {entries : List (String × Node)}
    (plainValue : value.IsPlain)
    (plain : ArePlain (entries.map Prod.snd)) :
    ArePlain ((setEntry key value entries).map Prod.snd) := by
  induction entries with
  | nil => exact arePlain_cons.mpr ⟨plainValue, arePlain_nil⟩
  | cons entry rest inductionHypothesis =>
    obtain ⟨name, old⟩ := entry
    obtain ⟨here, later⟩ := arePlain_cons.mp plain
    rw [setEntry]
    split
    · exact arePlain_cons.mpr ⟨plainValue, later⟩
    · exact arePlain_cons.mpr ⟨here, inductionHypothesis later⟩

end Node

namespace Expression

open Node (ArePlain arePlain_nil arePlain_cons arePlain_setEntry isPlain_leaf isPlain_expression
  everywhere_of_nested)

/-- What is read as an item is plain if what it is read onto is. -/
def Item.IsPlain : Item → Prop
  | .term node => node.IsPlain
  | .terms nodes => ArePlain nodes
  | .arguments current args => (∀ argument ∈ current, ArePlain argument.terms) → ArePlain args
  | .entries before after => ArePlain (before.map Prod.snd) → ArePlain (after.map Prod.snd)

theorem arePlain_extendArgument
    {current : Option Expression}
    {term : Node}
    (plain : ∀ argument ∈ current, ArePlain argument.terms)
    (plainTerm : term.IsPlain)
    (pos : SourcePos) :
    ArePlain (extendArgument current term pos).terms := by
  have single : ArePlain [term] := arePlain_cons.mpr ⟨plainTerm, arePlain_nil⟩
  cases current with
  | none => exact single
  | some argument => exact List.forall_mem_append.mpr ⟨plain argument rfl, single⟩

/-- Terms that are read from tokens are plain. -/
theorem Derives.isPlain
    {distinct : Prop}
    {tokens : List Token}
    {item : Item}
    (derives : Derives distinct tokens item) :
    item.IsPlain := by
  induction derives with
  | number | string | ident | subscripted | denied => exact isPlain_leaf rfl rfl rfl
  | @hash token text =>
    unfold hashTerm
    split <;> exact isPlain_leaf rfl rfl rfl
  | @url token body =>
    have text : ArePlain [Node.string body token.pos] :=
      arePlain_cons.mpr ⟨isPlain_leaf rfl rfl rfl, arePlain_nil⟩
    exact everywhere_of_nested rfl rfl rfl
      (arePlain_cons.mpr ⟨isPlain_expression text, arePlain_nil⟩)
  | call _ _ _ arguments => exact everywhere_of_nested rfl rfl rfl (arguments nofun)
  | group _ _ _ terms => exact isPlain_expression terms
  | object _ _ members => exact everywhere_of_nested rfl rfl rfl (members arePlain_nil)
  | @negated sign operand node =>
    unfold Expression.negated
    split <;> exact isPlain_leaf rfl rfl rfl
  | plus _ _ inner => exact inner
  | joined _ _ _ _ lefts rights =>
    exact everywhere_of_nested rfl rfl rfl
      (arePlain_cons.mpr ⟨lefts, arePlain_cons.mpr ⟨rights, arePlain_nil⟩⟩)
  | ternary _ _ _ _ _ tests firsts seconds =>
    have branches := arePlain_cons.mpr ⟨isPlain_expression seconds, arePlain_nil⟩
    exact everywhere_of_nested rfl rfl rfl
      (arePlain_cons.mpr ⟨tests, arePlain_cons.mpr ⟨isPlain_expression firsts, branches⟩⟩)
  | none => exact arePlain_nil
  | comma _ _ others => exact others
  | cons _ _ first others => exact arePlain_cons.mpr ⟨first, others⟩
  | argumentsEnd current _ =>
    intro plain node isIn
    obtain ⟨argument, isArgument, rfl⟩ := List.mem_map.mp isIn
    exact isPlain_expression (plain argument (Option.mem_toList.mp isArgument))
  | argumentEnd current _ _ others =>
    intro plain
    refine arePlain_cons.mpr ⟨isPlain_expression ?_, others nofun⟩
    cases current with
    | none => exact arePlain_nil
    | some argument => exact plain argument rfl
  | argumentTerm pos _ _ first others =>
    intro plain
    refine others fun argument isArgument => ?_
    cases isArgument
    exact arePlain_extendArgument plain first pos
  | entriesEnd => exact id
  | entryEnd _ _ others => exact others
  | entry _ _ _ _ _ values others =>
    exact fun plain => others (arePlain_setEntry (isPlain_expression values) plain)

theorem readTerms_plain (tokens : List Token) : StyleSense.Gives ArePlain (readTerms tokens) := by
  intro nodes read
  have nothingAsked : False → DistinctKeys tokens := False.elim
  exact (readTerms_derives nothingAsked read).isPlain

theorem read_plain
    (tokens : List Token)
    (pos : SourcePos) :
    StyleSense.Gives (fun value => ArePlain value.terms) (Expression.read tokens pos) := by
  intro value read
  exact readTerms_plain tokens value.terms (read_ok read).1

end Expression

/-- The interpolations of a name are plain. -/
theorem readSegments_plain
    (text : List Char)
    (line offset : Nat) :
    Gives (fun segments => Node.ArePlain (segments.flatMap Segment.nodes))
      (readSegments text line offset) := by
  intro segments read
  have spells := (readSegments_spells text line offset segments read).1
  clear read
  induction spells with
  | nil => exact Node.arePlain_nil
  | cons here _ others =>
    refine List.forall_mem_append.mpr ⟨?_, others⟩
    cases here with
    | literal => exact Node.arePlain_nil
    | interpolation _ _ read => exact Expression.readTerms_plain _ _ read

/-! ## The statements of a line -/

/-- The rule whose header is the line, or one of its selectors. -/
inductive Line.Heads (line : Line) : Node → Prop
  | rule {heads : List Selector} (body : Node)
      (read : Line.selectors line.fragments = .ok heads) :
      Heads line (.rule heads body line.pos)
  | selector {heads : List Selector} {head : Selector} (body : Option Node)
      (read : Line.selectors line.fragments = .ok heads)
      (isHead : head ∈ heads) :
      Heads line (.selector head body)

namespace Line

/-- The interpolations of selectors are plain. -/
theorem selectors_plain (fragments : List Fragment) :
    Gives (fun heads => ∀ head ∈ heads, Node.ArePlain (head.segments.flatMap Segment.nodes))
      (selectors fragments) := by
  induction fragments with
  | nil => exact .ok nofun
  | cons fragment rest inductionHypothesis =>
    refine Gives.bind fun here readHere => Gives.bind fun later readLater => .ok ?_
    intro head isHead
    rcases List.mem_append.mp isHead with isFirst | isLater
    · obtain ⟨offset, part, segments, _, read, rfl⟩ :=
        selectorsOf_gives fragment _ here readHere head isFirst
      exact readSegments_plain part _ _ segments read
    · exact inductionHypothesis later readLater head isLater

section Statements

variable {P : Node → Prop} {line : Line} {body : Body}
  (other : ∀ node, node.isHeaded = false → P node)

include other

theorem everywhere_plain
    {nodes : List Node}
    (plain : Node.ArePlain nodes) :
    ∀ node ∈ nodes, node.Everywhere P :=
  fun node isIn => (plain node isIn).imp other

/-- A node that is no rule, over nodes that have the property everywhere. -/
theorem everywhere_other
    {node : Node}
    (notHeaded : node.isHeaded = false)
    (noNames : node.segments = [])
    (within : ∀ inner ∈ node.nested, inner.Everywhere P) :
    node.Everywhere P :=
  Node.everywhere_of_nested (other node notHeaded) notHeaded noNames within

theorem wrapper_everywhere
    {nodes : List Node}
    (all : ∀ node ∈ nodes, node.Everywhere P)
    (kind : Wrapper)
    (pos : SourcePos) :
    (Node.wrapper kind nodes none pos).Everywhere P := by
  refine everywhere_other other rfl rfl ?_
  rw [Node.nested, Option.toList_none, List.append_nil]
  exact all

theorem ident_everywhere
    {result : Expression}
    (terms : ∀ term ∈ result.terms, term.Everywhere P)
    (name : String)
    (pos : SourcePos) :
    (Node.ident name (some (.expression result)) pos).Everywhere P :=
  everywhere_other other rfl rfl
    (List.forall_mem_singleton.mpr (everywhere_other other rfl rfl terms))

theorem property_everywhere
    {segments : List Segment}
    {result : Expression}
    (named : Node.ArePlain (segments.flatMap Segment.nodes))
    (terms : ∀ term ∈ result.terms, term.Everywhere P)
    (pos : SourcePos) :
    (Node.property segments (some result) pos).Everywhere P := by
  refine Node.everywhere_of_parts (other _ rfl) fun part isPart => ?_
  rcases List.mem_append.mp isPart with isNested | isNamed
  · have isTerm : part ∈ result.terms := by
      simpa [Node.nested, Node.children] using isNested
    exact terms part isTerm
  · exact everywhere_plain other named part isNamed

/-- A rule comes from its header, and so do the selectors in it. -/
theorem rule_everywhere
    (headed : ∀ node, line.Heads node → P node)
    {heads : List Selector}
    (areHeads : selectors line.fragments = .ok heads)
    {block : Node}
    (inBlock : block.Everywhere P) :
    (Node.rule heads block line.pos).Everywhere P := by
  have plain := selectors_plain line.fragments heads areHeads
  have selector : ∀ head ∈ heads, (Node.selector head (some block)).Everywhere P := by
    intro head isHead
    refine Node.everywhere_of_parts (headed _ (.selector _ areHeads isHead)) fun part isPart => ?_
    rcases List.mem_append.mp isPart with isNested | isNamed
    · have isBlock : part = block := by simpa [Node.nested, Node.children] using isNested
      exact isBlock ▸ inBlock
    · exact everywhere_plain other (plain head isHead) part isNamed
  -- In a rule are its block, its selectors, and the terms in them.
  refine Node.everywhere_of_parts (headed _ (.rule block areHeads)) fun part isPart => ?_
  rcases List.mem_append.mp isPart with isBelow | isNamed
  · rcases List.mem_append.mp isBelow with isNested | isChild
    · exact List.mem_singleton.mp isNested ▸ inBlock
    · obtain ⟨head, isHead, rfl⟩ := List.mem_map.mp isChild
      exact selector head isHead
  · obtain ⟨segment, isSegment, isTerm⟩ := List.mem_flatMap.mp isNamed
    obtain ⟨head, isHead, isIn⟩ := List.mem_flatMap.mp isSegment
    exact everywhere_plain other (plain head isHead) part
      (List.mem_flatMap.mpr ⟨segment, isIn, isTerm⟩)

/-- The property holds everywhere in what a line becomes if it holds of what the line heads and of
all that is no rule. -/
theorem Becomes.everywhere
    {node : Node}
    (becomes : line.Becomes body node)
    (headed : ∀ node, line.Heads node → P node)
    (below : Gives (fun nodes => ∀ node ∈ nodes, node.Everywhere P) body.statements) :
    node.Everywhere P := by
  have terms : ∀ {tokens pos result}, Expression.read tokens pos = .ok result →
      ∀ term ∈ result.terms, term.Everywhere P :=
    fun read => everywhere_plain other (Expression.read_plain _ _ _ read)
  have inBlock : ∀ {nodes}, body.statements = .ok nodes →
      (Node.wrapper .block nodes none line.pos).Everywhere P :=
    fun isBody => wrapper_everywhere other (below _ isBody) .block line.pos
  cases becomes with
  | value hasValue => exact everywhere_other other rfl rfl (terms hasValue.read)
  | assignment _ hasValue => exact ident_everywhere other (terms hasValue.read) _ _
  | atblock _ isBody _ =>
    refine ident_everywhere other (List.forall_mem_singleton.mpr ?_) _ _
    exact everywhere_other other rfl rfl (below _ isBody)
  | property _ hasValue isName =>
    exact property_everywhere other (readSegments_plain _ _ _ _ isName) (terms hasValue.read) _
  | function _ _ isBody =>
    refine everywhere_other other rfl rfl (List.forall_mem_singleton.mpr ?_)
    exact everywhere_other other rfl rfl (List.forall_mem_singleton.mpr (inBlock isBody))
  | computed read isBody =>
    refine everywhere_other other rfl rfl (List.forall_mem_cons.mpr ⟨?_, ?_⟩)
    · refine everywhere_other other rfl rfl (List.forall_mem_singleton.mpr ?_)
      exact everywhere_other other rfl rfl (terms read)
    · exact List.forall_mem_singleton.mpr (inBlock isBody)
  | rule areHeads isBody => exact rule_everywhere other headed areHeads (inBlock isBody)
  | control isBody => exact inBlock isBody
  | bodied _ _ isBody =>
    exact everywhere_other other rfl rfl (List.forall_mem_singleton.mpr (inBlock isBody))
  | bodiless | silent => exact everywhere_other other rfl rfl nofun

end Statements

end Line

/-! ## Whole texts -/

theorem LineTree.Become.everywhere
    {P : Node → Prop}
    {trees : List LineTree}
    {nodes : List Node}
    (become : Become trees nodes)
    (other : ∀ node, node.isHeaded = false → P node)
    (headed : ∀ line ∈ forestLines trees, ∀ node, line.Heads node → P node) :
    ∀ node ∈ nodes, node.Everywhere P := by
  induction become with
  | nil => exact nofun
  | cons _ becomes _ inside later =>
    rw [forestLines, lines, List.cons_append] at headed
    obtain ⟨here, others⟩ := List.forall_mem_cons.mp headed
    obtain ⟨below, beside⟩ := List.forall_mem_append.mp others
    have first := becomes.everywhere other here fun inner read => inside inner read below
    exact List.forall_mem_cons.mpr ⟨first, later beside⟩

/-- Every rule and every selector in the tree of a text comes from the header of a rule. -/
theorem parse_heads
    {text : List Char}
    {tree : Node}
    (parsed : Node.parse text = .ok tree) :
    ∃ lines, scanLines text = .ok lines ∧ ∀ node, tree.Contains node → node.isHeaded = true →
      ∃ line ∈ lines, line.Heads node := by
  obtain ⟨lines, nodes, scanned, read, rfl⟩ := Node.parse_ok parsed
  refine ⟨lines, scanned, ?_⟩
  let P (node : Node) : Prop := node.isHeaded = true → ∃ line ∈ lines, line.Heads node
  have other : ∀ node, node.isHeaded = false → P node := by
    intro node notHeaded isHeaded
    rw [notHeaded] at isHeaded
    cases isHeaded
  have headed : ∀ line ∈ LineTree.forestLines (buildForest lines), ∀ node, line.Heads node →
      P node := by
    intro line isLine node heads _
    rw [LineTree.forestLines_buildForest] at isLine
    exact ⟨line, isLine, heads⟩
  have all := (LineTree.statements_become _ nodes read).everywhere other headed
  have whole : (Node.wrapper .root nodes none ⟨1, 1⟩).Everywhere P :=
    Line.wrapper_everywhere other all .root _
  exact whole

end StyleSense
