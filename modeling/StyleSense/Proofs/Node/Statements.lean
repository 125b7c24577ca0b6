import Mathlib.Logic.ExistsUnique
import StyleSense.Node.Statements

/-!
Contract: every statement of a tree is listed once.

A body that the selectors of a rule share is one node to which several ways lead: through the rule
itself and through each of its selectors. So nodes are told apart by the ways to them, up to this
sharing.

Owns:
- `Node.Address`, a way to a node through children and bodies that does not enter keyframes, and
  `Node.Address.Before`, the order in which a depth-first walk meets them;
- `Node.first`, the same way with every shared body entered under the first selector of its rule;
- `Node.exists_visits`: the list of statements belongs to the first ways to the nodes that stand for
  something;
- `Node.statements_once`, the result for a whole tree.

Does not own: what a statement declares (`StyleSense.Symbol.Basic`).
-/

namespace StyleSense

namespace Node

/-! ## Ways -/

/-- A step into a node: to one of its children or into its body. -/
inductive Step where
  | child (index : Nat)
  | body
deriving DecidableEq, Repr

/-- The order in which the parts of a node are visited. -/
inductive Step.Before : Step → Step → Prop
  | children {left right : Nat} (less : left < right) : Before (.child left) (.child right)
  | body (index : Nat) : Before (.child index) .body

/-- A way to a node. -/
abbrev Address := List Step

/-- The order of a depth-first walk: a node comes before what is in it. -/
def Address.Before : Address → Address → Prop :=
  List.Lex Step.Before

/-- Whether a node is an at-rule for keyframes. -/
def isKeyframes : Node → Bool
  | directive .keyframes .. => true
  | _ => false

/-- The node that a step leads to. Keyframes are not entered. -/
def next? (node : Node) (step : Step) : Option Node :=
  if node.isKeyframes then none
  else
    match step with
    | .child index => node.children[index]?
    | .body => node.body?

/-- The node that a way leads to. -/
def at? (node : Node) : Address → Option Node
  | [] => some node
  | step :: rest => (node.next? step).bind fun next => next.at? rest

/-- Whether the body of a node is that of its children too. -/
def sharesBody : Node → Bool
  | rule (_ :: _) .. => true
  | _ => false

/-- The first of all ways to the same node: a body that selectors share is entered under the first
of them. -/
def first : Node → Address → Address
  | _, [] => []
  | rule (_ :: _) body _, .body :: rest => .child 0 :: .body :: body.first rest
  | rule (_ :: _) body _, .child _ :: .body :: rest => .child 0 :: .body :: body.first rest
  | rule (_ :: _) _ _, .child index :: rest => .child index :: rest
  | node, step :: rest => step :: ((node.next? step).elim rest fun next => next.first rest)

/-- Two ways lead to the same node. -/
def SameNode (tree : Node) (left right : Address) : Prop :=
  tree.first left = tree.first right

@[simp] theorem first_nil (node : Node) : node.first [] = [] := by
  rw [first]

theorem first_cons
    {node next : Node}
    (alone : node.sharesBody = false)
    {step : Step}
    (leads : node.next? step = some next)
    (rest : Address) :
    node.first (step :: rest) = step :: next.first rest := by
  rw [first, leads]
  · rfl
  · rintro head others body pos rfl
    simp [sharesBody] at alone
  · rintro head others body pos index inner rfl
    simp [sharesBody] at alone
  · rintro head others body pos index rfl
    simp [sharesBody] at alone

theorem at?_cons
    (node : Node)
    (step : Step)
    (rest : Address) :
    node.at? (step :: rest) = (node.next? step).bind fun next => next.at? rest := by
  rw [at?]

/-! ## The first way -/

section Rule

variable (head : Selector) (others : List Selector) (body : Node) (pos : SourcePos)

theorem at?_rule_body (rest : Address) :
    (rule (head :: others) body pos).at? (.body :: rest) = body.at? rest := by
  rw [at?_cons]
  rfl

theorem next?_rule_child (index : Nat) :
    (rule (head :: others) body pos).next? (.child index) =
      (head :: others)[index]?.map fun chosen => .selector chosen (some body) := by
  show ((head :: others).map fun chosen => selector chosen (some body))[index]? = _
  rw [List.getElem?_map]

theorem at?_rule_first (rest : Address) :
    (rule (head :: others) body pos).at? (.child 0 :: .body :: rest) = body.at? rest := by
  rw [at?_cons]
  rfl

theorem at?_body_of_rule
    {index : Nat}
    {rest : Address}
    {node : Node}
    (leads : (rule (head :: others) body pos).at? (.child index :: .body :: rest) = some node) :
    body.at? rest = some node := by
  rw [at?_cons, next?_rule_child] at leads
  cases isChosen : (head :: others)[index]? with
  | none => simp [isChosen] at leads
  | some chosen =>
    rw [isChosen] at leads
    exact leads

end Rule

/-- The first way to a node leads to it, is its own first way, and no other way comes before it. -/
theorem first_spec
    (tree : Node)
    {place : Address}
    {node : Node}
    (leads : tree.at? place = some node) :
    tree.at? (tree.first place) = some node ∧ tree.first (tree.first place) = tree.first place ∧
      (tree.first place = place ∨ (tree.first place).Before place) := by
  fun_induction first tree place with
  | case1 => exact ⟨leads, rfl, .inl rfl⟩
  | case2 head others body pos rest inductionHypothesis =>
    rw [at?_rule_body] at leads
    obtain ⟨found, same, _⟩ := inductionHypothesis leads
    refine ⟨?_, ?_, ?_⟩
    · rw [at?_rule_first]
      exact found
    · rw [first, same]
    · exact .inr (.rel (.body 0))
  | case3 head others body pos index rest inductionHypothesis =>
    obtain ⟨found, same, order⟩ := inductionHypothesis (at?_body_of_rule head others body pos leads)
    refine ⟨?_, ?_, ?_⟩
    · rw [at?_rule_first]
      exact found
    · rw [first, same]
    · cases index with
      | zero =>
        rcases order with same | before
        · exact .inl (by rw [same])
        · exact .inr (.cons (.cons before))
      | succ index => exact .inr (.rel (.children (Nat.succ_pos index)))
  | case4 head others body pos index rest notBody =>
    refine ⟨leads, ?_, .inl rfl⟩
    rw [first]
    exact fun inner => notBody inner
  | case5 node step rest notBody _ notChild =>
    rename_i inductionHypothesis
    have alone : node.sharesBody = false := by
      cases node with
      | rule selectors body pos =>
        cases selectors with
        | nil => rfl
        | cons head others =>
          cases step with
          | body => exact (notBody head others body pos rfl rfl).elim
          | child index => exact (notChild head others body pos index rfl rfl).elim
      | _ => rfl
    rw [at?_cons] at leads
    cases isNext : node.next? step with
    | none =>
      rw [isNext] at leads
      cases leads
    | some next =>
      rw [isNext] at leads
      obtain ⟨found, same, order⟩ := inductionHypothesis next leads
      show node.at? (step :: next.first rest) = _ ∧ _
      refine ⟨?_, ?_, ?_⟩
      · rw [at?_cons, isNext]
        exact found
      · show node.first (step :: next.first rest) = step :: next.first rest
        rw [first_cons alone isNext, same]
      · rcases order with same' | before
        · exact .inl (congrArg (step :: ·) same')
        · exact .inr (.cons before)

/-! ## Listing -/

/-- Whether a node stands for something: a wrapper does only when it wraps nothing. -/
def stands (node : Node) : Bool :=
  !node.isWrapper || (node.children.isEmpty && node.body?.isNone)

/-- A place at which a node is listed. -/
def Lists (tree : Node) (place : Address) : Prop :=
  tree.first place = place ∧ ∃ node, tree.at? place = some node ∧ node.stands = true

/-- The statements of a tree are the nodes at some places, in the order of a walk. -/
structure Visits (tree : Node) (places : List Address) : Prop where
  nodes : places.map tree.at? = tree.statements.map some
  ordered : places.Pairwise Address.Before
  mem_iff : ∀ place, place ∈ places ↔ tree.Lists place

theorem lists_nil {node : Node} : node.Lists [] ↔ node.stands = true := by
  constructor
  · rintro ⟨_, found, isFound, stands⟩
    cases isFound
    exact stands
  · intro stands
    exact ⟨first_nil node, node, rfl, stands⟩

theorem lists_cons
    {node : Node}
    (alone : node.sharesBody = false)
    {step : Step}
    {rest : Address} :
    node.Lists (step :: rest) ↔ ∃ next, node.next? step = some next ∧ next.Lists rest := by
  constructor
  · rintro ⟨isFirst, found, leads, stands⟩
    rw [at?_cons] at leads
    cases isNext : node.next? step with
    | none =>
      rw [isNext] at leads
      cases leads
    | some next =>
      rw [isNext] at leads
      rw [first_cons alone isNext] at isFirst
      exact ⟨next, rfl, List.tail_eq_of_cons_eq isFirst, found, leads, stands⟩
  · rintro ⟨next, isNext, isFirst, found, leads, stands⟩
    refine ⟨?_, found, ?_, stands⟩
    · rw [first_cons alone isNext, isFirst]
    · rw [at?_cons, isNext]
      exact leads

/-- The places of the statements of a part of `node` are reached through the step to it. -/
theorem Visits.nodes_under
    {node next : Node}
    {places : List Address}
    (visits : next.Visits places)
    {step : Step}
    (isNext : node.next? step = some next) :
    (places.map (step :: ·)).map node.at? = next.statements.map some := by
  have here : (fun rest => node.at? (step :: rest)) = next.at? := by
    funext rest
    rw [at?_cons, isNext]
    rfl
  rw [← visits.nodes, List.map_map]
  exact congrArg (fun view => places.map view) here

theorem Visits.ordered_under
    {next : Node}
    {places : List Address}
    (visits : next.Visits places)
    (step : Step) :
    (places.map (step :: ·)).Pairwise Address.Before :=
  List.pairwise_map.mpr (visits.ordered.imp fun before => .cons before)

/-- The places of the statements among the children of a node, the first of which has the given
number. -/
theorem exists_childPlaces
    (node : Node)
    {nodes : List Node}
    (visits : ∀ child ∈ nodes, ∃ places, child.Visits places)
    (start : Nat)
    (isChild : ∀ index, node.next? (.child (start + index)) = nodes[index]?) :
    ∃ places : List Address,
      places.map node.at? = (listStatements nodes).map some ∧
      places.Pairwise Address.Before ∧
      ∀ place, place ∈ places ↔ ∃ index rest child, place = .child index :: rest ∧ start ≤ index ∧
        node.next? (.child index) = some child ∧ child.Lists rest := by
  induction nodes generalizing start with
  | nil =>
    refine ⟨[], rfl, .nil, ?_⟩
    intro place
    constructor
    · intro isIn
      exact absurd isIn List.not_mem_nil
    · rintro ⟨index, rest, child, _, later, isNext, _⟩
      obtain ⟨more, rfl⟩ := Nat.exists_eq_add_of_le later
      rw [isChild] at isNext
      cases isNext
  | cons child others inductionHypothesis =>
    obtain ⟨places, childVisits⟩ := visits child (List.mem_cons_self ..)
    have isFirst : node.next? (.child start) = some child := isChild 0
    obtain ⟨later, laterNodes, laterOrdered, laterMem⟩ := inductionHypothesis
      (fun next isIn => visits next (List.mem_cons_of_mem _ isIn)) (start + 1)
      (fun index => by rw [Nat.add_assoc, Nat.add_comm 1, isChild, List.getElem?_cons_succ])
    refine ⟨places.map (.child start :: ·) ++ later, ?_, ?_, ?_⟩
    · rw [listStatements, List.map_append, List.map_append, laterNodes, childVisits.nodes_under isFirst]
    · refine List.pairwise_append.mpr ⟨childVisits.ordered_under _, laterOrdered, ?_⟩
      intro place isHere place' isLater
      obtain ⟨rest, _, rfl⟩ := List.mem_map.mp isHere
      obtain ⟨index, _, _, rfl, less, _⟩ := (laterMem place').mp isLater
      exact .rel (.children less)
    · intro place
      rw [List.mem_append, laterMem]
      constructor
      · rintro (isHere | ⟨index, rest, next, rfl, less, isNext, lists⟩)
        · obtain ⟨rest, isPlace, rfl⟩ := List.mem_map.mp isHere
          exact ⟨start, rest, child, rfl, Nat.le_refl _, isFirst, (childVisits.mem_iff rest).mp isPlace⟩
        · exact ⟨index, rest, next, rfl, Nat.le_of_succ_le less, isNext, lists⟩
      · rintro ⟨index, rest, next, rfl, least, isNext, lists⟩
        rcases Nat.eq_or_lt_of_le least with rfl | less
        · rw [isFirst, Option.some.injEq] at isNext
          subst isNext
          exact .inl (List.mem_map_of_mem ((childVisits.mem_iff rest).mpr lists))
        · exact .inr ⟨index, rest, next, rfl, less, isNext, lists⟩

/-- The places of the statements in the body of a node. -/
theorem exists_bodyPlaces
    (node : Node)
    (visits : ∀ body ∈ node.next? .body, ∃ places, body.Visits places) :
    ∃ places : List Address,
      places.map node.at? = (bodyStatements (node.next? .body)).map some ∧
      places.Pairwise Address.Before ∧
      ∀ place, place ∈ places ↔ ∃ rest body, place = .body :: rest ∧
        node.next? .body = some body ∧ body.Lists rest := by
  cases isBody : node.next? .body with
  | none =>
    refine ⟨[], rfl, .nil, ?_⟩
    simp
  | some body =>
    obtain ⟨places, bodyVisits⟩ := visits body isBody
    refine ⟨places.map (.body :: ·), bodyVisits.nodes_under isBody, bodyVisits.ordered_under _, ?_⟩
    intro place
    constructor
    · intro isIn
      obtain ⟨rest, isPlace, rfl⟩ := List.mem_map.mp isIn
      exact ⟨rest, body, rfl, rfl, (bodyVisits.mem_iff rest).mp isPlace⟩
    · rintro ⟨rest, next, rfl, same, lists⟩
      cases same
      exact List.mem_map_of_mem ((bodyVisits.mem_iff rest).mpr lists)

/-- The place of a node itself, if it stands for something. -/
def ownPlaces (node : Node) : List Address :=
  if node.stands then [[]] else []

theorem mem_ownPlaces
    {node : Node}
    {place : Address} :
    place ∈ node.ownPlaces ↔ place = [] ∧ node.stands = true := by
  unfold ownPlaces
  by_cases stands : node.stands = true
  · simp [stands]
  · simp [stands]

theorem ownPlaces_nodes (node : Node) :
    node.ownPlaces.map node.at? = (if node.stands then [node] else []).map some := by
  unfold ownPlaces
  split
  · rfl
  · rfl

theorem ownPlaces_ordered (node : Node) : node.ownPlaces.Pairwise Address.Before := by
  unfold ownPlaces
  split
  · exact List.pairwise_singleton ..
  · exact .nil

/-- A node that shares no body is listed first, then its children, then its body. -/
theorem exists_visits_of_parts
    {node : Node}
    (alone : node.sharesBody = false)
    (nodes : List Node)
    (isChild : ∀ index, node.next? (.child index) = nodes[index]?)
    (statements : node.statements = (if node.stands then [node] else []) ++
      (listStatements nodes ++ bodyStatements (node.next? .body)))
    (children : ∀ child ∈ nodes, ∃ places, child.Visits places)
    (bodies : ∀ body ∈ node.next? .body, ∃ places, body.Visits places) :
    ∃ places, node.Visits places := by
  obtain ⟨childPlaces, childNodes, childOrdered, childMem⟩ :=
    exists_childPlaces node children 0 fun index => by rw [Nat.zero_add, isChild]
  obtain ⟨bodyPlaces, bodyNodes, bodyOrdered, bodyMem⟩ := exists_bodyPlaces node bodies
  refine ⟨node.ownPlaces ++ (childPlaces ++ bodyPlaces), ?_, ?_, ?_⟩
  · rw [statements]
    simp only [List.map_append, ownPlaces_nodes, childNodes, bodyNodes]
  · refine List.pairwise_append.mpr
      ⟨ownPlaces_ordered node, List.pairwise_append.mpr ⟨childOrdered, bodyOrdered, ?_⟩, ?_⟩
    · intro place isChildPlace place' isBodyPlace
      obtain ⟨index, _, _, rfl, _⟩ := (childMem place).mp isChildPlace
      obtain ⟨_, _, rfl, _⟩ := (bodyMem place').mp isBodyPlace
      exact .rel (.body index)
    · intro place isOwn place' isIn
      rw [(mem_ownPlaces.mp isOwn).1]
      rcases List.mem_append.mp isIn with isChildPlace | isBodyPlace
      · obtain ⟨_, _, _, rfl, _⟩ := (childMem place').mp isChildPlace
        exact .nil
      · obtain ⟨_, _, rfl, _⟩ := (bodyMem place').mp isBodyPlace
        exact .nil
  · intro place
    rw [List.mem_append, List.mem_append, childMem, bodyMem, mem_ownPlaces]
    cases place with
    | nil =>
      rw [lists_nil]
      simp
    | cons step rest =>
      rw [lists_cons alone]
      constructor
      · rintro (⟨isOwn, _⟩ | ⟨index, _, child, same, _, isNext, lists⟩ | ⟨_, body, same, isNext, lists⟩)
        · cases isOwn
        · cases same
          exact ⟨child, isNext, lists⟩
        · cases same
          exact ⟨body, isNext, lists⟩
      · rintro ⟨next, isNext, lists⟩
        cases step with
        | child index => exact .inr (.inl ⟨index, rest, next, rfl, Nat.zero_le _, isNext, lists⟩)
        | body => exact .inr (.inr ⟨rest, next, rfl, isNext, lists⟩)

/-- A node without parts is listed alone. -/
theorem exists_visits_alone
    {node : Node}
    (isLeaf : ∀ step, node.next? step = none)
    (alone : node.sharesBody = false)
    (stands : node.stands = true)
    (statements : node.statements = [node]) :
    ∃ places, node.Visits places := by
  apply exists_visits_of_parts alone []
  · intro index
    rw [isLeaf, List.getElem?_nil]
  · rw [statements, isLeaf, stands]
    rfl
  · intro child isIn
    exact absurd isIn List.not_mem_nil
  · intro body isBody
    rw [isLeaf] at isBody
    cases isBody

theorem lists_rule
    {head : Selector}
    {others : List Selector}
    {body : Node}
    {pos : SourcePos}
    {place : Address} :
    (rule (head :: others) body pos).Lists place ↔
      (∃ index ≤ others.length, place = [.child index]) ∨
        ∃ rest, place = .child 0 :: .body :: rest ∧ body.Lists rest := by
  constructor
  · rintro ⟨isFirst, found, leads, stands⟩
    cases place with
    | nil =>
      cases leads
      cases stands
    | cons step rest =>
      cases step with
      | body =>
        rw [first] at isFirst
        cases isFirst
      | child index =>
        rw [at?_cons, next?_rule_child] at leads
        cases isChosen : (head :: others)[index]? with
        | none => simp [isChosen] at leads
        | some chosen =>
          rw [isChosen] at leads
          have inside := (List.getElem?_eq_some_iff.mp isChosen).1
          cases rest with
          | nil => exact .inl ⟨index, Nat.le_of_lt_succ inside, rfl⟩
          | cons inner rest =>
            cases inner with
            | child inner => cases leads
            | body =>
              rw [first, List.cons.injEq, List.cons.injEq] at isFirst
              obtain ⟨isZero, _, isFirst⟩ := isFirst
              exact .inr ⟨rest, by rw [isZero], isFirst, found, leads, stands⟩
  · rintro (⟨index, least, rfl⟩ | ⟨rest, rfl, isFirst, found, leads, stands⟩)
    · obtain ⟨chosen, isChosen⟩ : ∃ chosen, (head :: others)[index]? = some chosen :=
        ⟨_, List.getElem?_eq_getElem (Nat.lt_succ_of_le least)⟩
      refine ⟨?_, .selector chosen (some body), ?_, rfl⟩
      · rw [first]
        exact fun _ same => by cases same
      · rw [at?_cons, next?_rule_child, isChosen]
        rfl
    · refine ⟨?_, found, ?_, stands⟩
      · rw [first, isFirst]
      · rw [at?_rule_first]
        exact leads

/-- A rule is listed as its first selector, its body and its other selectors. -/
theorem exists_visits_rule
    (head : Selector)
    (others : List Selector)
    {body : Node}
    (visits : ∃ places, body.Visits places)
    (pos : SourcePos) :
    ∃ places, (rule (head :: others) body pos).Visits places := by
  obtain ⟨places, nodes, ordered, mem_iff⟩ := visits
  let inside := places.map fun rest => Step.child 0 :: .body :: rest
  let later := (List.range others.length).map fun index => [Step.child (index + 1)]
  refine ⟨[.child 0] :: (inside ++ later), ?_, ?_, ?_⟩
  · have insideNodes : inside.map (rule (head :: others) body pos).at? = body.statements.map some := by
      rw [← nodes, List.map_map]
      exact congrArg (fun view => places.map view) (funext fun rest => at?_rule_first ..)
    have laterNodes : later.map (rule (head :: others) body pos).at? =
        others.map fun chosen => some (.selector chosen (some body)) := by
      apply List.ext_getElem (by simp [later])
      intro index inLater inOthers
      rw [List.length_map] at inOthers
      simp [later, next?_rule_child, inOthers, at?]
    rw [List.map_cons, List.map_append, insideNodes, laterNodes, statements]
    simp only [List.map_cons, List.cons_append, List.map_append, List.map_map]
    rfl
  · have isFirst : ∀ place ∈ inside ++ later, Address.Before [.child 0] place := by
      intro place isIn
      rcases List.mem_append.mp isIn with isInside | isLater
      · obtain ⟨rest, _, rfl⟩ := List.mem_map.mp isInside
        exact .cons .nil
      · obtain ⟨index, _, rfl⟩ := List.mem_map.mp isLater
        exact .rel (.children (Nat.succ_pos index))
    refine .cons isFirst (List.pairwise_append.mpr ⟨?_, ?_, ?_⟩)
    · exact List.pairwise_map.mpr (ordered.imp fun before => .cons (.cons before))
    · exact List.pairwise_map.mpr
        (List.pairwise_lt_range.imp fun less => .rel (.children (Nat.succ_lt_succ less)))
    · intro place isInside place' isLater
      obtain ⟨rest, _, rfl⟩ := List.mem_map.mp isInside
      obtain ⟨index, _, rfl⟩ := List.mem_map.mp isLater
      exact .rel (.children (Nat.succ_pos index))
  · intro place
    rw [lists_rule, List.mem_cons, List.mem_append]
    constructor
    · rintro (rfl | isInside | isLater)
      · exact .inl ⟨0, Nat.zero_le _, rfl⟩
      · obtain ⟨rest, isIn, rfl⟩ := List.mem_map.mp isInside
        exact .inr ⟨rest, rfl, (mem_iff rest).mp isIn⟩
      · obtain ⟨index, isIn, rfl⟩ := List.mem_map.mp isLater
        exact .inl ⟨index + 1, List.mem_range.mp isIn, rfl⟩
    · rintro (⟨index, least, rfl⟩ | ⟨rest, rfl, lists⟩)
      · cases index with
        | zero => exact .inl rfl
        | succ index =>
          exact .inr (.inr (List.mem_map_of_mem (List.mem_range.mpr least)))
      · exact .inr (.inl (List.mem_map_of_mem ((mem_iff rest).mpr lists)))

mutual

/-- The statements of a tree are the nodes at the places where it lists one. -/
theorem exists_visits : ∀ node : Node, ∃ places, node.Visits places
  | .directive .keyframes text body pos =>
    exists_visits_alone (fun _ => rfl) rfl rfl (by rw [statements])
  | .directive .media text body pos | .directive .atrule text body pos
  | .directive .importFile text body pos | .directive .require text body pos
  | .directive .supports text body pos | .directive .literal text body pos => by
    apply exists_visits_of_parts rfl [] (fun _ => rfl)
    · rw [statements]
      · rfl
      · rintro ⟨⟩
    · exact fun _ isIn => absurd isIn List.not_mem_nil
    · exact exists_visits_option body
  | .selector head body => by
    apply exists_visits_of_parts rfl [] (fun _ => rfl)
    · rw [statements]
      rfl
    · exact fun _ isIn => absurd isIn List.not_mem_nil
    · exact exists_visits_option body
  | .function name params body pos => by
    apply exists_visits_of_parts rfl [] (fun _ => rfl)
    · rw [statements]
      rfl
    · exact fun _ isIn => absurd isIn List.not_mem_nil
    · exact exists_visits_option body
  | .expression ⟨terms, pos⟩ => by
    apply exists_visits_of_parts rfl terms (fun _ => rfl)
    · rw [statements, Expression.statements]
      exact congrArg _ (List.append_nil _).symm
    · exact exists_visits_list terms
    · exact fun _ isBody => by cases isBody
  | .atblock nodes pos => by
    apply exists_visits_of_parts rfl nodes (fun _ => rfl)
    · rw [statements]
      exact congrArg _ (List.append_nil _).symm
    · exact exists_visits_list nodes
    · exact fun _ isBody => by cases isBody
  | .rule [] body pos => by
    apply exists_visits_of_parts rfl [] (fun _ => rfl)
    · rw [statements]
      rfl
    · exact fun _ isIn => absurd isIn List.not_mem_nil
    · intro node isBody
      cases isBody
      exact exists_visits body
  | .rule (head :: others) body pos => exists_visits_rule head others (exists_visits body) pos
  | .wrapper kind nodes body pos => by
    apply exists_visits_of_parts rfl nodes (fun _ => rfl)
    · rw [statements]
      cases nodes with
      | nil =>
        cases body with
        | none => rfl
        | some body => rfl
      | cons node rest => rfl
    · exact exists_visits_list nodes
    · exact exists_visits_option body
  | .ident .. | .call .. | .rgba .. | .unit .. | .binary .. | .string .. | .object .. | .ternary ..
  | .property .. | .other => by
    apply exists_visits_alone
    · intro step
      cases step <;> rfl
    · rfl
    · rfl
    · rw [statements] <;> simp

theorem exists_visits_option : ∀ body : Option Node, ∀ node ∈ body, ∃ places, node.Visits places
  | none => fun _ isIn => by cases isIn
  | some body => fun node isIn => by
    cases isIn
    exact exists_visits body

theorem exists_visits_list : ∀ nodes : List Node, ∀ node ∈ nodes, ∃ places, node.Visits places
  | [] => fun _ isIn => absurd isIn List.not_mem_nil
  | first :: rest => by
    intro node isIn
    rcases List.mem_cons.mp isIn with same | isLater
    · rw [same]
      exact exists_visits first
    · exact exists_visits_list rest node isLater

end

/-- Every statement is listed once. The statements of a tree are the nodes at some places in the
order of a depth-first walk; every node that can be reached and is not a wrapper stands at exactly
one of them, which is the first way to it; and a wrapper stands there only when it is empty. -/
theorem statements_once (tree : Node) :
    ∃ places : List Address,
      places.map tree.at? = tree.statements.map some ∧
      places.Pairwise Address.Before ∧
      (∀ place node, tree.at? place = some node → node.isWrapper = false →
        ∃! listed, listed ∈ places ∧ tree.SameNode listed place) ∧
      (∀ listed ∈ places, ∀ place node, tree.at? place = some node → tree.SameNode listed place →
        listed = place ∨ listed.Before place) ∧
      ∀ node ∈ tree.statements, node.isWrapper = true → node.children = [] ∧ node.body? = none := by
  obtain ⟨places, nodes, ordered, mem_iff⟩ := exists_visits tree
  refine ⟨places, nodes, ordered, ?_, ?_, ?_⟩
  · intro place node leads plain
    obtain ⟨found, same, _⟩ := first_spec tree leads
    have stands : node.stands = true := by simp [Node.stands, plain]
    refine ⟨tree.first place, ⟨(mem_iff _).mpr ⟨same, node, found, stands⟩, same⟩, ?_⟩
    rintro listed ⟨isListed, sameNode⟩
    have isFirst := ((mem_iff listed).mp isListed).1
    rw [← isFirst]
    exact sameNode
  · intro listed isListed place node leads sameNode
    have isFirst := ((mem_iff listed).mp isListed).1
    obtain ⟨_, _, order⟩ := first_spec tree leads
    rw [← sameNode, isFirst] at order
    exact order
  · intro node isStatement isWrapper
    have isIn : some node ∈ places.map tree.at? := by
      rw [nodes]
      exact List.mem_map_of_mem isStatement
    obtain ⟨listed, isListed, leads⟩ := List.mem_map.mp isIn
    obtain ⟨_, found, isFound, stands⟩ := (mem_iff listed).mp isListed
    rw [leads, Option.some.injEq] at isFound
    subst isFound
    simpa [Node.stands, isWrapper] using stands

end Node

end StyleSense
