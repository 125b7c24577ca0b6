import Mathlib.Data.List.Perm.Subperm
import StyleSense.Proofs.Expression.Derivation
import StyleSense.Proofs.Node.Words

/-!
Contract: every word of a value comes from a token of its own.

Owns:
- `DrawnFrom`, items that are among others, in order if that is asked for;
- `Spelled`, words that stand at tokens, a call where its tokens are;
- `Expression.Derives.spelled`: the tokens of a value spell its words. They are in order unless an
  entry of an object has replaced an earlier one.

Does not own: the words of statements (`StyleSense.Proofs.Statement.Words`).
-/

namespace StyleSense

/-- The items are among all, none more often than there, and in order if that is asked for. -/
structure DrawnFrom (inOrder : Prop) {α : Type} (items all : List α) : Prop where
  among : items.Subperm all
  ordered : inOrder → items.Sublist all

namespace DrawnFrom

variable {inOrder : Prop} {α : Type} {items all items' all' : List α}

theorem of_sublist (part : items.Sublist all) : DrawnFrom inOrder items all :=
  ⟨part.subperm, fun _ => part⟩

theorem nil (all : List α) : DrawnFrom inOrder [] all :=
  .of_sublist (List.nil_sublist all)

theorem append
    (left : DrawnFrom inOrder items all)
    (right : DrawnFrom inOrder items' all') :
    DrawnFrom inOrder (items ++ items') (all ++ all') :=
  ⟨left.among.append right.among, fun asked => (left.ordered asked).append (right.ordered asked)⟩

theorem weaken
    (drawn : DrawnFrom inOrder items all)
    (part : all.Sublist all') :
    DrawnFrom inOrder items all' :=
  ⟨drawn.among.trans part.subperm, fun asked => (drawn.ordered asked).trans part⟩

theorem part
    (drawn : DrawnFrom inOrder items all)
    (isPart : items'.Sublist items) :
    DrawnFrom inOrder items' all :=
  ⟨isPart.subperm.trans drawn.among, fun asked => isPart.trans (drawn.ordered asked)⟩

theorem map
    {β : Type}
    (drawn : DrawnFrom inOrder items all)
    (f : α → β) :
    DrawnFrom inOrder (items.map f) (all.map f) := by
  refine ⟨?_, fun asked => (drawn.ordered asked).map f⟩
  obtain ⟨chosen, isPerm, isPart⟩ := drawn.among
  exact ⟨chosen.map f, isPerm.map f, isPart.map f⟩

end DrawnFrom

/-! ## Words at tokens -/

/-- The tokens of a call stand together: its name, the opening parenthesis, and its arguments with
the closing one. Only the body of a `url` is no list of tokens. -/
def Node.CalledIn (distinct : Prop) (tokens : List Token) : Node → Prop
  | .call name args pos => name = "url" ∨ ∃ before head opening inside after,
      tokens = before ++ head :: opening :: (inside ++ after) ∧
        head.kind = .name name ∧ head.pos = pos ∧ opening.kind = .opening .round ∧
          Expression.Derives distinct inside (.arguments none args)
  | _ => True

theorem Node.CalledIn.weaken
    {distinct : Prop}
    {word : Node}
    {tokens tokens' : List Token}
    (called : word.CalledIn distinct tokens)
    (isPart : tokens <:+: tokens') :
    word.CalledIn distinct tokens' := by
  cases word with
  | call name args pos =>
    rcases called with isUrl | ⟨before, head, opening, inside, after, rfl, reads⟩
    · exact .inl isUrl
    · obtain ⟨earlier, later, rfl⟩ := isPart
      exact .inr ⟨earlier ++ before, head, opening, inside, after ++ later, by simp, reads⟩
  | _ => trivial

/-- The words stand at tokens, each at one of its own, and the tokens of a call are where it is. -/
structure Spelled (distinct : Prop) (words : List Node) (tokens : List Token) : Prop where
  places : DrawnFrom distinct (words.map Node.pos) (tokens.map Token.pos)
  calls : ∀ word ∈ words, word.CalledIn distinct tokens

namespace Spelled

variable {distinct : Prop} {words words' : List Node} {tokens tokens' : List Token}

theorem nil (tokens : List Token) : Spelled distinct [] tokens :=
  ⟨.nil _, fun _ isIn => nomatch isIn⟩

theorem weaken
    (spelled : Spelled distinct words tokens)
    (isPart : tokens <:+: tokens') :
    Spelled distinct words tokens' :=
  ⟨spelled.places.weaken (isPart.sublist.map _), fun word isIn => (spelled.calls word isIn).weaken isPart⟩

theorem append
    (left : Spelled distinct words tokens)
    (right : Spelled distinct words' tokens') :
    Spelled distinct (words ++ words') (tokens ++ tokens') := by
  refine ⟨?_, List.forall_mem_append.mpr ⟨?_, ?_⟩⟩
  · rw [List.map_append, List.map_append]
    exact left.places.append right.places
  · exact (left.weaken (List.prefix_append ..).isInfix).calls
  · exact (right.weaken (List.suffix_append ..).isInfix).calls

/-- More tokens may stand before and after those that spell the words. -/
theorem within
    (spelled : Spelled distinct words tokens)
    (before after : List Token) :
    Spelled distinct words (before ++ (tokens ++ after)) := by
  refine spelled.weaken ⟨before, after, ?_⟩
  rw [List.append_assoc]

/-- A word that is no call stands at its token. -/
theorem singleton
    {word : Node}
    {token : Token}
    (samePlace : word.pos = token.pos)
    (called : word.CalledIn distinct [token]) :
    Spelled distinct [word] [token] := by
  refine ⟨?_, List.forall_mem_singleton.mpr called⟩
  rw [List.map_singleton, List.map_singleton, samePlace]
  exact .of_sublist (List.Sublist.refl _)

end Spelled

/-! ## Values -/

namespace Expression

variable {distinct : Prop}

/-- The tokens spell the words of what was read. The words of arguments and entries come after those
that were there. -/
def Item.Spelled (distinct : Prop) (tokens : List Token) : Item → Prop
  | .term node => StyleSense.Spelled distinct node.words tokens
  | .terms nodes => StyleSense.Spelled distinct (Node.listWords nodes) tokens
  | .arguments current args => ∀ earlier,
    StyleSense.Spelled distinct (current.toList.flatMap Expression.words) earlier →
      StyleSense.Spelled distinct (Node.listWords args) (earlier ++ tokens)
  | .entries first last => ∀ earlier,
    StyleSense.Spelled distinct (Node.entryWords first) earlier →
      StyleSense.Spelled distinct (Node.entryWords last) (earlier ++ tokens)

theorem ident_spelled
    (name : String)
    (token : Token) :
    Spelled distinct (Node.ident name none token.pos).words [token] := by
  rw [Node.words, Node.optionWords]
  exact .singleton rfl trivial

theorem hashTerm_spelled
    (text : String)
    (token : Token) :
    Spelled distinct (hashTerm text token.pos).words [token] := by
  unfold hashTerm
  split
  · rw [Node.words]
    exact .singleton rfl trivial
  · exact ident_spelled text token

theorem urlTerm_spelled
    (body : String)
    (token : Token) :
    Spelled distinct (urlTerm body token.pos).words [token] := by
  have alone : (urlTerm body token.pos).words = [urlTerm body token.pos] := by
    simp [urlTerm, Node.words, Node.listWords, Expression.words]
  rw [alone]
  exact .singleton rfl (.inl rfl)

theorem entryWords_setEntry_subperm
    (key : String)
    (value : Node)
    (entries : List (String × Node)) :
    (Node.entryWords (Node.setEntry key value entries)).Subperm
      (Node.entryWords entries ++ value.words) := by
  induction entries with
  | nil =>
    rw [Node.setEntry, Node.entryWords, Node.entryWords, Node.entryWords, List.append_nil,
      List.nil_append]
  | cons entry rest inductionHypothesis =>
    obtain ⟨name, old⟩ := entry
    unfold Node.setEntry
    split
    · -- the new value stands where the old one stood
      simp only [Node.entryWords, List.append_assoc]
      refine List.Subperm.trans ?_ (List.sublist_append_right ..).subperm
      exact List.perm_append_comm.subperm
    · simp only [Node.entryWords, List.append_assoc]
      exact (List.Subperm.refl _).append inductionHypothesis

theorem entryWords_append
    (left right : List (String × Node)) :
    Node.entryWords (left ++ right) = Node.entryWords left ++ Node.entryWords right := by
  induction left with
  | nil => rfl
  | cons entry rest inductionHypothesis =>
    simp only [List.cons_append, Node.entryWords, inductionHypothesis, List.append_assoc]

theorem setEntry_spelled
    {key : String}
    {entries : List (String × Node)}
    (isNew : distinct → key ∉ entries.map Prod.fst)
    {nodes : List Node}
    {earlier tokens : List Token}
    (entriesSpelled : Spelled distinct (Node.entryWords entries) earlier)
    (nodesSpelled : Spelled distinct (Node.listWords nodes) tokens)
    (pos : SourcePos) :
    Spelled distinct (Node.entryWords (Node.setEntry key (.expression ⟨nodes, pos⟩) entries))
      (earlier ++ tokens) := by
  have value : (Node.expression ⟨nodes, pos⟩).words = Node.listWords nodes := by
    rw [Node.words, Expression.words]
  have both := entriesSpelled.append nodesSpelled
  rw [← value] at both
  refine ⟨⟨?_, fun asked => ?_⟩, fun word isIn => both.calls word ?_⟩
  · obtain ⟨chosen, isPerm, isPart⟩ := entryWords_setEntry_subperm key (.expression ⟨nodes, pos⟩) entries
    exact List.Subperm.trans ⟨_, isPerm.map _, isPart.map _⟩ both.places.among
  · have same : Node.entryWords (Node.setEntry key (.expression ⟨nodes, pos⟩) entries) =
        Node.entryWords entries ++ (Node.expression ⟨nodes, pos⟩).words := by
      rw [setEntry_of_notMem _ (isNew asked), entryWords_append, Node.entryWords, Node.entryWords,
        List.append_nil]
    rw [same]
    exact both.places.ordered asked
  · exact List.mem_append.mpr (mem_entryWords_setEntry isIn)

theorem extendArgument_words
    (current : Option Expression)
    (node : Node)
    (pos : SourcePos) :
    (extendArgument current node pos).words =
      current.toList.flatMap Expression.words ++ node.words := by
  have listed : ∀ terms : List Node,
      Node.listWords (terms ++ [node]) = Node.listWords terms ++ node.words := by
    intro terms
    induction terms with
    | nil => simp [Node.listWords]
    | cons term rest inductionHypothesis =>
      rw [List.cons_append, Node.listWords, Node.listWords, inductionHypothesis, List.append_assoc]
  cases current with
  | none => simp [extendArgument, Expression.words, Node.listWords]
  | some argument =>
    obtain ⟨terms, start⟩ := argument
    simp [extendArgument, Expression.words, listed]

/-- The tokens of a value spell its words. -/
theorem Derives.spelled
    {tokens : List Token}
    {item : Item}
    (derives : Derives distinct tokens item) :
    item.Spelled distinct tokens := by
  induction derives with
  | number => exact .nil _
  | string => exact .nil _
  | hash => exact hashTerm_spelled ..
  | url => exact urlTerm_spelled ..
  | @ident token members first name isName plain =>
    exact (ident_spelled name token).within [] members
  | @subscripted token opening closing members inside ellipsis first nodes name =>
    exact (ident_spelled name token).within [] _
  | @call token opening inside name args isName isOpening arguments argumentsSpelled =>
    have inner : Spelled distinct (Node.listWords args) inside := argumentsSpelled [] (.nil [])
    have called : (Node.call name args token.pos).CalledIn distinct (token :: opening :: inside) :=
      .inr ⟨[], token, opening, inside, [], by simp, isName, rfl, isOpening, arguments⟩
    rw [Item.Spelled, Node.words]
    refine ⟨?_, List.forall_mem_cons.mpr ⟨called, ?_⟩⟩
    · have head : DrawnFrom distinct [token.pos] [token.pos, opening.pos] :=
        .of_sublist (List.singleton_sublist.mpr (List.mem_cons_self ..))
      exact head.append inner.places
    · exact (inner.weaken (List.suffix_append [token, opening] inside).isInfix).calls
  | group isOpening terms isClosing termsSpelled =>
    rw [Item.Spelled, Node.words, Expression.words]
    exact Spelled.within termsSpelled [_] [_]
  | @object opening inside entries isOpening members entriesSpelled =>
    rw [Item.Spelled, Node.words]
    exact (entriesSpelled [] (.nil [])).weaken (List.suffix_cons ..).isInfix
  | @negated sign operand node isSign inner innerSpelled =>
    have silent : (Expression.negated sign.pos node).words = [] := by
      cases node <;> simp [Expression.negated, Node.words]
    rw [Item.Spelled, silent]
    exact .nil _
  | plus isSign inner innerSpelled => exact Spelled.weaken innerSpelled (List.suffix_cons ..).isInfix
  | denied =>
    rw [Item.Spelled, Node.words]
    exact .nil _
  | @joined left signs right first second sign lefts plain rights leftsSpelled rightsSpelled =>
    rw [Item.Spelled, Expression.joined, Node.words]
    exact Spelled.append leftsSpelled (Spelled.weaken rightsSpelled (List.suffix_append ..).isInfix)
  | @ternary condition whenTrue whenFalse mark colon test first second tests isMark firsts isColon
      seconds testsSpelled firstsSpelled secondsSpelled =>
    rw [Item.Spelled, Node.words, Node.words, Node.words, Expression.words_eq, Expression.words_eq]
    have later := Spelled.append firstsSpelled
      (Spelled.weaken secondsSpelled (List.suffix_cons colon whenFalse).isInfix)
    exact Spelled.append testsSpelled (later.weaken (List.suffix_cons ..).isInfix)
  | none => exact .nil _
  | comma isComma others othersSpelled => exact Spelled.weaken othersSpelled (List.suffix_cons ..).isInfix
  | cons firsts others firstsSpelled othersSpelled =>
    rw [Item.Spelled, Node.listWords]
    exact Spelled.append firstsSpelled othersSpelled
  | argumentsEnd current isClosing =>
    intro earlier currentSpelled
    have same : Node.listWords (current.toList.map .expression) =
        current.toList.flatMap Expression.words := by
      cases current <;> simp [Node.listWords, Node.words]
    rw [same]
    exact currentSpelled.weaken (List.prefix_append ..).isInfix
  | @argumentEnd token rest args current isComma others othersSpelled =>
    intro earlier currentSpelled
    have later : Spelled distinct (Node.listWords args) ([token] ++ rest) :=
      othersSpelled [token] (.nil _)
    have here : (current.getD ⟨[], .unknown⟩).words = current.toList.flatMap Expression.words := by
      cases current <;> simp [Expression.words, Node.listWords]
    rw [Node.listWords, Node.words, here]
    exact currentSpelled.append later
  | argumentTerm pos firsts others firstsSpelled othersSpelled =>
    intro earlier currentSpelled
    rw [← List.append_assoc]
    apply othersSpelled
    rw [Option.toList_some, List.flatMap_singleton, extendArgument_words]
    exact currentSpelled.append firstsSpelled
  | entriesEnd entries isClosing =>
    intro earlier entriesSpelled
    exact entriesSpelled.weaken (List.prefix_append ..).isInfix
  | @entryEnd token rest before after isComma others othersSpelled =>
    intro earlier entriesSpelled
    have longer := entriesSpelled.weaken (List.prefix_append earlier [token]).isInfix
    simpa using othersSpelled _ longer
  | @entry token colon value rest key nodes before after isKey isColon values isNew others
      valuesSpelled othersSpelled =>
    intro earlier entriesSpelled
    have longer := setEntry_spelled isNew entriesSpelled
      (Spelled.weaken valuesSpelled (List.suffix_append [token, colon] value).isInfix) token.pos
    simpa using othersSpelled _ longer

end Expression

end StyleSense
