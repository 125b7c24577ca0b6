import StyleSense.Proofs.Expression.Derivation
import StyleSense.Proofs.Text.Part
import StyleSense.Proofs.Token.Spelling
import StyleSense.Symbol.Basic

/-!
Contract: the name that an interpolation gives a selector is no wider than the interpolation.

Owns:
- `Token.nameWidths`, the bytes of the tokens of a text that can be part of a name, and
  `tokenize_nameWidths`: they are no more than those of the text;
- `Expression.term_names`, that the name of a term is no wider than its tokens, with one lemma for each
  reader on the way;
- `Expression.readTerms_nameWidth`, the same for all terms of a text.

Does not own: the other segments of a selector (`StyleSense.Proofs.Symbol.Range`).
-/

namespace StyleSense

open Text

/-- The bytes of a token that can be part of the name of a term. -/
def Token.Kind.nameWidth : Token.Kind → Nat
  | .name text => width text.toList
  | .hash text => width text.toList
  | .url _ => width "url".toList
  | .op .dot => 1
  | _ => 0

/-- The bytes of some tokens that can be part of names. -/
def Token.nameWidths : List Token → Nat
  | [] => 0
  | token :: rest => token.kind.nameWidth + Token.nameWidths rest

@[simp] theorem Token.nameWidths_nil : Token.nameWidths [] = 0 := rfl

@[simp] theorem Token.nameWidths_cons
    (token : Token)
    (rest : List Token) :
    Token.nameWidths (token :: rest) = token.kind.nameWidth + Token.nameWidths rest := rfl

@[simp] theorem Token.nameWidths_append
    (left right : List Token) :
    Token.nameWidths (left ++ right) = Token.nameWidths left + Token.nameWidths right := by
  induction left with
  | nil => simp
  | cons token rest inductionHypothesis => simp [inductionHypothesis, Nat.add_assoc]

/-- The width of the name that an interpolated term gives. -/
def Node.nameWidth (node : Node) : Nat :=
  (node.interpolatedName?.map fun name => width name.toList).getD 0

/-! ## Tokens of a text -/

namespace Token

theorem width_takeWhile_append_dropWhile
    (p : Char → Bool)
    (cs : List Char) :
    width (cs.takeWhile p) + width (cs.dropWhile p) = width cs := by
  rw [← width_append, List.takeWhile_append_dropWhile]

/-- A token has no more bytes of a name than are taken off the text. -/
theorem lexeme_nameWidth
    {c : Char}
    {cs rest : List Char}
    {kind : Kind}
    (taken : lexeme c cs = .ok (kind, rest)) :
    kind.nameWidth + width rest ≤ width (c :: cs) := by
  have name := width_takeWhile_append_dropWhile isNameChar cs
  cases lexeme_takes taken with
  | mark isMark =>
    have nameless : kind.nameWidth = 0 := by
      unfold punctuation? at isMark
      split at isMark <;> cases isMark <;> rfl
    rw [nameless, width_cons]
    omega
  | string _ closed =>
    have isEnd := width_le_of_suffix (stringBody?_suffix closed)
    simp only [Kind.nameWidth, width_cons]
    omega
  | hash isHash =>
    subst isHash
    simp only [Kind.nameWidth, String.toList_ofList, width_cons]
    omega
  | name =>
    simp only [Kind.nameWidth, String.toList_ofList, width_cons]
    omega
  | number =>
    have isEnd := width_le_of_suffix ((suffix_suffix _).trans (numeral_suffix c cs))
    simp only [Kind.nameWidth, width_cons]
    omega
  | url whole =>
    have isUrl : width "url".toList ≤ width ['u', 'r', 'l', '('] := by decide
    have closing : width rest ≤ width (')' :: rest) := width_le_of_suffix (List.suffix_cons _ _)
    rw [whole, Kind.nameWidth, width_append, width_append]
    omega
  | @operator sign _ whole =>
    have small : (Kind.op sign).nameWidth ≤ width sign.spelling.toList := by cases sign <;> decide
    rw [whole, width_append]
    omega

end Token

theorem Tokenizes.nameWidths
    {line offset total : Nat}
    {cs : List Char}
    {tokens : List Token}
    (tokenizes : Tokenizes line offset total cs tokens) :
    Token.nameWidths tokens ≤ width cs := by
  induction tokenizes with
  | nil => exact Nat.zero_le _
  | cons passed taken _ inductionHypothesis =>
    have isEnd := width_le_of_suffix (Token.skipGap_suffix passed)
    have first := Token.lexeme_nameWidth taken
    rw [Token.nameWidths_cons]
    simp only
    omega

/-- The tokens of a text have no more bytes of names than the text has. -/
theorem tokenize_nameWidths
    {text : List Char}
    {line offset : Nat}
    {tokens : List Token}
    (read : tokenize text line offset = .ok tokens) :
    Token.nameWidths tokens ≤ width text :=
  (tokenizeFrom_tokenizes read).nameWidths

/-! ## Terms -/

namespace Expression

/-- The name of a term is no wider than its tokens. -/
def Names (taken : List Token) (node : Node) : Prop :=
  node.nameWidth ≤ Token.nameWidths taken

/-- Any place will do for a fault. -/
def anywhere (_ : SourcePos) : Prop := True

theorem anywhere_good (pos : SourcePos) : anywhere pos := trivial

theorem Names.of_none
    {node : Node}
    (nameless : node.interpolatedName? = none)
    (taken : List Token) :
    Names taken node := by
  rw [Names, Node.nameWidth, nameless]
  exact Nat.zero_le _

theorem known_anywhere
    (last : SourcePos)
    (tokens : List Token) :
    Known anywhere False last tokens :=
  ⟨fun _ _ => trivial, False.elim⟩

/-- A reader that goes on after its first token. -/
theorem Yields.ok_cons
    {good : SourcePos → Prop}
    {α : Type}
    {meaning : List Token → α → Prop}
    {token : Token}
    {tokens rest taken : List Token}
    {bound : Nat}
    {value : α}
    (shorter : rest.length < bound)
    (split : tokens = taken ++ rest)
    (means : meaning (token :: taken) value) :
    Yields good meaning (token :: tokens)
      (.ok ⟨value, rest, shorter⟩ : Except ParseError (Read α bound)) :=
  .ok shorter (congrArg (token :: ·) split) means

/-- A name with its members is as wide as their tokens. -/
theorem members_names
    (name : String)
    (tokens : List Token) :
    ∃ taken, tokens = taken ++ (members name tokens).2.val ∧
      width (members name tokens).1.toList ≤ width name.toList + Token.nameWidths taken := by
  fun_induction members name tokens with
  | case1 => exact ⟨[], rfl, Nat.le_refl _⟩
  | case2 => exact ⟨[], rfl, Nat.le_refl _⟩
  | case3 name dot member following key isName isMember longer rest extended inductionHypothesis =>
    obtain ⟨taken, split, bound⟩ := inductionHypothesis
    rw [extended] at split bound
    refine ⟨dot :: member :: taken, by simpa using split, ?_⟩
    simp only [Bool.and_eq_true] at isMember
    have isDot : dot.kind = .op .dot := eq_of_beq isMember.1.1
    have point : width ".".toList = 1 := rfl
    simp only [Token.nameWidths_cons, isDot, isName, Token.Kind.nameWidth, String.toList_append,
      width_append, point] at bound ⊢
    omega
  | case4 => exact ⟨[], rfl, Nat.le_refl _⟩
  | case5 => exact ⟨[], rfl, Nat.le_refl _⟩

variable (last : SourcePos)

theorem named_names
    {token : Token}
    {name : String}
    (isName : token.kind = .name name)
    (tokens : List Token) :
    Yields anywhere (fun taken node => Names (token :: taken) node) tokens
      (named last name token.pos tokens) := by
  have alone : ∀ {longer : String} {taken : List Token},
      width longer.toList ≤ width name.toList + Token.nameWidths taken →
        Names (token :: taken) (.ident longer none token.pos) := by
    intro longer taken bound
    rw [Names, Token.nameWidths_cons, isName]
    exact bound
  have terms : TermsYield anywhere False last (tokens.length + 1) := termsYield trivial _
  cases tokens with
  | nil =>
    rw [named]
    exact .ok _ (List.append_nil _).symm (alone (Nat.le_refl _))
  | cons next rest =>
    rw [named]
    split
    · refine (arguments_yields terms (anywhere_good token.pos) none
        (by simp only [List.length_cons]; omega) (known_anywhere last rest)).next
        (fun failed => by simp only [failed]) fun read split args => ?_
      simp only [read]
      refine .ok_cons _ split ?_
      rw [Names, Token.nameWidths_cons, isName]
      exact Nat.le_add_right _ _
    · obtain ⟨extra, split, bound⟩ := members_names name (next :: rest)
      generalize members name (next :: rest) = extended at split bound
      obtain ⟨longer, remaining, shorter⟩ := extended
      simp only at split bound
      cases remaining with
      | nil => exact .ok _ split (alone bound)
      | cons bracket following =>
        dsimp only
        simp only [List.length_cons] at shorter
        split
        · refine (subscript_yields terms (anywhere_good bracket.pos)
            (by simp only [List.length_cons]; omega) (known_anywhere last following)).next
            (fun failed => by simp only [failed]) ?_
          rintro _ after _ taken read splitAfter _
          simp only [read]
          obtain ⟨ellipsis, splitEnd, _⟩ := dropEllipsis_split after
          have whole : next :: rest =
              (extra ++ bracket :: (taken ++ ellipsis)) ++ (dropEllipsis after).val := by
            rw [split, splitAfter]
            nth_rewrite 1 [splitEnd]
            simp only [List.append_assoc, List.cons_append]
          refine .ok _ whole (alone ?_)
          rw [Token.nameWidths_append]
          omega
        · obtain ⟨ellipsis, splitEnd, _⟩ := dropEllipsis_split (bracket :: following)
          have whole : next :: rest =
              (extra ++ ellipsis) ++ (dropEllipsis (bracket :: following)).val := by
            rw [split, List.append_assoc, ← splitEnd]
          refine .ok _ whole (alone ?_)
          rw [Token.nameWidths_append]
          omega

theorem primary_names (tokens : List Token) :
    Yields anywhere Names tokens (primary last tokens) := by
  cases tokens with
  | nil =>
    rw [primary]
    exact .error trivial
  | cons token rest =>
    have terms : TermsYield anywhere False last (rest.length + 1) := termsYield trivial _
    rw [primary]
    split
    · exact .ok _ (List.singleton_append ..).symm (.of_none rfl _)
    · rename_i text isHash
      refine .ok _ (List.singleton_append ..).symm ?_
      unfold hashTerm
      split
      · exact .of_none rfl _
      · rw [Names, Token.nameWidths_cons, isHash]
        exact Nat.le_refl _
    · exact .ok _ (List.singleton_append ..).symm (.of_none rfl _)
    · rename_i body isUrl
      refine .ok _ (List.singleton_append ..).symm ?_
      rw [Names, Token.nameWidths_cons, isUrl]
      exact Nat.le_refl _
    · rename_i isName
      refine (named_names last isName rest).next (fun failed => by simp only [failed])
        fun read split names => ?_
      simp only [read]
      exact .ok_cons _ split names
    · refine (group_yields terms (anywhere_good token.pos) (Nat.lt_succ_self _)
        (known_anywhere last rest)).next (fun failed => by simp only [failed]) fun read split _ => ?_
      simp only [read]
      exact .ok_cons _ split (.of_none rfl _)
    · refine (object_yields trivial terms (anywhere_good token.pos) [] False.elim
        (Nat.lt_succ_self _) (known_anywhere last rest)).next (fun failed => by simp only [failed]) fun read split _ => ?_
      simp only [read]
      exact .ok_cons _ split (.of_none rfl _)
    · exact .error trivial

theorem unary_names (tokens : List Token) :
    Yields anywhere Names tokens (unary last tokens) := by
  cases tokens with
  | nil =>
    rw [unary]
    exact primary_names last []
  | cons sign rest =>
    have inner := unary_names rest
    rw [unary]
    split
    · refine inner.next (fun failed => by simp only [failed]) fun {node _ _ _} read split _ => ?_
      simp only [read]
      have nameless : (negated sign.pos node).interpolatedName? = none := by
        unfold negated
        split <;> rfl
      exact .ok_cons _ split (.of_none nameless _)
    · split
      · refine inner.next (fun failed => by simp only [failed]) fun read split names => ?_
        simp only [read]
        exact .ok_cons _ split
          (Nat.le_trans names (Nat.le_add_left ..))
      · split
        · refine inner.next (fun failed => by simp only [failed]) fun read split _ => ?_
          simp only [read]
          exact .ok_cons _ split (.of_none rfl _)
        · exact primary_names last (sign :: rest)

/-- A chain leaves the name of its first operand or, with a further operand, has none. -/
theorem chain_names
    (least : Nat)
    (left : Node)
    (tokens : List Token) :
    Yields anywhere
      (fun taken node => (taken = [] ∧ node = left) ∨ node.interpolatedName? = none)
      tokens (chain last least left tokens) := by
  rw [chain]
  split
  · exact .ok _ (List.nil_append _).symm (.inl ⟨rfl, rfl⟩)
  · rename_i sign level rest shorterSign found
    obtain ⟨signs, split, _⟩ := infixOp?_split found
    simp only at split
    split
    · exact .ok _ (List.nil_append _).symm (.inl ⟨rfl, rfl⟩)
    · refine (operand_yields trivial (termsYield trivial rest.length) (level.rank + 1)
        (Nat.le_refl _) (known_anywhere last rest)).next (fun failed => by simp only [failed])
        fun {right following shorter taken} read splitRight _ => ?_
      simp only [read]
      refine (chain_names least (joined left sign right) following).next
        (fun failed => by simp only [failed]) fun {_ after _ more} read splitAfter names => ?_
      simp only [read]
      have whole : tokens = (signs ++ taken ++ more) ++ after := by
        rw [split, splitRight, splitAfter]
        simp only [List.append_assoc]
      refine .ok _ whole (.inr ?_)
      rcases names with ⟨_, rfl⟩ | nameless
      · rfl
      · exact nameless
termination_by tokens.length

theorem operand_names
    (least : Nat)
    (tokens : List Token) :
    Yields anywhere Names tokens (operand last least tokens) := by
  rw [operand]
  refine (unary_names last tokens).next (fun failed => by simp only [failed])
    fun {left rest _ taken} read split names => ?_
  simp only [read]
  refine (chain_names last least left rest).next (fun failed => by simp only [failed])
    fun {_ after _ more} read splitAfter joins => ?_
  simp only [read]
  have whole : tokens = (taken ++ more) ++ after := by rw [split, splitAfter, List.append_assoc]
  refine .ok _ whole ?_
  rcases joins with ⟨rfl, rfl⟩ | nameless
  · rw [List.append_nil]
    exact names
  · exact .of_none nameless _

theorem term_names (tokens : List Token) :
    Yields anywhere Names tokens (term last tokens) := by
  have terms : TermsYield anywhere False last tokens.length := termsYield trivial _
  rw [term]
  refine (operand_names last 0 tokens).next (fun failed => by simp only [failed])
    fun {condition rest shorter taken} read split names => ?_
  simp only [read]
  cases rest with
  | nil => exact .ok _ split names
  | cons mark following =>
    dsimp only
    simp only [List.length_cons] at shorter
    split
    · refine (branch_yields trivial terms true (by omega) (known_anywhere last following)).next
        (fun failed => by simp only [failed]) fun {_ rest shorterTrue more} read splitTrue _ => ?_
      simp only [read]
      cases rest with
      | nil => exact .error trivial
      | cons colon after =>
        dsimp only
        simp only [List.length_cons] at shorterTrue
        split
        · refine (branch_yields trivial terms false (by omega) (known_anywhere last after)).next
            (fun failed => by simp only [failed]) fun {_ rest _ others} read splitFalse _ => ?_
          simp only [read]
          have whole : tokens = (taken ++ mark :: (more ++ colon :: others)) ++ rest := by
            rw [split, splitTrue, splitFalse]
            simp only [List.append_assoc, List.cons_append]
          exact .ok _ whole (.of_none rfl _)
        · exact .error trivial
    · exact .ok _ split names

theorem width_join_cons
    (node : Node)
    (others : List Node) :
    width (String.join ((node :: others).filterMap Node.interpolatedName?)).toList =
      node.nameWidth + width (String.join (others.filterMap Node.interpolatedName?)).toList := by
  cases name : node.interpolatedName? with
  | none => rw [List.filterMap_cons_none name, Node.nameWidth, name, Option.map_none,
      Option.getD_none, Nat.zero_add]
  | some name' => rw [List.filterMap_cons_some name, String.join_cons, String.toList_append,
      width_append, Node.nameWidth, name, Option.map_some, Option.getD_some]

/-- The names of the terms of a value are no wider than its tokens. -/
theorem readTermsFrom_names
    (tokens : List Token)
    {nodes : List Node}
    (read : readTermsFrom last tokens = .ok nodes) :
    width (String.join (nodes.filterMap Node.interpolatedName?)).toList ≤ Token.nameWidths tokens := by
  cases tokens with
  | nil =>
    rw [readTermsFrom] at read
    cases read
    exact Nat.le_refl _
  | cons token rest =>
    rw [readTermsFrom] at read
    split at read
    · have later := readTermsFrom_names rest read
      rw [Token.nameWidths_cons]
      omega
    · have first := term_names last (token :: rest)
      split at read
      · cases read
      · rename_i node following shorter readFirst
        rw [readFirst] at first
        obtain ⟨taken, split, names⟩ := first
        split at read
        · cases read
        · rename_i others readLater
          cases read
          have later := readTermsFrom_names following readLater
          rw [width_join_cons, split, Token.nameWidths_append]
          exact Nat.add_le_add names later
termination_by tokens.length
decreasing_by
  all_goals
    subst_vars
    simp only [List.length_cons] at *
    omega

/-- The names of the terms of a text are no wider than the text. -/
theorem readTerms_nameWidth
    {text : List Char}
    {line offset : Nat}
    {tokens : List Token}
    (hasTokens : tokenize text line offset = .ok tokens)
    {nodes : List Node}
    (read : readTerms tokens = .ok nodes) :
    width (String.join (nodes.filterMap Node.interpolatedName?)).toList ≤ width text :=
  Nat.le_trans (readTermsFrom_names _ tokens read) (tokenize_nameWidths hasTokens)

end Expression

end StyleSense
