import Mathlib.Data.List.Infix
import StyleSense.Proofs.Expression.Matching

/-!
Contract: what the readers of values make of the tokens that they take.

Owns:
- `Expression.Derives`, the grammar of values: the tokens of a term, of a list of terms, of the
  arguments of a call and of the entries of an object;
- `Expression.writtenKeys` and `Expression.DistinctKeys`, that no object literal repeats a key;
- one lemma for each reader: what it gives is derived from the tokens that it takes, and a fault has
  the place of a token. As in the matching of values, `term` is assumed to do so on fewer tokens and
  the circle is closed by induction on their number;
- `Expression.readTerms_derives` and `Expression.readTerms_fault`, the results for complete values.

Does not own: the precedence of operators, which the grammar leaves open.
-/

namespace StyleSense

/-- A sign or a word, so neither a value nor a bracket nor a comma. -/
def Token.isPlain (token : Token) : Bool :=
  match token.kind with
  | .op _ => true
  | .name _ => true
  | _ => false

theorem Token.isPlain_of_isOp
    {token : Token}
    {sign : Operator}
    (isSign : token.isOp sign = true) :
    token.isPlain = true := by
  rw [isPlain, eq_of_beq isSign]

theorem Token.isPlain_of_isName
    {token : Token}
    {text : String}
    (isName : token.isName text = true) :
    token.isPlain = true := by
  rw [isPlain, eq_of_beq isName]

namespace Expression

/-! ## The grammar -/

/-- What tokens are read as. Arguments and entries are read onto those that are there. -/
inductive Item where
  | term (node : Node)
  | terms (nodes : List Node)
  | arguments (current : Option Expression) (args : List Node)
  | entries (before after : List (String × Node))

/-- The tokens are read as the item. Where `distinct` holds, no entry of an object replaces another
one. -/
inductive Derives (distinct : Prop) : List Token → Item → Prop
  | number {token : Token} {value : Float} {suffix : Option String}
      (isNumber : token.kind = .number value suffix) :
      Derives distinct [token] (.term (.unit value suffix token.pos))
  | hash {token : Token} {text : String}
      (isHash : token.kind = .hash text) :
      Derives distinct [token] (.term (hashTerm text token.pos))
  | string {token : Token} {value : String}
      (isString : token.kind = .string value) :
      Derives distinct [token] (.term (.string value token.pos))
  | url {token : Token} {body : String}
      (isUrl : token.kind = .url body) :
      Derives distinct [token] (.term (urlTerm body token.pos))
  | ident {token : Token} {members : List Token} {first : String} (name : String)
      (isName : token.kind = .name first)
      (plain : ∀ member ∈ members, member.isPlain = true) :
      Derives distinct (token :: members) (.term (.ident name none token.pos))
  | subscripted {token opening closing : Token} {members inside ellipsis : List Token}
      {first : String} {nodes : List Node} (name : String)
      (isName : token.kind = .name first)
      (plain : ∀ member ∈ members, member.isPlain = true)
      (isOpening : opening.kind = .opening .square)
      (subscript : Derives distinct inside (.terms nodes))
      (isClosing : closing.kind = .closing .square)
      (plainEnd : ∀ sign ∈ ellipsis, sign.isPlain = true) :
      Derives distinct (token :: (members ++ opening :: (inside ++ closing :: ellipsis)))
        (.term (.ident name none token.pos))
  | call {token opening : Token} {inside : List Token} {name : String} {args : List Node}
      (isName : token.kind = .name name)
      (isOpening : opening.kind = .opening .round)
      (arguments : Derives distinct inside (.arguments none args)) :
      Derives distinct (token :: opening :: inside) (.term (.call name args token.pos))
  | group {opening closing : Token} {inside : List Token} {nodes : List Node}
      (isOpening : opening.kind = .opening .round)
      (terms : Derives distinct inside (.terms nodes))
      (isClosing : closing.kind = .closing .round) :
      Derives distinct (opening :: (inside ++ [closing]))
        (.term (.expression ⟨nodes, opening.pos⟩))
  | object {opening : Token} {inside : List Token} {entries : List (String × Node)}
      (isOpening : opening.kind = .opening .curly)
      (members : Derives distinct inside (.entries [] entries)) :
      Derives distinct (opening :: inside) (.term (.object entries opening.pos))
  | negated {sign : Token} {operand : List Token} {node : Node}
      (isSign : sign.isOp .minus = true)
      (inner : Derives distinct operand (.term node)) :
      Derives distinct (sign :: operand) (.term (negated sign.pos node))
  | plus {sign : Token} {operand : List Token} {node : Node}
      (isSign : sign.isOp .plus = true)
      (inner : Derives distinct operand (.term node)) :
      Derives distinct (sign :: operand) (.term node)
  | denied {sign : Token} {operand : List Token} {node : Node}
      (plain : sign.isPlain = true)
      (inner : Derives distinct operand (.term node)) :
      Derives distinct (sign :: operand) (.term .other)
  | joined {left signs right : List Token} {first second : Node} (sign : Operator)
      (lefts : Derives distinct left (.term first))
      (plain : ∀ token ∈ signs, token.isPlain = true)
      (rights : Derives distinct right (.term second)) :
      Derives distinct (left ++ (signs ++ right)) (.term (joined first sign second))
  | ternary {condition whenTrue whenFalse : List Token} {mark colon : Token} {test : Node}
      {first second : Expression}
      (tests : Derives distinct condition (.term test))
      (isMark : mark.isOp .question = true)
      (firsts : Derives distinct whenTrue (.terms first.terms))
      (isColon : colon.isOp .colon = true)
      (seconds : Derives distinct whenFalse (.terms second.terms)) :
      Derives distinct (condition ++ mark :: (whenTrue ++ colon :: whenFalse))
        (.term (.ternary test (.expression first) (.expression second) test.pos))
  | none : Derives distinct [] (.terms [])
  | comma {token : Token} {rest : List Token} {nodes : List Node}
      (isComma : token.kind = .comma)
      (others : Derives distinct rest (.terms nodes)) :
      Derives distinct (token :: rest) (.terms nodes)
  | cons {first rest : List Token} {node : Node} {nodes : List Node}
      (firsts : Derives distinct first (.term node))
      (others : Derives distinct rest (.terms nodes)) :
      Derives distinct (first ++ rest) (.terms (node :: nodes))
  | argumentsEnd {closing : Token} (current : Option Expression)
      (isClosing : closing.kind = .closing .round) :
      Derives distinct [closing] (.arguments current (current.toList.map .expression))
  | argumentEnd {token : Token} {rest : List Token} {args : List Node} (current : Option Expression)
      (isComma : token.kind = .comma)
      (others : Derives distinct rest (.arguments none args)) :
      Derives distinct (token :: rest)
        (.arguments current (.expression (current.getD ⟨[], .unknown⟩) :: args))
  | argumentTerm {first rest : List Token} {node : Node} {args : List Node}
      {current : Option Expression} (pos : SourcePos)
      (firsts : Derives distinct first (.term node))
      (others : Derives distinct rest (.arguments (some (extendArgument current node pos)) args)) :
      Derives distinct (first ++ rest) (.arguments current args)
  | entriesEnd {closing : Token} (entries : List (String × Node))
      (isClosing : closing.kind = .closing .curly) :
      Derives distinct [closing] (.entries entries entries)
  | entryEnd {token : Token} {rest : List Token} {before after : List (String × Node)}
      (isComma : token.kind = .comma)
      (others : Derives distinct rest (.entries before after)) :
      Derives distinct (token :: rest) (.entries before after)
  | entry {token colon : Token} {value rest : List Token} {key : String} {nodes : List Node}
      {before after : List (String × Node)}
      (isKey : key? token = some key)
      (isColon : colon.isOp .colon = true)
      (values : Derives distinct value (.terms nodes))
      (isNew : distinct → key ∉ before.map Prod.fst)
      (others : Derives distinct rest
        (.entries (Node.setEntry key (.expression ⟨nodes, token.pos⟩) before) after)) :
      Derives distinct (token :: colon :: (value ++ rest)) (.entries before after)

/-! ## Keys -/

/-- The keys that are written in an object, up to its closing brace. -/
def writtenKeys (last : SourcePos) (tokens : List Token) : List String :=
  match tokens with
  | [] => []
  | token :: rest =>
    if token.kind == .closing .curly then []
    else if token.kind == .comma then writtenKeys last rest
    else
      match key? token with
      | none => []
      | some key =>
        match rest with
        | [] => []
        | _ :: following =>
          match entryTerms last none following with
          | .ok ⟨_, unread, _⟩ => key :: writtenKeys last unread
          | .error _ => [key]
termination_by tokens.length
decreasing_by
  · simp
  · simp only [List.length_cons]
    omega

/-- The place of the last token. -/
def lastPlace (tokens : List Token) : SourcePos :=
  (tokens.getLast?.map Token.pos).getD .unknown

/-- No object in the tokens of a value that ends at `last` repeats a key. -/
def DistinctKeysTo (last : SourcePos) (tokens : List Token) : Prop :=
  ∀ {brace : Token} {inside : List Token}, brace :: inside <:+ tokens →
    brace.kind = .opening .curly → (writtenKeys last inside).Nodup

instance (last : SourcePos) (tokens : List Token) : Decidable (DistinctKeysTo last tokens) :=
  decidable_of_iff
    (∀ ending ∈ tokens.tails, ∀ brace ∈ ending.head?, brace.kind = .opening .curly →
      (writtenKeys last ending.tail).Nodup) <| by
    constructor
    · intro distinct brace inside isEnd
      exact distinct (brace :: inside) ((List.mem_tails ..).mpr isEnd) brace rfl
    · intro distinct ending isEnd brace isFirst
      obtain ⟨inside, rfl⟩ := List.head?_eq_some_iff.mp isFirst
      exact distinct ((List.mem_tails ..).mp isEnd)

/-- No object in the tokens of a value repeats a key. -/
def DistinctKeys (tokens : List Token) : Prop :=
  DistinctKeysTo (lastPlace tokens) tokens

instance (tokens : List Token) : Decidable (DistinctKeys tokens) :=
  inferInstanceAs (Decidable (DistinctKeysTo _ _))

theorem setEntry_of_notMem
    {key : String}
    (value : Node)
    {entries : List (String × Node)}
    (isNew : key ∉ entries.map Prod.fst) :
    Node.setEntry key value entries = entries ++ [(key, value)] := by
  induction entries with
  | nil => rfl
  | cons entry rest inductionHypothesis =>
    obtain ⟨notFirst, notLater⟩ := not_or.mp (mt List.mem_cons.mpr isNew)
    rw [Node.setEntry, if_neg (Ne.symm notFirst), inductionHypothesis notLater, List.cons_append]

/-! ## Readers -/

/-- A reader that gives a value has taken tokens off the front, and they mean the value; one that
fails names a good place. -/
def Yields
    (good : SourcePos → Prop)
    {α : Type}
    (meaning : List Token → α → Prop)
    (tokens : List Token)
    {bound : Nat}
    (result : Except ParseError (Read α bound)) : Prop :=
  match result with
  | .error error => good error.pos
  | .ok read => ∃ taken, tokens = taken ++ read.rest ∧ meaning taken read.value

namespace Yields

variable {good : SourcePos → Prop} {α : Type} {meaning : List Token → α → Prop}
  {tokens : List Token} {bound : Nat}

theorem ok
    {value : α}
    {rest taken : List Token}
    (shorter : rest.length < bound)
    (split : tokens = taken ++ rest)
    (means : meaning taken value) :
    Yields good meaning tokens (.ok ⟨value, rest, shorter⟩ : Except ParseError (Read α bound)) :=
  ⟨taken, split, means⟩

theorem error
    {fault : Fault}
    {pos : SourcePos}
    (isGood : good pos) :
    Yields good meaning tokens (.error ⟨fault, pos⟩ : Except ParseError (Read α bound)) :=
  isGood

/-- A reader goes on after another one and fails where that one does. -/
theorem next
    {β : Type}
    {meaning' : List Token → β → Prop}
    {tokens' : List Token}
    {bound' : Nat}
    {first : Except ParseError (Read α bound)}
    {whole : Except ParseError (Read β bound')}
    (yields : Yields good meaning tokens first)
    (fails : ∀ {fault pos}, first = .error ⟨fault, pos⟩ → whole = .error ⟨fault, pos⟩)
    (goesOn : ∀ {value rest shorter taken}, first = .ok ⟨value, rest, shorter⟩ →
      tokens = taken ++ rest → meaning taken value → Yields good meaning' tokens' whole) :
    Yields good meaning' tokens' whole := by
  match first, yields with
  | .error ⟨fault, pos⟩, isGood =>
    rw [fails rfl]
    exact isGood
  | .ok ⟨value, rest, shorter⟩, ⟨taken, split, means⟩ => exact goesOn rfl split means

end Yields

/-- What is known of the tokens that a reader gets: they stand at good places and, if that is asked
for, no object in them repeats a key. -/
structure Known
    (good : SourcePos → Prop)
    (distinct : Prop)
    (last : SourcePos)
    (tokens : List Token) : Prop where
  places : ∀ token ∈ tokens, good token.pos
  keys : distinct → DistinctKeysTo last tokens

theorem Known.rest
    {good : SourcePos → Prop}
    {distinct : Prop}
    {last : SourcePos}
    {tokens taken rest : List Token}
    (known : Known good distinct last tokens)
    (split : tokens = taken ++ rest) :
    Known good distinct last rest := by
  subst split
  refine ⟨fun token isIn => known.places token (List.mem_append_right _ isIn), ?_⟩
  intro asked brace inside isEnd
  exact known.keys asked (isEnd.trans (List.suffix_append _ _))

theorem Known.tail
    {good : SourcePos → Prop}
    {distinct : Prop}
    {last : SourcePos}
    {token : Token}
    {rest : List Token}
    (known : Known good distinct last (token :: rest)) :
    Known good distinct last rest :=
  known.rest (List.singleton_append ..).symm

theorem Known.head
    {good : SourcePos → Prop}
    {distinct : Prop}
    {last : SourcePos}
    {token : Token}
    {rest : List Token}
    (known : Known good distinct last (token :: rest)) :
    good token.pos :=
  known.places token (List.mem_cons_self ..)

theorem placeOf_good
    {good : SourcePos → Prop}
    {distinct : Prop}
    {last : SourcePos}
    (lastGood : good last)
    {tokens : List Token}
    (known : Known good distinct last tokens) :
    good (placeOf last tokens) := by
  cases tokens with
  | nil => exact lastGood
  | cons token rest => exact known.head

theorem members_split
    (name : String)
    (tokens : List Token) :
    ∃ taken, tokens = taken ++ (members name tokens).2.val ∧
      ∀ token ∈ taken, token.isPlain = true := by
  fun_induction members name tokens with
  | case1 => exact ⟨[], rfl, by simp⟩
  | case2 => exact ⟨[], rfl, by simp⟩
  | case3 name dot member following key isName isMember longer rest extended inductionHypothesis =>
    obtain ⟨taken, split, plain⟩ := inductionHypothesis
    rw [extended] at split
    refine ⟨dot :: member :: taken, by simpa using split, ?_⟩
    simp only [Bool.and_eq_true] at isMember
    intro token isIn
    rcases List.mem_cons.mp isIn with rfl | isLater
    · exact Token.isPlain_of_isOp isMember.1.1
    · rcases List.mem_cons.mp isLater with rfl | isTaken
      · rw [Token.isPlain, isName]
      · exact plain token isTaken
  | case4 => exact ⟨[], rfl, by simp⟩
  | case5 => exact ⟨[], rfl, by simp⟩

theorem dropEllipsis_split (tokens : List Token) :
    ∃ taken, tokens = taken ++ (dropEllipsis tokens).val ∧ ∀ token ∈ taken, token.isPlain = true := by
  cases tokens with
  | nil => exact ⟨[], rfl, by simp⟩
  | cons token rest =>
    rw [dropEllipsis]
    split
    · rename_i isEllipsis
      simp only [Bool.and_eq_true] at isEllipsis
      refine ⟨[token], rfl, fun sign isIn => ?_⟩
      rw [List.mem_singleton.mp isIn]
      exact Token.isPlain_of_isOp isEllipsis.1
    · exact ⟨[], rfl, by simp⟩

theorem infixOp?_split
    {tokens : List Token}
    {sign : Operator}
    {level : Operator.Level}
    {rest : { rest : List Token // rest.length < tokens.length }}
    (found : infixOp? tokens = some (sign, level, rest)) :
    ∃ signs, tokens = signs ++ rest.val ∧ ∀ token ∈ signs, token.isPlain = true := by
  have alone : ∀ {token : Token} {after : List Token}, token.isPlain = true →
      ∃ signs, token :: after = signs ++ after ∧ ∀ token ∈ signs, token.isPlain = true := by
    intro token after plain
    refine ⟨[token], rfl, fun other isIn => ?_⟩
    rw [List.mem_singleton.mp isIn]
    exact plain
  cases tokens with
  | nil => cases found
  | cons token after =>
    unfold infixOp? at found
    simp only at found
    split at found
    · rename_i isOp
      split at found
      · cases found
      · obtain ⟨found, _, same⟩ := Option.map_eq_some_iff.mp found
        cases same
        exact alone (by rw [Token.isPlain, isOp])
    · rename_i isWord
      cases found
      exact alone (by rw [Token.isPlain, isWord])
    · rename_i isWord
      cases found
      exact alone (by rw [Token.isPlain, isWord])
    · rename_i isWord
      have plain : token.isPlain = true := by rw [Token.isPlain, isWord]
      cases after with
      | nil =>
        cases found
        exact alone plain
      | cons next following =>
        simp only at found
        split at found
        · rename_i isNot
          cases found
          refine ⟨[token, next], rfl, fun other isIn => ?_⟩
          rcases List.mem_cons.mp isIn with rfl | isNext
          · exact plain
          · rw [List.mem_singleton.mp isNext]
            exact Token.isPlain_of_isName isNot
        · cases found
          exact alone plain
    · cases found

section Readers

variable {good : SourcePos → Prop} {distinct : Prop} {last : SourcePos} {bound : Nat}

/-- `term` gives what it derives on fewer than `bound` tokens. -/
def TermsYield (good : SourcePos → Prop) (distinct : Prop) (last : SourcePos) (bound : Nat) : Prop :=
  ∀ {tokens : List Token}, tokens.length < bound → Known good distinct last tokens →
    Yields good (fun taken node => Derives distinct taken (.term node)) tokens (term last tokens)

theorem branchTerms_yields
    (terms : TermsYield good distinct last bound)
    (untilColon : Bool)
    {tokens : List Token}
    (short : tokens.length < bound)
    (known : Known good distinct last tokens) :
    Yields good (fun taken nodes => Derives distinct taken (.terms nodes)) tokens
      (branchTerms last untilColon tokens) := by
  rw [branchTerms]
  split
  · exact .ok _ (List.nil_append _).symm .none
  · refine (terms short known).next (fun failed => by simp only [failed])
      fun {_ _ shorter _} read split firsts => ?_
    simp only [read]
    refine (branchTerms_yields terms untilColon (by omega) (known.rest split)).next
      (fun failed => by simp only [failed]) fun read splitAfter others => ?_
    simp only [read]
    exact .ok _ (by rw [split, splitAfter, List.append_assoc]) (.cons firsts others)
termination_by tokens.length

theorem branch_yields
    (lastGood : good last)
    (terms : TermsYield good distinct last bound)
    (untilColon : Bool)
    {tokens : List Token}
    (short : tokens.length < bound)
    (known : Known good distinct last tokens) :
    Yields good (fun taken value => Derives distinct taken (.terms value.terms)) tokens
      (branch last untilColon tokens) := by
  rw [branch]
  split
  · exact .error (placeOf_good lastGood known)
  · refine (terms short known).next (fun failed => by simp only [failed])
      fun {_ _ shorter _} read split firsts => ?_
    simp only [read]
    refine (branchTerms_yields terms untilColon (by omega) (known.rest split)).next
      (fun failed => by simp only [failed]) fun read splitAfter others => ?_
    simp only [read]
    exact .ok _ (by rw [split, splitAfter, List.append_assoc]) (.cons firsts others)

/-- The terms of a group are followed by its closing parenthesis. -/
theorem group_yields
    (terms : TermsYield good distinct last bound)
    {opened : SourcePos}
    (openedGood : good opened)
    {tokens : List Token}
    (short : tokens.length < bound)
    (known : Known good distinct last tokens) :
    Yields good
      (fun taken nodes => ∃ inside closing, taken = inside ++ [closing] ∧
        closing.kind = .closing .round ∧ Derives distinct inside (.terms nodes))
      tokens (group last opened tokens) := by
  cases tokens with
  | nil =>
    rw [group]
    exact .error openedGood
  | cons token rest =>
    rw [group]
    simp only [List.length_cons] at short
    split
    · rename_i isClosing
      exact .ok _ rfl ⟨[], token, rfl, eq_of_beq isClosing, .none⟩
    · split
      · rename_i isComma
        refine (group_yields terms openedGood (by omega) known.tail).next
          (fun failed => by simp only [failed]) ?_
        rintro nodes after _ _ read split ⟨inside, closing, rfl, isClosing, others⟩
        simp only [read]
        exact .ok _ (congrArg (token :: ·) split)
          ⟨token :: inside, closing, rfl, isClosing, .comma (eq_of_beq isComma) others⟩
      · refine (terms (by simpa using short) known).next (fun failed => by simp only [failed])
          fun {_ _ shorter first} read split firsts => ?_
        simp only [read]
        simp only [List.length_cons] at shorter
        refine (group_yields terms openedGood (by omega) (known.rest split)).next
          (fun failed => by simp only [failed]) ?_
        rintro nodes after _ _ read splitAfter ⟨inside, closing, rfl, isClosing, others⟩
        simp only [read]
        refine .ok _ ?_ ⟨first ++ inside, closing, rfl, isClosing, .cons firsts others⟩
        rw [split, splitAfter]
        simp only [List.append_assoc]
termination_by tokens.length

theorem subscript_yields
    (terms : TermsYield good distinct last bound)
    {opened : SourcePos}
    (openedGood : good opened)
    {tokens : List Token}
    (short : tokens.length < bound)
    (known : Known good distinct last tokens) :
    Yields good
      (fun taken _ => ∃ inside closing nodes, taken = inside ++ [closing] ∧
        closing.kind = .closing .square ∧ Derives distinct inside (.terms nodes))
      tokens (subscript last opened tokens) := by
  cases tokens with
  | nil =>
    rw [subscript]
    exact .error openedGood
  | cons token rest =>
    rw [subscript]
    simp only [List.length_cons] at short
    split
    · rename_i isClosing
      exact .ok _ rfl ⟨[], token, [], rfl, eq_of_beq isClosing, .none⟩
    · refine (terms (by simpa using short) known).next (fun failed => by simp only [failed])
        fun {node _ shorter first} read split firsts => ?_
      simp only [read]
      simp only [List.length_cons] at shorter
      refine (subscript_yields terms openedGood (by omega) (known.rest split)).next
        (fun failed => by simp only [failed]) ?_
      rintro _ after _ _ read splitAfter ⟨inside, closing, nodes, rfl, isClosing, others⟩
      simp only [read]
      refine .ok _ ?_
        ⟨first ++ inside, closing, node :: nodes, rfl, isClosing, .cons firsts others⟩
      rw [split, splitAfter]
      simp only [List.append_assoc]
termination_by tokens.length

theorem arguments_yields
    (terms : TermsYield good distinct last bound)
    {opened : SourcePos}
    (openedGood : good opened)
    (current : Option Expression)
    {tokens : List Token}
    (short : tokens.length < bound)
    (known : Known good distinct last tokens) :
    Yields good (fun taken args => Derives distinct taken (.arguments current args)) tokens
      (arguments last opened current tokens) := by
  cases tokens with
  | nil =>
    rw [arguments]
    exact .error openedGood
  | cons token rest =>
    rw [arguments]
    simp only [List.length_cons] at short
    split
    · rename_i isClosing
      exact .ok _ (List.singleton_append ..).symm (.argumentsEnd current (eq_of_beq isClosing))
    · split
      · rename_i isComma
        refine (arguments_yields terms openedGood none (by omega) known.tail).next
          (fun failed => by simp only [failed]) fun read split others => ?_
        simp only [read]
        exact .ok _ (congrArg (token :: ·) split) (.argumentEnd current (eq_of_beq isComma) others)
      · refine (terms (by simpa using short) known).next (fun failed => by simp only [failed])
          fun {node _ shorter _} read split firsts => ?_
        simp only [read]
        simp only [List.length_cons] at shorter
        refine (arguments_yields terms openedGood (some (extendArgument current node token.pos))
          (by omega) (known.rest split)).next (fun failed => by simp only [failed])
          fun read splitAfter others => ?_
        simp only [read]
        exact .ok _ (by rw [split, splitAfter, List.append_assoc])
          (.argumentTerm token.pos firsts others)
termination_by tokens.length

theorem entryTerms_yields
    (terms : TermsYield good distinct last bound)
    (previous : Option Nat)
    {tokens : List Token}
    (short : tokens.length < bound)
    (known : Known good distinct last tokens) :
    Yields good (fun taken nodes => Derives distinct taken (.terms nodes)) tokens
      (entryTerms last previous tokens) := by
  rw [entryTerms]
  split
  · exact .ok _ (List.nil_append _).symm .none
  · refine (terms short known).next (fun failed => by simp only [failed])
      fun {_ rest shorter _} read split firsts => ?_
    simp only [read]
    refine (entryTerms_yields terms (some (lineBefore tokens rest)) (by omega)
      (known.rest split)).next (fun failed => by simp only [failed])
      fun read splitAfter others => ?_
    simp only [read]
    exact .ok _ (by rw [split, splitAfter, List.append_assoc]) (.cons firsts others)
termination_by tokens.length

/-- The entries of an object. The keys before and those still to come are distinct if that is asked
for, so that no entry replaces another one. -/
theorem object_yields
    (lastGood : good last)
    (terms : TermsYield good distinct last bound)
    {opened : SourcePos}
    (openedGood : good opened)
    (entries : List (String × Node))
    {tokens : List Token}
    (newKeys : distinct → (entries.map Prod.fst ++ writtenKeys last tokens).Nodup)
    (short : tokens.length < bound)
    (known : Known good distinct last tokens) :
    Yields good (fun taken after => Derives distinct taken (.entries entries after)) tokens
      (object last opened entries tokens) := by
  match tokens with
  | [] =>
    rw [object]
    exact .error openedGood
  | token :: rest =>
    rw [object]
    rw [writtenKeys] at newKeys
    simp only [List.length_cons] at short
    change Yields _ _ _ (if _ then _ else if _ then _ else match key? token with | none => _ | some _ => _)
    split
    · rename_i isClosing
      exact .ok _ (List.singleton_append ..).symm (.entriesEnd entries (eq_of_beq isClosing))
    · rename_i notClosing
      rw [if_neg notClosing] at newKeys
      split
      · rename_i isComma
        rw [if_pos isComma] at newKeys
        refine (object_yields lastGood terms openedGood entries newKeys (by omega) known.tail).next
          (fun failed => by simp only [failed]) fun read split others => ?_
        simp only [read]
        exact .ok _ (congrArg (token :: ·) split) (.entryEnd (eq_of_beq isComma) others)
      · rename_i notComma
        rw [if_neg notComma] at newKeys
        split
        · exact .error known.head
        · rename_i key isKey
          cases rest with
          | nil => exact .error lastGood
          | cons colon following =>
            simp only [isKey] at newKeys
            simp only [List.length_cons] at short
            dsimp only
            split
            · rename_i isColon
              refine (entryTerms_yields terms none (by omega) known.tail.tail).next
                (fun failed => by simp only [failed])
                fun {nodes unread shorter _} read split values => ?_
              simp only [read] at newKeys ⊢
              have isNew : distinct → key ∉ entries.map Prod.fst := by
                intro asked isOld
                exact (List.nodup_append.mp (newKeys asked)).2.2 key isOld key (by simp) rfl
              have laterKeys : distinct →
                  ((Node.setEntry key (.expression ⟨nodes, token.pos⟩) entries).map Prod.fst ++
                    writtenKeys last unread).Nodup := by
                intro asked
                rw [setEntry_of_notMem _ (isNew asked), List.map_append, List.append_assoc]
                exact newKeys asked
              refine (object_yields lastGood terms openedGood _ laterKeys (by omega)
                (known.tail.tail.rest split)).next (fun failed => by simp only [failed])
                fun read splitAfter others => ?_
              simp only [read]
              refine .ok _ ?_ (.entry isKey isColon values isNew others)
              rw [split, splitAfter]
              simp only [List.cons_append, List.append_assoc]
            · exact .error known.tail.head
termination_by tokens.length

theorem named_yields
    (terms : TermsYield good distinct last bound)
    {token : Token}
    {name : String}
    (isName : token.kind = .name name)
    (tokenGood : good token.pos)
    {tokens : List Token}
    (short : tokens.length ≤ bound)
    (known : Known good distinct last tokens) :
    Yields good (fun taken node => Derives distinct (token :: taken) (.term node)) tokens
      (named last name token.pos tokens) := by
  cases tokens with
  | nil =>
    rw [named]
    exact .ok _ (List.append_nil _).symm (.ident name isName (by simp))
  | cons next rest =>
    rw [named]
    simp only [List.length_cons] at short
    split
    · rename_i isCall
      simp only [Bool.and_eq_true] at isCall
      refine (arguments_yields terms tokenGood none (by omega) known.tail).next
        (fun failed => by simp only [failed]) fun read split args => ?_
      simp only [read]
      exact .ok _ (congrArg (next :: ·) split) (.call isName (eq_of_beq isCall.1) args)
    · obtain ⟨extra, split, plain⟩ := members_split name (next :: rest)
      generalize members name (next :: rest) = extended at split
      obtain ⟨longer, remaining, shorter⟩ := extended
      simp only at split
      cases remaining with
      | nil => exact .ok _ split (.ident longer isName plain)
      | cons bracket following =>
        dsimp only
        have knownBracket := known.rest split
        simp only [List.length_cons] at shorter
        split
        · rename_i isSubscript
          simp only [Bool.and_eq_true] at isSubscript
          refine (subscript_yields terms knownBracket.head (by omega) knownBracket.tail).next
            (fun failed => by simp only [failed]) ?_
          rintro _ after _ _ read splitAfter ⟨inside, closing, nodes, rfl, isClosing, subscript⟩
          simp only [read]
          obtain ⟨ellipsis, splitEnd, plainEnd⟩ := dropEllipsis_split after
          refine .ok _ ?_ (.subscripted longer isName plain (eq_of_beq isSubscript.1) subscript
            isClosing plainEnd)
          rw [split, splitAfter, List.append_assoc]
          nth_rewrite 1 [splitEnd]
          simp only [List.append_assoc, List.cons_append, List.nil_append]
        · obtain ⟨ellipsis, splitEnd, plainEnd⟩ := dropEllipsis_split (bracket :: following)
          have whole : next :: rest =
              (extra ++ ellipsis) ++ (dropEllipsis (bracket :: following)).val := by
            rw [split, List.append_assoc, ← splitEnd]
          refine .ok _ whole (.ident longer isName fun other isIn => ?_)
          rcases List.mem_append.mp isIn with isMember | isEnd
          · exact plain other isMember
          · exact plainEnd other isEnd

theorem primary_yields
    (lastGood : good last)
    (terms : TermsYield good distinct last bound)
    {tokens : List Token}
    (short : tokens.length ≤ bound)
    (known : Known good distinct last tokens) :
    Yields good (fun taken node => Derives distinct taken (.term node)) tokens
      (primary last tokens) := by
  cases tokens with
  | nil =>
    rw [primary]
    exact .error lastGood
  | cons token rest =>
    have tokenGood := known.head
    simp only [List.length_cons] at short
    rw [primary]
    split
    · rename_i isNumber
      exact .ok _ (List.singleton_append ..).symm (.number isNumber)
    · rename_i isHash
      exact .ok _ (List.singleton_append ..).symm (.hash isHash)
    · rename_i isString
      exact .ok _ (List.singleton_append ..).symm (.string isString)
    · rename_i isUrl
      exact .ok _ (List.singleton_append ..).symm (.url isUrl)
    · rename_i isName
      refine (named_yields terms isName tokenGood (by omega) known.tail).next
        (fun failed => by simp only [failed]) fun read split node => ?_
      simp only [read]
      exact .ok _ (congrArg (token :: ·) split) node
    · rename_i isOpening
      refine (group_yields terms tokenGood (by omega) known.tail).next
        (fun failed => by simp only [failed]) ?_
      rintro nodes after _ _ read split ⟨inside, closing, rfl, isClosing, others⟩
      simp only [read]
      exact .ok _ (congrArg (token :: ·) split) (.group isOpening others isClosing)
    · rename_i isOpening
      have newKeys : distinct → ((([] : List (String × Node)).map Prod.fst) ++
          writtenKeys last rest).Nodup := by
        intro asked
        exact known.keys asked (List.suffix_refl _) isOpening
      refine (object_yields lastGood terms tokenGood [] newKeys (by omega) known.tail).next
        (fun failed => by simp only [failed]) fun read split entries => ?_
      simp only [read]
      exact .ok _ (congrArg (token :: ·) split) (.object isOpening entries)
    · exact .error tokenGood

theorem unary_yields
    (lastGood : good last)
    (terms : TermsYield good distinct last bound)
    {tokens : List Token}
    (short : tokens.length ≤ bound)
    (known : Known good distinct last tokens) :
    Yields good (fun taken node => Derives distinct taken (.term node)) tokens
      (unary last tokens) := by
  cases tokens with
  | nil =>
    rw [unary]
    exact primary_yields lastGood terms short known
  | cons sign rest =>
    have fewer : rest.length ≤ bound := by
      simp only [List.length_cons] at short
      omega
    have inner := unary_yields lastGood terms fewer known.tail
    rw [unary]
    split
    · rename_i isMinus
      refine inner.next (fun failed => by simp only [failed]) fun read split node => ?_
      simp only [read]
      exact .ok _ (congrArg (sign :: ·) split) (.negated isMinus node)
    · split
      · rename_i isPlus
        refine inner.next (fun failed => by simp only [failed]) fun read split node => ?_
        simp only [read]
        exact .ok _ (congrArg (sign :: ·) split) (.plus isPlus node)
      · split
        · rename_i isDenial
          have plain : sign.isPlain = true := by
            rcases Bool.or_eq_true_iff.mp isDenial with isBang | isNot
            · exact Token.isPlain_of_isOp isBang
            · exact Token.isPlain_of_isName isNot
          refine inner.next (fun failed => by simp only [failed]) fun read split node => ?_
          simp only [read]
          exact .ok _ (congrArg (sign :: ·) split) (.denied plain node)
        · exact primary_yields lastGood terms short known
termination_by tokens.length

mutual

theorem operand_yields
    (lastGood : good last)
    (terms : TermsYield good distinct last bound)
    (least : Nat)
    {tokens : List Token}
    (short : tokens.length ≤ bound)
    (known : Known good distinct last tokens) :
    Yields good (fun taken node => Derives distinct taken (.term node)) tokens
      (operand last least tokens) := by
  rw [operand]
  refine (unary_yields lastGood terms short known).next (fun failed => by simp only [failed])
    fun {left _ shorter _} read split lefts => ?_
  simp only [read]
  refine (chain_yields lastGood terms least left (by omega) (known.rest split)).next
    (fun failed => by simp only [failed]) fun read splitAfter grows => ?_
  simp only [read]
  exact .ok _ (by rw [split, splitAfter, List.append_assoc]) (grows lefts)
termination_by (tokens.length, 1)

/-- What a chain of operands takes extends whatever its first operand was read from. -/
theorem chain_yields
    (lastGood : good last)
    (terms : TermsYield good distinct last bound)
    (least : Nat)
    (left : Node)
    {tokens : List Token}
    (short : tokens.length ≤ bound)
    (known : Known good distinct last tokens) :
    Yields good
      (fun taken node => ∀ {before : List Token}, Derives distinct before (.term left) →
        Derives distinct (before ++ taken) (.term node))
      tokens (chain last least left tokens) := by
  rw [chain]
  split
  · refine .ok _ (List.nil_append _).symm fun lefts => ?_
    rw [List.append_nil]
    exact lefts
  · rename_i sign level rest shorterSign found
    obtain ⟨signs, split, plain⟩ := infixOp?_split found
    simp only at split
    split
    · refine .ok _ (List.nil_append _).symm fun lefts => ?_
      rw [List.append_nil]
      exact lefts
    · refine (operand_yields lastGood terms (level.rank + 1) (by omega) (known.rest split)).next
        (fun failed => by simp only [failed])
        fun {right following shorter taken} read splitRight rights => ?_
      simp only [read]
      refine (chain_yields lastGood terms least (joined left sign right) (by omega)
        ((known.rest split).rest splitRight)).next (fun failed => by simp only [failed])
        fun {_ after _ more} read splitAfter grows => ?_
      simp only [read]
      have whole : tokens = (signs ++ taken ++ more) ++ after := by
        rw [split, splitRight, splitAfter]
        simp only [List.append_assoc]
      refine .ok _ whole fun {before} lefts => ?_
      have longer := grows (.joined sign lefts plain rights)
      simpa only [List.append_assoc] using longer
termination_by (tokens.length, 0)

end

/-- If `term` gives what it derives on fewer tokens than these, it does so on these. -/
theorem term_yields_of_fewer
    (lastGood : good last)
    {tokens : List Token}
    (terms : TermsYield good distinct last tokens.length)
    (known : Known good distinct last tokens) :
    Yields good (fun taken node => Derives distinct taken (.term node)) tokens
      (term last tokens) := by
  rw [term]
  refine (operand_yields lastGood terms 0 (Nat.le_refl _) known).next
    (fun failed => by simp only [failed]) fun {condition rest shorter _} read split tests => ?_
  simp only [read]
  cases rest with
  | nil => exact .ok _ split tests
  | cons mark following =>
    dsimp only
    have knownMark := known.rest split
    simp only [List.length_cons] at shorter
    split
    · rename_i isMark
      refine (branch_yields lastGood terms true (by omega) knownMark.tail).next
        (fun failed => by simp only [failed])
        fun {_ rest shorterTrue _} read splitTrue firsts => ?_
      simp only [read]
      cases rest with
      | nil => exact .error lastGood
      | cons colon after =>
        dsimp only
        have knownColon := knownMark.tail.rest splitTrue
        simp only [List.length_cons] at shorterTrue
        split
        · rename_i isColon
          refine (branch_yields lastGood terms false (by omega) knownColon.tail).next
            (fun failed => by simp only [failed]) fun read splitFalse seconds => ?_
          simp only [read]
          refine .ok _ ?_ (.ternary tests isMark firsts isColon seconds)
          rw [split, splitTrue, splitFalse]
          simp only [List.append_assoc, List.cons_append]
        · exact .error knownColon.head
    · exact .ok _ split tests

theorem termsYield
    (lastGood : good last)
    (bound : Nat) :
    TermsYield good distinct last bound := by
  induction bound with
  | zero =>
    intro tokens short _
    exact absurd short (Nat.not_lt_zero _)
  | succ bound inductionHypothesis =>
    intro tokens short known
    apply term_yields_of_fewer lastGood _ known
    intro fewer shorter
    exact inductionHypothesis (by omega)

theorem readTermsFrom_yields
    (lastGood : good last)
    {tokens : List Token}
    (known : Known good distinct last tokens) :
    match readTermsFrom last tokens with
    | .error error => good error.pos
    | .ok nodes => Derives distinct tokens (.terms nodes) := by
  cases tokens with
  | nil =>
    rw [readTermsFrom]
    exact .none
  | cons token rest =>
    rw [readTermsFrom]
    by_cases isComma : (token.kind == .comma) = true
    · have later := readTermsFrom_yields lastGood known.tail
      simp only [isComma, if_true]
      generalize readTermsFrom last rest = result at later ⊢
      cases result with
      | error error => exact later
      | ok nodes => exact .comma (eq_of_beq isComma) later
    · simp only [isComma]
      have first := termsYield lastGood (rest.length + 2) (by simp) known
      generalize term last (token :: rest) = result at first ⊢
      cases result with
      | error error => exact first
      | ok read =>
        obtain ⟨node, following, shorter⟩ := read
        obtain ⟨taken, split, firsts⟩ := first
        have later := readTermsFrom_yields lastGood (known.rest split)
        dsimp only
        generalize readTermsFrom last following = result at later ⊢
        cases result with
        | error error => exact later
        | ok nodes =>
          rw [split]
          exact .cons firsts later
termination_by tokens.length
decreasing_by
  all_goals
    subst_vars
    simp only [List.length_cons] at *
    omega

end Readers

/-! ## Complete values -/

/-- The terms of a value are derived from its tokens. -/
theorem readTerms_derives
    {distinct : Prop}
    {tokens : List Token}
    (keys : distinct → DistinctKeys tokens)
    {nodes : List Node}
    (read : readTerms tokens = .ok nodes) :
    Derives distinct tokens (.terms nodes) := by
  have known : Known (fun _ => True) distinct (lastPlace tokens) tokens :=
    ⟨fun _ _ => trivial, fun asked => keys asked⟩
  have yields := readTermsFrom_yields trivial known
  rw [readTerms, ← lastPlace] at read
  simpa only [read] using yields

/-- A value consists of the terms that its tokens give and has the place of the first of them. -/
theorem read_ok
    {tokens : List Token}
    {pos : SourcePos}
    {value : Expression}
    (read : Expression.read tokens pos = .ok value) :
    readTerms tokens = .ok value.terms ∧ value.pos = placeOf pos tokens := by
  unfold Expression.read at read
  split at read
  · cases read
  · rename_i nodes terms
    cases read
    exact ⟨terms, rfl⟩

/-- A fault in a value has the place of one of its tokens. -/
theorem readTerms_fault
    {tokens : List Token}
    {error : ParseError}
    (failed : readTerms tokens = .error error) :
    ∃ token ∈ tokens, error.pos = token.pos := by
  cases tokens with
  | nil =>
    rw [readTerms, readTermsFrom] at failed
    cases failed
  | cons first rest =>
    let good (pos : SourcePos) : Prop := ∃ token ∈ first :: rest, pos = token.pos
    have known : Known good False (lastPlace (first :: rest)) (first :: rest) :=
      ⟨fun token isIn => ⟨token, isIn, rfl⟩, False.elim⟩
    have lastGood : good (lastPlace (first :: rest)) := by
      refine ⟨(first :: rest).getLast (by simp), List.getLast_mem _, ?_⟩
      rw [lastPlace, List.getLast?_eq_some_getLast (by simp)]
      rfl
    have yields := readTermsFrom_yields lastGood known
    rw [readTerms, ← lastPlace] at failed
    simpa only [failed] using yields

end Expression

end StyleSense
