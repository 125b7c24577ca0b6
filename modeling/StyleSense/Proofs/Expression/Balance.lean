import StyleSense.Proofs.Expression.Derivation
import StyleSense.Proofs.Token.Cut

/-!
Contract: a value that can be read closes every brace that it opens, and no other.

Owns:
- `braceDepth`, the braces that tokens open less those that they close;
- `Expression.Derives.braceDepth_eq`, by induction on the grammar of values: only the entries of an
  object, which are read from behind its opening brace, close one more than they open;
- `Expression.braceDepth_of_readTerms`, the result for complete values.

Does not own: the braces of lines (`StyleSense.Proofs.Line.Nesting`).
-/

namespace StyleSense

/-- A token of this kind opens or closes a brace. -/
def braceWeight : Token.Kind → Int
  | .opening .curly => 1
  | .closing .curly => -1
  | _ => 0

/-- The braces that tokens of these kinds open less those that they close. -/
def braceDepth : List (Token.Kind × Bool) → Int
  | [] => 0
  | kind :: rest => braceWeight kind.1 + braceDepth rest

theorem braceDepth_append
    (left right : List (Token.Kind × Bool)) :
    braceDepth (left ++ right) = braceDepth left + braceDepth right := by
  induction left with
  | nil => exact (Int.zero_add _).symm
  | cons kind rest inductionHypothesis =>
    rw [List.cons_append, braceDepth, braceDepth, inductionHypothesis, Int.add_assoc]

theorem braceDepth_spaceFirst (kinds : List (Token.Kind × Bool)) :
    braceDepth (spaceFirst kinds) = braceDepth kinds := by
  cases kinds <;> rfl

@[simp] theorem braceDepth_kindsOf_nil : braceDepth (kindsOf []) = 0 :=
  rfl

@[simp] theorem braceDepth_kindsOf_cons
    (token : Token)
    (tokens : List Token) :
    braceDepth (kindsOf (token :: tokens)) = braceWeight token.kind + braceDepth (kindsOf tokens) :=
  rfl

@[simp] theorem braceDepth_kindsOf_append
    (left right : List Token) :
    braceDepth (kindsOf (left ++ right)) = braceDepth (kindsOf left) + braceDepth (kindsOf right) := by
  rw [kindsOf, List.map_append]
  exact braceDepth_append _ _

theorem Token.braceWeight_of_isPlain
    {token : Token}
    (plain : token.isPlain = true) :
    braceWeight token.kind = 0 := by
  unfold isPlain at plain
  split at plain
  · rename_i kind
    rw [kind]
    rfl
  · rename_i kind
    rw [kind]
    rfl
  · cases plain

theorem braceDepth_of_plain
    {tokens : List Token}
    (plain : ∀ token ∈ tokens, token.isPlain = true) :
    braceDepth (kindsOf tokens) = 0 := by
  induction tokens with
  | nil => rfl
  | cons token rest inductionHypothesis =>
    obtain ⟨plainHere, plainLater⟩ := List.forall_mem_cons.mp plain
    rw [braceDepth_kindsOf_cons, Token.braceWeight_of_isPlain plainHere, inductionHypothesis plainLater]
    rfl

namespace Expression

/-- The braces that the tokens of an item open: the entries of an object close its brace. -/
def Item.braceDepth : Item → Int
  | .entries _ _ => -1
  | _ => 0

theorem braceWeight_of_key?
    {token : Token}
    {key : String}
    (isKey : key? token = some key) :
    braceWeight token.kind = 0 := by
  unfold key? at isKey
  split at isKey
  · rename_i kind
    rw [kind]
    rfl
  · rename_i kind
    rw [kind]
    rfl
  · cases isKey

/-- What is read from tokens tells how many braces they open. -/
theorem Derives.braceDepth_eq
    {distinct : Prop}
    {tokens : List Token}
    {item : Item}
    (derives : Derives distinct tokens item) :
    braceDepth (kindsOf tokens) = item.braceDepth := by
  induction derives with
  | number isNumber => simp [isNumber, braceWeight, Item.braceDepth]
  | hash isHash => simp [isHash, braceWeight, Item.braceDepth]
  | string isString => simp [isString, braceWeight, Item.braceDepth]
  | url isUrl => simp [isUrl, braceWeight, Item.braceDepth]
  | ident _ isName plain =>
    simp [isName, braceWeight, Item.braceDepth, braceDepth_of_plain plain]
  | subscripted _ isName plain isOpening _ isClosing plainEnd inside =>
    simp [isName, isOpening, isClosing, braceWeight, Item.braceDepth, braceDepth_of_plain plain,
      braceDepth_of_plain plainEnd, inside]
  | call isName isOpening _ inside =>
    simp [isName, isOpening, braceWeight, Item.braceDepth, inside]
  | group isOpening _ isClosing inside =>
    simp [isOpening, isClosing, braceWeight, Item.braceDepth, inside]
  | object isOpening _ inside =>
    -- The entries close the brace that opens the object.
    simp [isOpening, braceWeight, Item.braceDepth, inside]
  | negated isSign _ inner =>
    simp [Token.braceWeight_of_isPlain (Token.isPlain_of_isOp isSign), inner, Item.braceDepth]
  | plus isSign _ inner =>
    simp [Token.braceWeight_of_isPlain (Token.isPlain_of_isOp isSign), inner, Item.braceDepth]
  | denied plain _ inner =>
    simp [Token.braceWeight_of_isPlain plain, inner, Item.braceDepth]
  | joined _ _ plain _ lefts rights =>
    simp [braceDepth_of_plain plain, lefts, rights, Item.braceDepth]
  | ternary _ isMark _ isColon _ tests firsts seconds =>
    simp [Token.braceWeight_of_isPlain (Token.isPlain_of_isOp isMark),
      Token.braceWeight_of_isPlain (Token.isPlain_of_isOp isColon), tests, firsts, seconds,
      Item.braceDepth]
  | none => rfl
  | comma isComma _ others => simp [isComma, braceWeight, others, Item.braceDepth]
  | cons _ _ firsts others => simp [firsts, others, Item.braceDepth]
  | argumentsEnd _ isClosing => simp [isClosing, braceWeight, Item.braceDepth]
  | argumentEnd _ isComma _ others => simp [isComma, braceWeight, others, Item.braceDepth]
  | argumentTerm _ _ _ firsts others => simp [firsts, others, Item.braceDepth]
  | entriesEnd _ isClosing => simp [isClosing, braceWeight, Item.braceDepth]
  | entryEnd isComma _ others => simp [isComma, braceWeight, others, Item.braceDepth]
  | entry isKey isColon _ _ _ values others =>
    simp [braceWeight_of_key? isKey, Token.braceWeight_of_isPlain (Token.isPlain_of_isOp isColon),
      values, others, Item.braceDepth]

/-- A value that can be read opens as many braces as it closes. -/
theorem braceDepth_of_readTerms
    {tokens : List Token}
    {nodes : List Node}
    (read : readTerms tokens = .ok nodes) :
    braceDepth (kindsOf tokens) = 0 := by
  have nothingAsked : False → DistinctKeys tokens := False.elim
  exact (readTerms_derives nothingAsked read).braceDepth_eq

end Expression

end StyleSense
