import StyleSense.Proofs.Expression.Derivation
import StyleSense.Proofs.Line.Order
import StyleSense.Proofs.Statement.Exchange

/-!
Contract: the values of a stylesheet and their tokens.

Owns:
- `Line.value?`, the end of a line that is read as a value: after an assignment sign, after `return`,
  after the name of a property, or the whole line;
- `LineTree.forestValues`, the tokens of every value in source order;
- `DistinctKeys`, that no object literal of a text repeats a key;
- `LineTree.forestValues_increasing`: the tokens of all values are in order.

Does not own: what the statements make of their values (`StyleSense.Proofs.Swatch.Order`).
-/

namespace StyleSense

open Text

namespace Line

/-- The end of a line that is read as a value, if there is one. A line with a body has none, unless
it is an assignment. -/
def value? (line : Line) (hasBody : Bool) : Option (List Char) :=
  let text := line.head.text
  let word := String.ofList (firstWord text)
  match text.head?, Pattern.assignment? text with
  | some '@', _ => none
  | _, some (_, value) => some value
  | _, none =>
    if word = "return" then some (text.drop word.length)
    else if controlWords.contains word || hasBody || (Pattern.interpolation? text).isSome
        || text.head?.any selectorSigns.contains then none
    else
      match Pattern.property? text with
      | some (_, value) => some value
      | none => some text

/-- The tokens of the value of a line, if it has one that can be read. -/
def values (line : Line) (hasBody : Bool) : List (List Token) :=
  ((line.value? hasBody).bind fun value => (line.tokensOf value).toOption).toList

theorem value?_suffix
    {line : Line}
    {hasBody : Bool}
    {value : List Char}
    (isValue : line.value? hasBody = some value) :
    value <:+ line.head.text := by
  unfold value? at isValue
  simp only at isValue
  split at isValue
  · cases isValue
  · rename_i found _
    cases isValue
    exact Pattern.assignment?_suffix found
  · split at isValue
    · cases isValue
      exact List.drop_suffix _ _
    · split at isValue
      · cases isValue
      · split at isValue
        · rename_i found
          cases isValue
          exact Pattern.property?_suffix found
        · cases isValue
          exact List.suffix_refl _

theorem value?_of_notAssignment
    {line : Line}
    (notAt : line.head.text.head? ≠ some '@')
    (notAssignment : Pattern.assignment? line.head.text = none)
    (hasBody : Bool) :
    line.value? hasBody =
      let text := line.head.text
      let word := String.ofList (firstWord text)
      if word = "return" then some (text.drop word.length)
      else if controlWords.contains word || hasBody || (Pattern.interpolation? text).isSome
          || text.head?.any selectorSigns.contains then none
      else
        match Pattern.property? text with
        | some (_, value) => some value
        | none => some text := by
  unfold value?
  simp only [notAssignment]

/-- Tokens of a value are those of an end of the line. -/
theorem exists_of_mem_values
    {line : Line}
    {hasBody : Bool}
    {tokens : List Token}
    (isIn : tokens ∈ line.values hasBody) :
    ∃ value, value <:+ line.head.text ∧ line.tokensOf value = .ok tokens := by
  rw [values, Option.mem_toList, Option.bind_eq_some_iff] at isIn
  obtain ⟨value, isValue, read⟩ := isIn
  refine ⟨value, value?_suffix isValue, ?_⟩
  generalize line.tokensOf value = result at read ⊢
  cases result with
  | error error => cases read
  | ok others =>
    cases read
    rfl

theorem values_of_tokensOf
    {line : Line}
    {hasBody : Bool}
    {value : List Char}
    (isValue : line.value? hasBody = some value)
    {tokens : List Token}
    (read : line.tokensOf value = .ok tokens) :
    line.values hasBody = [tokens] := by
  rw [values, isValue, Option.bind_some, read]
  rfl

theorem values_shows
    (line : Line)
    (hasBody : Bool) :
    ∀ token ∈ (line.values hasBody).flatten, line.ShowsToken token := by
  intro token isIn
  obtain ⟨tokens, isValue, isToken⟩ := List.mem_flatten.mp isIn
  obtain ⟨value, isEnd, read⟩ := exists_of_mem_values isValue
  exact tokensOf_shows isEnd read token isToken

theorem values_increasing
    {line : Line}
    (ordered : line.fragments.Pairwise Fragment.Before)
    (hasBody : Bool) :
    (line.values hasBody).flatten.Pairwise fun left right => left.pos.Before right.pos := by
  cases chosen : (line.value? hasBody).bind fun value => (line.tokensOf value).toOption with
  | none => simp [values, chosen]
  | some tokens =>
    have isIn : tokens ∈ line.values hasBody := by simp [values, chosen]
    have whole : (line.values hasBody).flatten = tokens := by simp [values, chosen]
    obtain ⟨value, isEnd, read⟩ := exists_of_mem_values isIn
    rw [whole]
    exact tokensOf_increasing isEnd ordered read

end Line

namespace LineTree

mutual

/-- The tokens of the values of a line and of the lines below it. -/
def values : LineTree → List (List Token)
  | node line children => line.values (!children.isEmpty) ++ forestValues children

/-- The tokens of the values of some lines with all that is below them. -/
def forestValues : List LineTree → List (List Token)
  | [] => []
  | tree :: rest => tree.values ++ forestValues rest

end

mutual

theorem values_shows : ∀ tree : LineTree, ∀ token ∈ tree.values.flatten,
    ∃ fragment ∈ tree.lines.flatMap Line.fragments, fragment.ShowsToken token
  | node line children => by
    intro token isIn
    rw [values, List.flatten_append] at isIn
    rw [lines, List.flatMap_cons]
    rcases List.mem_append.mp isIn with isHere | isBelow
    · obtain ⟨fragment, isFragment, shows⟩ := line.values_shows _ token isHere
      exact ⟨fragment, List.mem_append_left _ isFragment, shows⟩
    · obtain ⟨fragment, isFragment, shows⟩ := forestValues_shows children token isBelow
      exact ⟨fragment, List.mem_append_right _ isFragment, shows⟩

theorem forestValues_shows : ∀ trees : List LineTree, ∀ token ∈ (forestValues trees).flatten,
    ∃ fragment ∈ (forestLines trees).flatMap Line.fragments, fragment.ShowsToken token
  | [] => fun _ isIn => nomatch isIn
  | tree :: rest => by
    intro token isIn
    rw [forestValues, List.flatten_append] at isIn
    rw [forestLines, List.flatMap_append]
    rcases List.mem_append.mp isIn with isHere | isLater
    · obtain ⟨fragment, isFragment, shows⟩ := values_shows tree token isHere
      exact ⟨fragment, List.mem_append_left _ isFragment, shows⟩
    · obtain ⟨fragment, isFragment, shows⟩ := forestValues_shows rest token isLater
      exact ⟨fragment, List.mem_append_right _ isFragment, shows⟩

end

/-- Tokens that fragments in order show are in order, part after part. -/
theorem increasing_append
    {fragments fragments' : List Fragment}
    (ordered : (fragments ++ fragments').Pairwise Fragment.Before)
    {tokens tokens' : List Token}
    (shown : ∀ token ∈ tokens, ∃ fragment ∈ fragments, fragment.ShowsToken token)
    (shown' : ∀ token ∈ tokens', ∃ fragment ∈ fragments', fragment.ShowsToken token)
    (increasing : tokens.Pairwise fun left right => left.pos.Before right.pos)
    (increasing' : tokens'.Pairwise fun left right => left.pos.Before right.pos) :
    (tokens ++ tokens').Pairwise fun left right => left.pos.Before right.pos := by
  refine List.pairwise_append.mpr ⟨increasing, increasing', ?_⟩
  intro token isIn token' isIn'
  obtain ⟨fragment, isFragment, shows⟩ := shown token isIn
  obtain ⟨fragment', isFragment', shows'⟩ := shown' token' isIn'
  exact ((List.pairwise_append.mp ordered).2.2 fragment isFragment fragment' isFragment').shows
    shows.shows shows'.shows

mutual

theorem values_increasing : ∀ tree : LineTree,
    (tree.lines.flatMap Line.fragments).Pairwise Fragment.Before →
      tree.values.flatten.Pairwise fun left right => left.pos.Before right.pos
  | node line children => by
    intro ordered
    rw [lines, List.flatMap_cons] at ordered
    rw [values, List.flatten_append]
    obtain ⟨own, below, _⟩ := List.pairwise_append.mp ordered
    exact increasing_append ordered (line.values_shows _) (forestValues_shows children)
      (Line.values_increasing own _) (forestValues_increasing children below)

/-- The tokens of all values are in order. -/
theorem forestValues_increasing : ∀ trees : List LineTree,
    ((forestLines trees).flatMap Line.fragments).Pairwise Fragment.Before →
      (forestValues trees).flatten.Pairwise fun left right => left.pos.Before right.pos
  | [] => fun _ => .nil
  | tree :: rest => by
    intro ordered
    rw [forestLines, List.flatMap_append] at ordered
    rw [forestValues, List.flatten_append]
    obtain ⟨here, later, _⟩ := List.pairwise_append.mp ordered
    exact increasing_append ordered (values_shows tree) (forestValues_shows rest)
      (values_increasing tree here) (forestValues_increasing rest later)

end

end LineTree

/-- No object literal of a text repeats a key. -/
def DistinctKeys (text : List Char) : Prop :=
  ∀ lines, scanLines text = .ok lines →
    ∀ tokens ∈ LineTree.forestValues (buildForest lines), Expression.DistinctKeys tokens

instance (text : List Char) : Decidable (DistinctKeys text) :=
  match scanned : scanLines text with
  | .ok lines =>
    decidable_of_iff
      (∀ tokens ∈ LineTree.forestValues (buildForest lines), Expression.DistinctKeys tokens)
      ⟨fun distinct lines' same => by
        cases scanned.symm.trans same
        exact distinct, fun distinct => distinct lines scanned⟩
  | .error error => isTrue fun lines same => by cases scanned.symm.trans same

end StyleSense
