import StyleSense.Proofs.Line.Nesting
import StyleSense.Statement.Selector

/-!
Contract: the parts of a selector list.

A comma separates two selectors when nothing is open before it. The reader of rule headers decides
this by counting the bracket signs before the comma, also those in quotes, and it starts anew on
every physical line.

Owns:
- `commaParts`, the texts between the commas that a test on the text before them picks,
  `isTopLevel`, the test with brackets and quotes that match, and `isCountedOut`, the test that
  counts;
- `splitSelectors_eq_commaParts`: a header is split where the signs count out, in source order
  (`splitSelectors_ordered`);
- `CountsOpen`, texts in which the two tests agree, and `CountsOpen.of_unquoted`: those without
  quotes whose brackets match;
- `commaParts_isTopLevel_intercalate`: the parts of a list over several lines, all but the last of
  which end in a comma, are those of its lines.

Does not own: which lines make up a rule header (`StyleSense.Proofs.Line.Ending`).
-/

namespace StyleSense

open Text

/-! ## Texts between commas -/

/-- The stretches of a text between the commas before which the test holds; `before` is what stands
before the text. -/
def stretchesFrom (cuts : List Char → Bool) (before : List Char) : List Char → List (List Char)
  | [] => [[]]
  | c :: rest =>
    let later := stretchesFrom cuts (before ++ [c]) rest
    if c == ',' && cuts before then [] :: later else later.modifyHead (c :: ·)

/-- Stretches without the blanks around them; a stretch of blanks is none. -/
def trimmedStretches (stretches : List (List Char)) : List (List Char) :=
  (stretches.map trim).filter (!·.isEmpty)

/-- The parts of a list between the commas before which the test holds. -/
def commaParts (cuts : List Char → Bool) (text : List Char) : List (List Char) :=
  trimmedStretches (stretchesFrom cuts [] text)

/-- Nothing is open after the text, neither a bracket nor a quote. -/
def isTopLevel (before : List Char) : Bool :=
  decide (Leaves before [])

/-- The signs of a text that open a bracket less those that close one, quoted signs included. -/
def signCount : List Char → Int
  | [] => 0
  | c :: cs => bracketWeight true none c + signCount cs

/-- As many signs open a bracket as close one. -/
def isCountedOut (before : List Char) : Bool :=
  signCount before == 0

theorem stretchesFrom_ne_nil
    (cuts : List Char → Bool)
    (before text : List Char) :
    stretchesFrom cuts before text ≠ [] := by
  induction text generalizing before with
  | nil => exact List.cons_ne_nil _ _
  | cons c rest inductionHypothesis =>
    simp only [stretchesFrom]
    split
    · exact List.cons_ne_nil _ _
    · obtain ⟨first, others, isList⟩ := List.exists_cons_of_ne_nil
        (inductionHypothesis (before ++ [c]))
      rw [isList]
      exact List.cons_ne_nil _ _

/-- Tests that agree before every comma cut a text alike. -/
theorem stretchesFrom_congr
    {cuts cuts' : List Char → Bool}
    {before before' text : List Char}
    (agree : ∀ left right, text = left ++ ',' :: right →
      cuts (before ++ left) = cuts' (before' ++ left)) :
    stretchesFrom cuts before text = stretchesFrom cuts' before' text := by
  induction text generalizing before before' with
  | nil => rfl
  | cons c rest inductionHypothesis =>
    have later : stretchesFrom cuts (before ++ [c]) rest =
        stretchesFrom cuts' (before' ++ [c]) rest := by
      refine inductionHypothesis fun left right split => ?_
      have whole := agree (c :: left) right (by rw [split, List.cons_append])
      simpa only [List.append_assoc, List.singleton_append] using whole
    simp only [stretchesFrom, later]
    by_cases isComma : c = ','
    · have here := agree [] rest (by rw [isComma, List.nil_append])
      rw [List.append_nil, List.append_nil] at here
      rw [here]
    · simp [isComma]

/-- A comma that cuts separates the stretches before it from those after it. -/
theorem stretchesFrom_append_comma
    {cuts : List Char → Bool}
    {before left : List Char}
    (isCut : cuts (before ++ left) = true)
    (right : List Char) :
    stretchesFrom cuts before (left ++ ',' :: right) =
      stretchesFrom cuts before left ++ stretchesFrom cuts (before ++ left ++ [',']) right := by
  induction left generalizing before with
  | nil =>
    rw [List.append_nil] at isCut
    simp [stretchesFrom, isCut]
  | cons c rest inductionHypothesis =>
    have whole : before ++ [c] ++ rest = before ++ c :: rest := by simp
    rw [← whole] at isCut ⊢
    have later := inductionHypothesis isCut
    rw [List.cons_append, stretchesFrom, stretchesFrom, later]
    split
    · rfl
    · obtain ⟨first, others, isList⟩ := List.exists_cons_of_ne_nil
        (stretchesFrom_ne_nil cuts (before ++ [c]) rest)
      rw [isList]
      rfl

theorem trimmedStretches_append (left right : List (List Char)) :
    trimmedStretches (left ++ right) = trimmedStretches left ++ trimmedStretches right := by
  rw [trimmedStretches, List.map_append, List.filter_append]
  rfl

/-- A blank before the first stretch does not count. -/
theorem trimmedStretches_modifyHead
    {c : Char}
    (blank : isBlank c = true)
    (stretches : List (List Char)) :
    trimmedStretches (stretches.modifyHead (c :: ·)) = trimmedStretches stretches := by
  cases stretches with
  | nil => rfl
  | cons first others =>
    have same : trim (c :: first) = trim first := by
      rw [trim, trim, trimStart, List.dropWhile_cons_of_pos blank]
      rfl
    simp only [trimmedStretches, List.modifyHead_cons, List.map_cons, same]

/-! ## How headers are split -/

theorem signCount_append_singleton
    (before : List Char)
    (c : Char) :
    signCount (before ++ [c]) = signCount before + bracketWeight true none c := by
  induction before with
  | nil => exact Int.add_comm _ _
  | cons first rest inductionHypothesis =>
    rw [List.cons_append, signCount, signCount, inductionHypothesis, Int.add_assoc]

theorem modifyHead_nil_append (stretches : List (List Char)) :
    stretches.modifyHead ([] ++ ·) = stretches :=
  congrFun List.modifyHead_id stretches

theorem selectorPart_texts
    (start : Nat)
    (part : List Char) :
    (selectorPart start part).map Prod.snd = trimmedStretches [part] := by
  simp only [selectorPart, trimmedStretches, List.map_singleton, List.filter_singleton]
  cases (trim part).isEmpty <;> rfl

/-- A comma at depth zero ends a part; any other character counts for what it opens. -/
theorem splitSelectorsFrom_cons
    (depth : Int)
    (start : Nat)
    (reversed : List Char)
    (index : Nat)
    (c : Char)
    (cs : List Char) :
    splitSelectorsFrom depth start reversed index (c :: cs) =
      if c == ',' && depth == 0 then
        selectorPart start reversed.reverse ++
          splitSelectorsFrom depth (index + c.utf8Size) [] (index + c.utf8Size) cs
      else
        splitSelectorsFrom (depth + bracketWeight true none c) start (c :: reversed)
          (index + c.utf8Size) cs := by
  simp only [splitSelectorsFrom, bracketWeight, Option.isSome_none, Bool.false_eq_true, if_false,
    Bool.true_and]
  split
  · rename_i opens
    have notComma : (c == ',') = false := by
      rw [Bool.or_eq_true, Bool.or_eq_true, beq_iff_eq, beq_iff_eq, beq_iff_eq] at opens
      rcases opens with (rfl | rfl) | rfl <;> rfl
    simp [notComma]
  · split
    · rename_i closes
      have notComma : (c == ',') = false := by
        rw [Bool.or_eq_true, Bool.or_eq_true, beq_iff_eq, beq_iff_eq, beq_iff_eq] at closes
        rcases closes with (rfl | rfl) | rfl <;> rfl
      simp [notComma, Int.sub_eq_add_neg]
    · rw [Int.add_zero]

theorem splitSelectorsFrom_texts
    (before : List Char)
    (start : Nat)
    (reversed : List Char)
    (index : Nat)
    (cs : List Char) :
    (splitSelectorsFrom (signCount before) start reversed index cs).map Prod.snd =
      trimmedStretches
        ((stretchesFrom isCountedOut before cs).modifyHead (reversed.reverse ++ ·)) := by
  induction cs generalizing before start reversed index with
  | nil => simp [splitSelectorsFrom, stretchesFrom, selectorPart_texts]
  | cons c rest inductionHypothesis =>
    have counted := signCount_append_singleton before c
    rw [splitSelectorsFrom_cons, ← counted, stretchesFrom, isCountedOut]
    split
    · -- The comma counts for nothing, so the count goes on with the depth that it was cut at.
      rename_i cuts
      have isComma : c = ',' := eq_of_beq (Bool.and_eq_true_iff.mp cuts).1
      have same : signCount (before ++ [c]) = signCount before := by
        rw [counted, isComma]
        exact Int.add_zero _
      rw [List.map_append, selectorPart_texts, ← same, inductionHypothesis, List.reverse_nil,
        modifyHead_nil_append, List.modifyHead_cons, List.append_nil, ← trimmedStretches_append,
        List.singleton_append]
    · rw [inductionHypothesis, List.modifyHead_modifyHead, List.reverse_cons]
      have front : ((reversed.reverse ++ [c]) ++ ·) = (reversed.reverse ++ ·) ∘ (c :: ·) :=
        funext fun later => List.append_assoc ..
      rw [front]

/-- A header is split at the commas before which the signs count out. -/
theorem splitSelectors_eq_commaParts (text : List Char) :
    (splitSelectors text).map Prod.snd = commaParts isCountedOut text := by
  have texts := splitSelectorsFrom_texts [] 0 [] 0 text
  rwa [List.reverse_nil, modifyHead_nil_append] at texts

theorem selectorPart_bounds
    {start : Nat}
    {stretch : List Char}
    {part : Nat × List Char}
    (isPart : part ∈ selectorPart start stretch) :
    start ≤ part.1 ∧ part.1 ≤ start + width stretch := by
  unfold selectorPart at isPart
  simp only at isPart
  split at isPart
  · cases isPart
  · have whole := congrArg width (takeWhile_append_trimStart stretch)
    rw [width_append] at whole
    rw [List.mem_singleton.mp isPart]
    simp only
    omega

/-- A stretch is one part at most. -/
theorem selectorPart_pairwise
    (R : Nat × List Char → Nat × List Char → Prop)
    (start : Nat)
    (stretch : List Char) :
    (selectorPart start stretch).Pairwise R := by
  unfold selectorPart
  simp only
  split
  · exact .nil
  · exact List.pairwise_singleton ..

/-- The parts of a header are in order. -/
theorem splitSelectorsFrom_ordered
    (depth : Int)
    {start index : Nat}
    {reversed : List Char}
    (stands : start + width reversed.reverse = index)
    (cs : List Char) :
    (∀ part ∈ splitSelectorsFrom depth start reversed index cs, start ≤ part.1) ∧
      (splitSelectorsFrom depth start reversed index cs).Pairwise (·.1 < ·.1) := by
  induction cs generalizing depth start reversed index with
  | nil => exact ⟨fun part isPart => (selectorPart_bounds isPart).1, selectorPart_pairwise ..⟩
  | cons c rest inductionHypothesis =>
    have positive := c.utf8Size_pos
    rw [splitSelectorsFrom_cons]
    split
    · have restarts : index + c.utf8Size + width ([] : List Char).reverse = index + c.utf8Size := rfl
      obtain ⟨bounds, ordered⟩ := inductionHypothesis depth restarts
      refine ⟨fun part isPart => ?_,
        List.pairwise_append.mpr ⟨selectorPart_pairwise .., ordered, ?_⟩⟩
      · rcases List.mem_append.mp isPart with isHere | isLater
        · exact (selectorPart_bounds isHere).1
        · have bound := bounds part isLater
          omega
      · intro part isHere other isLater
        have ends := (selectorPart_bounds isHere).2
        have starts := bounds other isLater
        omega
    · refine inductionHypothesis _ ?_
      rw [List.reverse_cons, width_append, ← Nat.add_assoc, stands]
      rfl

theorem splitSelectors_ordered (text : List Char) :
    (splitSelectors text).Pairwise (·.1 < ·.1) := by
  have atStart : 0 + width ([] : List Char).reverse = 0 := rfl
  exact (splitSelectorsFrom_ordered 0 atStart text).2

/-- No part of a list is empty. -/
theorem ne_nil_of_mem_commaParts
    {cuts : List Char → Bool}
    {text part : List Char}
    (isPart : part ∈ commaParts cuts text) :
    part ≠ [] := by
  have nonempty := (List.mem_filter.mp isPart).2
  simpa using nonempty

/-! ## Where counting is right -/

/-- At every comma of the text the signs count out exactly when nothing is open. -/
def CountsOpen (text : List Char) : Prop :=
  ∀ before after, text = before ++ ',' :: after → isCountedOut before = isTopLevel before

/-- A bracket in quotes is counted. -/
example : isCountedOut "a[b='(']".toList = false ∧ isTopLevel "a[b='(']".toList = true := by decide

/-- Where counting is right, a header is split at the commas outside brackets and quotes. -/
theorem CountsOpen.commaParts_eq
    {text : List Char}
    (counts : CountsOpen text) :
    commaParts isCountedOut text = commaParts isTopLevel text :=
  congrArg trimmedStretches (stretchesFrom_congr counts)

theorem signCount_of_unquoted
    {text : List Char}
    (unquoted : ∀ c ∈ text, ¬IsQuote c) :
    signCount text = bracketDepth.go true none text := by
  induction text with
  | nil => rfl
  | cons c rest inductionHypothesis =>
    obtain ⟨here, later⟩ := List.forall_mem_cons.mp unquoted
    rw [bracketDepth_cons, nextQuote, if_neg here, ← inductionHypothesis later]
    rfl

/-- Counting is right in a text without quotes whose brackets match. -/
theorem CountsOpen.of_unquoted
    {text brackets : List Char}
    (unquoted : ∀ c ∈ text, ¬IsQuote c)
    (matching : openBrackets? none [] text = some brackets) :
    CountsOpen text := by
  rintro before after rfl
  have unquotedHere : ∀ c ∈ before, ¬IsQuote c := fun c isIn =>
    unquoted c (List.mem_append_left _ isIn)
  rw [openBrackets?_append] at matching
  obtain ⟨opened, here, _⟩ := Option.bind_eq_some_iff.mp matching
  have counted := bracketDepth_eq_openCount true here
  have all : openCount true opened = opened.length := by simp [openCount]
  have nothing : openCount true [] = 0 := rfl
  rw [← signCount_of_unquoted unquotedHere, all, nothing, Int.sub_zero] at counted
  have noQuote : openQuote none before = none := openQuote_of_plain (by simp) unquotedHere
  rw [isCountedOut, isTopLevel, Bool.eq_iff_iff, beq_iff_eq, decide_eq_true_eq, counted]
  constructor
  · intro none
    have noBracket : opened = [] := List.eq_nil_of_length_eq_zero (by omega)
    exact ⟨noQuote, noBracket ▸ here⟩
  · intro leaves
    rw [leaves.opened] at here
    cases here
    rfl

/-! ## Lists over several lines -/

namespace Leaves

variable {lead text brackets : List Char}

/-- A text that leaves nothing open does not show in what stands after it. -/
theorem append_iff (balanced : Leaves lead []) :
    Leaves (lead ++ text) brackets ↔ Leaves text brackets := by
  refine ⟨fun leaves => ⟨?_, ?_⟩, append_of_balanced balanced⟩
  · have unquoted := leaves.unquoted
    rwa [openQuote_append, balanced.unquoted] at unquoted
  · have opened := leaves.opened
    rw [openBrackets?_append, balanced.opened, balanced.unquoted] at opened
    exact opened

/-- What leaves nothing open with a comma at its end does so without it. -/
theorem of_append_comma (leaves : Leaves (text ++ [',']) []) : Leaves text [] := by
  obtain ⟨middle, here, later⟩ := leaves.of_append (by simp)
  cases later
  exact here

end Leaves

theorem stretchesFrom_isTopLevel
    {lead : List Char}
    (balanced : Leaves lead [])
    (text : List Char) :
    stretchesFrom isTopLevel lead text = stretchesFrom isTopLevel [] text := by
  refine stretchesFrom_congr fun left right _ => ?_
  rw [List.nil_append, isTopLevel, isTopLevel]
  exact decide_eq_decide.mpr balanced.append_iff

/-- A line that ends in a comma outside brackets is a list of its own. -/
theorem commaParts_isTopLevel_line
    {line : List Char}
    (balanced : Leaves line [])
    (isLast : line.getLast? = some ',')
    (following : List Char) :
    commaParts isTopLevel (line ++ '\n' :: following) =
      commaParts isTopLevel line ++ commaParts isTopLevel following := by
  obtain ⟨before, rfl⟩ := List.getLast?_eq_some_iff.mp isLast
  have isCut : isTopLevel ([] ++ before) = true := decide_eq_true balanced.of_append_comma
  -- The break after the comma is a blank before the first part of what follows.
  have breaks : Leaves ['\n'] [] := by decide
  have next : stretchesFrom isTopLevel (before ++ [',']) ('\n' :: following) =
      (stretchesFrom isTopLevel [] following).modifyHead ('\n' :: ·) := by
    rw [stretchesFrom_isTopLevel balanced, stretchesFrom, List.nil_append,
      stretchesFrom_isTopLevel breaks]
    rfl
  have ends : commaParts isTopLevel (before ++ [',']) = commaParts isTopLevel before := by
    rw [commaParts, stretchesFrom_append_comma isCut, trimmedStretches_append]
    exact List.append_nil _
  rw [ends, List.append_assoc, List.singleton_append, commaParts, stretchesFrom_append_comma isCut,
    List.nil_append, next, trimmedStretches_append, trimmedStretches_modifyHead (by decide)]
  rfl

/-- A list over several lines that leave nothing open, all but the last of which end in a comma, has
the parts of its lines. -/
theorem commaParts_isTopLevel_intercalate
    {lines : List (List Char)}
    (balanced : ∀ line ∈ lines, Leaves line [])
    (commaEnds : ∀ line ∈ lines.dropLast, line.getLast? = some ',') :
    commaParts isTopLevel (['\n'].intercalate lines) = lines.flatMap (commaParts isTopLevel) := by
  induction lines with
  | nil => rfl
  | cons line rest inductionHypothesis =>
    obtain ⟨here, later⟩ := List.forall_mem_cons.mp balanced
    cases rest with
    | nil => simp [List.intercalate]
    | cons next others =>
      rw [List.dropLast_cons_cons] at commaEnds
      obtain ⟨endsHere, endLater⟩ := List.forall_mem_cons.mp commaEnds
      have joined : ['\n'].intercalate (line :: next :: others) =
          line ++ '\n' :: ['\n'].intercalate (next :: others) := by
        simp [List.intercalate]
      rw [joined, commaParts_isTopLevel_line here endsHere, inductionHypothesis later endLater]
      rfl

end StyleSense
