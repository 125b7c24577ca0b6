import StyleSense.Line.Basic
import StyleSense.Proofs.Node.Matching
import StyleSense.Proofs.Text.Trimming
import StyleSense.Proofs.Token.Taking

/-!
Contract: what a token takes off a text.

Owns:
- `Token.lexeme_shows`: what a token leaves is an end of the text, and a name, a hash or a `url()`
  stands where the text starts with it, in one piece without blanks;
- what `tokenizeFrom` gives for each way in which its first gap and its first token can go, and
  `Tokenizes`, the tokens that it gives in the end.

Does not own: the places of tokens (`StyleSense.Proofs.Token.Stretch`).
-/

namespace StyleSense.Token

open Text

theorem afterComment?_suffix
    {cs rest : List Char}
    (closed : afterComment? cs = some rest) :
    rest <:+ cs := by
  fun_induction afterComment? cs with
  | case1 => simp at closed
  | case2 after =>
    cases closed
    exact ⟨['*', '/'], rfl⟩
  | case3 c cs _ inductionHypothesis =>
    exact (inductionHypothesis closed).trans (List.suffix_cons c cs)

theorem skipGap_nil (spaced : Bool) : skipGap spaced [] = .ok ([], spaced) := by
  rw [skipGap.eq_def]

/-- One step over a gap. -/
theorem skipGap_cons
    (spaced : Bool)
    (c : Char)
    (cs : List Char) :
    skipGap spaced (c :: cs) =
      if isBlank c then skipGap true cs
      else if c == '/' && cs.head? == some '*' then
        match _closed : afterComment? cs with
        | some rest => skipGap true rest
        | none => .error (c :: cs)
      else .ok (c :: cs, spaced) :=
  (skipGap.eq_def spaced (c :: cs)).trans rfl

theorem skipGap_suffix
    {spaced spacedAfter : Bool}
    {cs rest : List Char}
    (passed : skipGap spaced cs = .ok (rest, spacedAfter)) :
    rest <:+ cs := by
  fun_induction skipGap spaced cs with
  | case1 => simp_all
  | case2 _ c cs _ inductionHypothesis =>
    exact (inductionHypothesis passed).trans (List.suffix_cons c cs)
  | case3 _ c cs _ _ after closed inductionHypothesis =>
    exact ((inductionHypothesis passed).trans (afterComment?_suffix closed)).trans
      (List.suffix_cons c cs)
  | case4 => simp at passed
  | case5 => simp_all

theorem stringBody?_suffix
    {quote : Char}
    {cs value rest : List Char}
    (closed : stringBody? quote cs = some (value, rest)) :
    rest <:+ cs := by
  fun_induction stringBody? quote cs generalizing value with
  | case1 => simp at closed
  | case2 => simp at closed
  | case3 c following inductionHypothesis =>
    simp only [Option.map_eq_some_iff, Prod.mk.injEq, Prod.exists] at closed
    obtain ⟨_, _, inner, _, rfl⟩ := closed
    exact (inductionHypothesis inner).trans ⟨['\\', c], rfl⟩
  | case4 following =>
    cases closed
    exact List.suffix_cons _ _
  | case5 c following _ _ _ inductionHypothesis =>
    simp only [Option.map_eq_some_iff, Prod.mk.injEq, Prod.exists] at closed
    obtain ⟨_, _, inner, _, rfl⟩ := closed
    exact (inductionHypothesis inner).trans (List.suffix_cons c following)

theorem numeral_suffix
    (lead : Char)
    (cs : List Char) :
    (numeral lead cs).2 <:+ cs := by
  have whole := List.dropWhile_suffix Char.isDigit (l := cs)
  unfold numeral
  split
  · rename_i d rest split
    rw [split] at whole
    split
    · exact (List.dropWhile_suffix Char.isDigit).trans
        ((List.suffix_append ['.', d] rest).trans whole)
    · exact whole
  · exact whole

theorem suffix_suffix (cs : List Char) : (suffix cs).2 <:+ cs := by
  unfold suffix
  split
  · exact List.suffix_cons _ _
  · split
    · exact List.dropWhile_suffix _
    · exact List.suffix_refl _
  · exact List.suffix_refl _

theorem skipGap_head
    {spaced spacedAfter : Bool}
    {cs rest : List Char}
    {c : Char}
    (passed : skipGap spaced cs = .ok (c :: rest, spacedAfter)) :
    isBlank c = false := by
  fun_induction skipGap spaced cs with
  | case1 => simp at passed
  | case2 _ _ _ _ inductionHypothesis => exact inductionHypothesis passed
  | case3 _ _ _ _ _ _ _ inductionHypothesis => exact inductionHypothesis passed
  | case4 => simp at passed
  | case5 _ _ _ notBlank =>
    cases passed
    simpa using notBlank

theorem isNameChar_of_isBlank
    {c : Char}
    (blank : isBlank c = true) :
    isNameChar c = false := by
  have notSpelled := isAlphanumeric_of_isBlank blank
  have notSign : c ≠ '_' ∧ c ≠ '-' ∧ c ≠ '$' := by
    refine ⟨?_, ?_, ?_⟩ <;> rintro rfl <;> simp [isBlank] at blank
  simp [isNameChar, notSpelled, notSign]

/-- Name characters after a character that is no blank make up a text without blanks. -/
theorem solid_name
    {lead : Char}
    (solid : isBlank lead = false)
    (cs : List Char) :
    Solid (lead :: cs.takeWhile isNameChar) := by
  refine .cons solid fun c isIn => ?_
  by_contra blank
  have named := List.mem_takeWhile_imp isIn
  rw [isNameChar_of_isBlank (by simpa using blank)] at named
  cases named

/-- What is known of a token that was taken off the text `cs` and left `rest`. -/
structure Shows (kind : Kind) (rest cs : List Char) : Prop where
  isEnd : rest <:+ cs
  isStart : ∀ text ∈ kind.shown?, text.toList <+: cs ∧ Solid text.toList

/-- A name stands at the start of the text that it is taken off. -/
theorem name_shown
    {lead : Char}
    (solid : isBlank lead = false)
    (cs : List Char) :
    ∀ text ∈ some (String.ofList (lead :: cs.takeWhile isNameChar)),
      text.toList <+: lead :: cs ∧ Solid text.toList := by
  rintro _ ⟨⟩
  rw [String.toList_ofList]
  exact ⟨List.cons_prefix_cons.mpr ⟨rfl, List.takeWhile_prefix _⟩, solid_name solid cs⟩

/-- A token leaves an end of the text, and the text starts with what the token shows. -/
theorem lexeme_shows
    {c : Char}
    (solid : isBlank c = false)
    {cs rest : List Char}
    {kind : Kind}
    (taken : lexeme c cs = .ok (kind, rest)) :
    Shows kind rest (c :: cs) := by
  have nameEnd : cs.dropWhile isNameChar <:+ c :: cs :=
    (List.dropWhile_suffix _).trans (List.suffix_cons _ _)
  cases lexeme_takes taken with
  | mark isMark =>
    refine ⟨List.suffix_cons c cs, ?_⟩
    unfold punctuation? at isMark
    split at isMark <;> cases isMark <;> simp [Kind.shown?]
  | string _ closed =>
    exact ⟨(stringBody?_suffix closed).trans (List.suffix_cons _ _), by simp [Kind.shown?]⟩
  | hash isHash =>
    subst isHash
    exact ⟨nameEnd, name_shown solid cs⟩
  | name => exact ⟨nameEnd, name_shown solid cs⟩
  | number =>
    exact ⟨((suffix_suffix _).trans (numeral_suffix c cs)).trans (List.suffix_cons _ _),
      by simp [Kind.shown?]⟩
  | @url inside _ whole =>
    refine ⟨⟨['u', 'r', 'l', '('] ++ inside ++ [')'], by simp [whole]⟩, ?_⟩
    rintro _ ⟨⟩
    exact ⟨⟨['('] ++ inside ++ ')' :: rest, by simp [whole]⟩, by simp [Solid, isBlank]⟩
  | operator whole => exact ⟨⟨_, whole.symm⟩, by simp [Kind.shown?]⟩

/-! ## One gap and one token -/

section Step

variable {spaced flag : Bool} {cs following rest : List Char} {c : Char} {kind : Kind}

theorem rest_suffix
    (passed : skipGap spaced cs = .ok (c :: following, flag))
    (taken : lexeme c following = .ok (kind, rest)) :
    rest <:+ cs :=
  (lexeme_shows (skipGap_head passed) taken).isEnd.trans (skipGap_suffix passed)

theorem rest_length_lt
    (passed : skipGap spaced cs = .ok (c :: following, flag))
    (taken : lexeme c following = .ok (kind, rest)) :
    rest.length < cs.length := by
  have passedOver := skipGap_length_le passed
  have takenOff := lexeme_length_le taken
  rw [List.length_cons] at passedOver
  omega

end Step

end StyleSense.Token

namespace StyleSense

open Text

section Tokens

variable {cs following rest : List Char} {c : Char} {spaced : Bool} (line offset total : Nat)

theorem tokenizeFrom_of_nothing (passed : Token.skipGap false cs = .ok ([], spaced)) :
    tokenizeFrom line offset total cs = .ok [] := by
  rw [tokenizeFrom]
  split
  · rename_i failed
    cases passed.symm.trans failed
  · rfl
  · rename_i shown
    cases passed.symm.trans shown

theorem tokenizeFrom_of_fault
    (passed : Token.skipGap false cs = .ok (c :: following, spaced))
    {fault : Fault}
    {distance : Nat}
    (failed : Token.lexeme c following = .error (fault, distance)) :
    tokenizeFrom line offset total cs =
      .error ⟨fault, ⟨line, offset + (total - width (c :: following)) + 1 + distance⟩⟩ := by
  rw [tokenizeFrom]
  split
  · rename_i failed
    cases passed.symm.trans failed
  · rename_i nothing
    cases passed.symm.trans nothing
  · rename_i same
    cases passed.symm.trans same
    split
    · rename_i same
      cases failed.symm.trans same
      rfl
    · rename_i taken
      cases failed.symm.trans taken

theorem tokenizeFrom_of_token
    (passed : Token.skipGap false cs = .ok (c :: following, spaced))
    {kind : Token.Kind}
    (taken : Token.lexeme c following = .ok (kind, rest)) :
    tokenizeFrom line offset total cs = (tokenizeFrom line offset total rest).map
      (⟨kind, ⟨line, offset + (total - width (c :: following)) + 1⟩, spaced⟩ :: ·) := by
  rw [tokenizeFrom]
  split
  · rename_i failed
    cases passed.symm.trans failed
  · rename_i nothing
    cases passed.symm.trans nothing
  · rename_i same
    cases passed.symm.trans same
    split
    · rename_i failed
      cases taken.symm.trans failed
    · rename_i same
      cases taken.symm.trans same
      split <;> rename_i others <;> rw [others] <;> rfl

end Tokens

/-! ## Whole texts -/

/-- A text is read as some tokens, one after the gap before it each; `total` is the width of the
fragment of which the text is an end. -/
inductive Tokenizes (line offset total : Nat) : List Char → List Token → Prop
  | nil {cs : List Char} {spaced : Bool}
      (passed : Token.skipGap false cs = .ok ([], spaced)) :
      Tokenizes line offset total cs []
  | cons {cs following rest : List Char} {c : Char} {spaced : Bool} {kind : Token.Kind}
      {others : List Token}
      (passed : Token.skipGap false cs = .ok (c :: following, spaced))
      (taken : Token.lexeme c following = .ok (kind, rest))
      (later : Tokenizes line offset total rest others) :
      Tokenizes line offset total cs
        (⟨kind, ⟨line, offset + (total - width (c :: following)) + 1⟩, spaced⟩ :: others)

theorem tokenizeFrom_tokenizes
    {line offset total : Nat}
    {cs : List Char}
    {tokens : List Token}
    (read : tokenizeFrom line offset total cs = .ok tokens) :
    Tokenizes line offset total cs tokens := by
  rw [tokenizeFrom] at read
  split at read
  · cases read
  · rename_i passed
    cases read
    exact .nil passed
  · rename_i c following spaced passed
    split at read
    · cases read
    · rename_i kind rest taken
      have fewer := Token.rest_length_lt passed taken
      split at read
      · cases read
      · rename_i others readRest
        cases read
        exact .cons passed taken (tokenizeFrom_tokenizes readRest)
termination_by cs.length

/-- The tokens of some fragments are those of the first one and those of the others. -/
theorem Line.fragmentTokens_ok
    {fragment : Fragment}
    {rest : List Fragment}
    {tokens : List Token}
    (read : Line.fragmentTokens (fragment :: rest) = .ok tokens) :
    ∃ here later, fragment.tokens = .ok here ∧ Line.fragmentTokens rest = .ok later ∧
      tokens = here ++ later := by
  rw [fragmentTokens] at read
  split at read
  · cases read
  · rename_i here readHere
    split at read
    · cases read
    · rename_i later readLater
      cases read
      exact ⟨here, later, readHere, readLater, rfl⟩

end StyleSense
