import Mathlib.Data.List.Forall2
import StyleSense.Proofs.Token.Following
import StyleSense.Proofs.Token.Numeral

/-!
Contract: the tokens of a text are those of its parts.

Owns:
- `Token.Cut`, a text with the kinds of its tokens and the blanks before them, wherever it stands;
  `tokenizeFrom_cut` and `tokenize_of_cut`, that the lexer finds just these;
- `Token.Cut.append`: a text with a stop after it keeps its tokens, and `Token.Cut.blanks`: blanks
  before a text show at its first token only;
- `Token.Cut.append_brace`: a brace at the end of a text is a token by itself;
- `joinTexts`, texts joined by single blanks, and `Token.Cut.joinTexts`, their tokens.

Does not own: the texts that are joined (`StyleSense.Proofs.Line.Break`).
-/

namespace StyleSense

open Text

/-- The text is cut into tokens of these kinds. The flag says whether a blank stands before the text;
those of the tokens say whether one stands before each. -/
inductive Token.Cut : Bool → List Char → List (Token.Kind × Bool) → Prop where
  | done {spaced flag : Bool} {text : List Char}
      (passed : Token.skipGap spaced text = .ok ([], flag)) :
      Token.Cut spaced text []
  | token {spaced flag : Bool} {text following rest : List Char} {c : Char} {kind : Token.Kind}
      {kinds : List (Token.Kind × Bool)}
      (passed : Token.skipGap spaced text = .ok (c :: following, flag))
      (taken : Token.lexeme c following = .ok (kind, rest))
      (later : Token.Cut false rest kinds) :
      Token.Cut spaced text ((kind, flag) :: kinds)

theorem tokenizeFrom_cut
    {line offset total : Nat}
    {text : List Char}
    {tokens : List Token}
    (read : tokenizeFrom line offset total text = .ok tokens) :
    Token.Cut false text (kindsOf tokens) := by
  have tokenizes := tokenizeFrom_tokenizes read
  clear read
  induction tokenizes with
  | nil passed => exact .done passed
  | cons passed taken _ inductionHypothesis => exact .token passed taken inductionHypothesis

theorem tokenizeFrom_of_cut
    {spaced : Bool}
    {text : List Char}
    {kinds : List (Token.Kind × Bool)}
    (cut : Token.Cut spaced text kinds)
    (unspaced : spaced = false)
    (line offset total : Nat) :
    ∃ tokens, tokenizeFrom line offset total text = .ok tokens ∧ kindsOf tokens = kinds := by
  induction cut with
  | done passed =>
    subst unspaced
    exact ⟨[], tokenizeFrom_of_nothing line offset total passed, rfl⟩
  | @token spaced flag text following rest c kind kinds passed taken later inductionHypothesis =>
    subst unspaced
    obtain ⟨tokens, read, listed⟩ := inductionHypothesis rfl
    let first : Token := ⟨kind, ⟨line, offset + (total - width (c :: following)) + 1⟩, flag⟩
    refine ⟨first :: tokens, ?_, congrArg ((kind, flag) :: ·) listed⟩
    rw [tokenizeFrom_of_token line offset total passed taken, read]
    rfl

theorem tokenize_of_cut
    {text : List Char}
    {kinds : List (Token.Kind × Bool)}
    (cut : Token.Cut false text kinds)
    (line offset : Nat) :
    ∃ tokens, tokenize text line offset = .ok tokens ∧ kindsOf tokens = kinds :=
  tokenizeFrom_of_cut cut rfl line offset (width text)

namespace Token.Cut

/-- The tokens of a text with something after it that stops the last of them. -/
theorem append
    {spaced : Bool}
    {text after : List Char}
    {kinds : List (Kind × Bool)}
    (cut : Cut spaced text kinds)
    (stopping : Stopping after) :
    ∃ flag, ∀ others, Cut flag after others → Cut spaced (text ++ after) (kinds ++ others) := by
  induction cut with
  | @done spaced flag text passed =>
    refine ⟨flag, fun others cutAfter => ?_⟩
    have goesOn := skipGap_append_gap passed after
    cases cutAfter with
    | done passedAfter => exact .done (goesOn.trans passedAfter)
    | token passedAfter taken later => exact .token (goesOn.trans passedAfter) taken later
  | @token spaced flag text following rest c kind kinds passed taken later inductionHypothesis =>
    obtain ⟨flagAfter, joined⟩ := inductionHypothesis
    refine ⟨flagAfter, fun others cutAfter => ?_⟩
    have takenAlone : lexeme c (following ++ []) = .ok (kind, rest ++ []) := by
      rw [List.append_nil, List.append_nil]
      exact taken
    exact .token (skipGap_append_stopping stopping passed)
      (lexeme_append stopping_nil stopping takenAlone) (joined others cutAfter)

end Token.Cut

/-- The kinds of tokens after a blank. -/
def spaceFirst : List (Token.Kind × Bool) → List (Token.Kind × Bool)
  | [] => []
  | (kind, _) :: rest => (kind, true) :: rest

theorem Token.skipGap_true
    {spaced flag : Bool}
    {text rest : List Char}
    (passed : Token.skipGap spaced text = .ok (rest, flag)) :
    Token.skipGap true text = .ok (rest, true) := by
  fun_induction Token.skipGap spaced text with
  | case1 =>
    cases passed
    exact skipGap_nil true
  | case2 spaced c cs blank inductionHypothesis =>
    rw [skipGap_cons, if_pos blank]
    exact inductionHypothesis passed
  | case3 spaced c cs notBlank opens remaining closed inductionHypothesis =>
    have passes : skipGap true (c :: cs ++ []) = skipGap true (remaining ++ []) :=
      skipGap_comment_append notBlank opens closed []
    rw [List.append_nil, List.append_nil] at passes
    exact passes.trans (inductionHypothesis passed)
  | case4 => cases passed
  | case5 spaced c cs notBlank notOpening =>
    cases passed
    rw [skipGap_cons, if_neg notBlank, if_neg notOpening]

/-- A blank before a text shows at its first token only. -/
theorem Token.Cut.blank
    {text : List Char}
    {kinds : List (Token.Kind × Bool)}
    (cut : Token.Cut false text kinds)
    {c : Char}
    (blank : isBlank c = true)
    (spaced : Bool) :
    Token.Cut spaced (c :: text) (spaceFirst kinds) := by
  have goesOn : Token.skipGap spaced (c :: text) = Token.skipGap true text := by
    rw [skipGap_cons, if_pos blank]
  cases cut with
  | done passed => exact .done (goesOn.trans (skipGap_true passed))
  | token passed taken later => exact .token (goesOn.trans (skipGap_true passed)) taken later

/-- Blanks before a text show at its first token only. -/
theorem Token.Cut.blanks
    {text gap : List Char}
    {kinds : List (Token.Kind × Bool)}
    (cut : Token.Cut false text kinds)
    (nonempty : gap ≠ [])
    (blank : AllBlank gap)
    (spaced : Bool) :
    Token.Cut spaced (gap ++ text) (spaceFirst kinds) := by
  induction gap generalizing spaced with
  | nil => exact absurd rfl nonempty
  | cons c rest inductionHypothesis =>
    obtain ⟨blankHere, blankLater⟩ := List.forall_mem_cons.mp blank
    by_cases single : rest = []
    · subst single
      exact cut.blank blankHere spaced
    · have again : spaceFirst (spaceFirst kinds) = spaceFirst kinds := by cases kinds <;> rfl
      exact again ▸ (inductionHypothesis single blankLater false).blank blankHere spaced

/-- Blanks between two texts show at the first token of the second one. -/
theorem Token.Cut.append_blanks
    {spaced : Bool}
    {text gap after : List Char}
    {kinds others : List (Token.Kind × Bool)}
    (cut : Token.Cut spaced text kinds)
    (cutAfter : Token.Cut false after others)
    (nonempty : gap ≠ [])
    (blank : AllBlank gap) :
    Token.Cut spaced (text ++ (gap ++ after)) (kinds ++ spaceFirst others) := by
  have stopping : Stopping (gap ++ after) := by
    obtain ⟨c, rest, rfl⟩ := List.exists_cons_of_ne_nil nonempty
    exact stopping_cons (stops_of_isBlank (blank c (List.mem_cons_self ..))) _
  obtain ⟨flag, joined⟩ := cut.append stopping
  exact joined _ (cutAfter.blanks nonempty blank flag)

/-- A brace at the end of a text is a token by itself. -/
theorem Token.Cut.append_brace
    {spaced : Bool}
    {text gap : List Char}
    {kinds : List (Token.Kind × Bool)}
    (cut : Token.Cut spaced text kinds)
    (blank : AllBlank gap) :
    ∃ flag, Token.Cut spaced (text ++ (gap ++ ['\x7b'])) (kinds ++ [(.opening .curly, flag)]) := by
  have alone : ∀ flag, Token.Cut flag ['\x7b'] [(.opening .curly, flag)] := by
    intro flag
    have passed : Token.skipGap flag ['\x7b'] = .ok (['\x7b'], flag) := by
      rw [skipGap_cons, if_neg (by decide), if_neg (by decide)]
    exact .token passed rfl (.done (skipGap_nil false))
  by_cases nothing : gap = []
  · subst nothing
    obtain ⟨flag, joined⟩ := cut.append (stopping_cons stops_opening_curly [])
    exact ⟨flag, joined _ (alone flag)⟩
  · exact ⟨true, cut.append_blanks (alone false) nothing blank⟩

/-! ## Joined texts -/

/-- Texts joined by single blanks. -/
def joinTexts (texts : List (List Char)) : List Char :=
  [' '].intercalate texts

theorem joinTexts_cons_cons
    (first second : List Char)
    (rest : List (List Char)) :
    joinTexts (first :: second :: rest) = first ++ ' ' :: joinTexts (second :: rest) := by
  rw [joinTexts, joinTexts, List.intercalate_cons_cons, List.append_assoc]
  rfl

/-- The kinds of the tokens of several texts with blanks between them. -/
def joinKinds : List (List (Token.Kind × Bool)) → List (Token.Kind × Bool)
  | [] => []
  | first :: rest => first ++ (rest.map spaceFirst).flatten

theorem spaceFirst_append
    (left : List (Token.Kind × Bool))
    (rest : List (List (Token.Kind × Bool))) :
    spaceFirst (left ++ (rest.map spaceFirst).flatten) =
      spaceFirst left ++ (rest.map spaceFirst).flatten := by
  cases left with
  | cons first others => rfl
  | nil =>
    induction rest with
    | nil => rfl
    | cons kinds rest inductionHypothesis =>
      cases kinds with
      | nil => exact inductionHypothesis
      | cons first others => rfl

/-- Joined texts are cut into the tokens of each, with a blank before the first one of each but the
first text. -/
theorem Token.Cut.joinTexts
    {text : List Char}
    {texts : List (List Char)}
    {kinds : List (Token.Kind × Bool)}
    {others : List (List (Token.Kind × Bool))}
    (cut : Token.Cut false text kinds)
    (cuts : List.Forall₂ (Token.Cut false) texts others) :
    Token.Cut false (joinTexts (text :: texts)) (joinKinds (kinds :: others)) := by
  induction cuts generalizing text kinds with
  | nil =>
    rw [StyleSense.joinTexts, joinKinds]
    simpa using cut
  | cons cutSecond cuts inductionHypothesis =>
    have oneBlank : AllBlank [' '] := by decide
    have joined := cut.append_blanks (inductionHypothesis cutSecond) (List.cons_ne_nil _ _) oneBlank
    rw [joinKinds, spaceFirst_append] at joined
    rw [joinTexts_cons_cons]
    exact joined

end StyleSense
