import StyleSense.Line.Basic
import StyleSense.Proofs.Text.Part
import StyleSense.Proofs.Token.Spelling

/-!
Contract: where the tokens of a fragment and the faults in it stand.

Owns:
- `SourcePos.Before`, the order of places, and `Fragment.Before`, fragments of which the first ends
  before the second starts;
- `Fragment.Shows`, a place at which a character of the fragment stands that is no blank, and
  `Fragment.ShowsToken`, a token that starts there; a bracket or a comma is the character;
- `tokenize_spreads`: tokens stand at such places in increasing order, and so does a fault;
- the same for the fragments of a logical line.

Does not own: where a fragment stands in the text (`StyleSense.Proofs.Line.Place`).
-/

namespace StyleSense

open Text

/-- The first place comes before the second: on an earlier line, or earlier on the same one. -/
def SourcePos.Before (left right : SourcePos) : Prop :=
  left.line < right.line ∨ left.line = right.line ∧ left.column < right.column

/-- A bracket or a comma. -/
def Token.Kind.isPunctuation : Token.Kind → Bool
  | .opening _ => true
  | .closing _ => true
  | .comma => true
  | _ => false

namespace Fragment

/-- The first fragment ends before the second one starts. -/
def Before (left right : Fragment) : Prop :=
  left.line < right.line ∨
    left.line = right.line ∧ left.offset + width left.text ≤ right.offset

/-- A character of the fragment that is no blank stands at the place. -/
def Shows (fragment : Fragment) (pos : SourcePos) : Prop :=
  ∃ before c after, fragment.text = before ++ c :: after ∧ isBlank c = false ∧
    pos = ⟨fragment.line, fragment.offset + width before + 1⟩

theorem Shows.bounds
    {fragment : Fragment}
    {pos : SourcePos}
    (shows : fragment.Shows pos) :
    pos.line = fragment.line ∧ fragment.offset < pos.column ∧
      pos.column ≤ fragment.offset + width fragment.text := by
  obtain ⟨before, c, after, whole, _, rfl⟩ := shows
  have positive := c.utf8Size_pos
  rw [whole, width_append, width_cons]
  refine ⟨rfl, ?_, ?_⟩ <;> simp only <;> omega

/-- What a part of a fragment shows, the fragment shows. -/
theorem Shows.of_part
    {text inside : List Char}
    {line offset innerOffset : Nat}
    (isPart : StandsAt inside innerOffset text)
    {pos : SourcePos}
    (shows : Shows ⟨line, offset + innerOffset, inside⟩ pos) :
    Shows ⟨line, offset, text⟩ pos := by
  obtain ⟨outer, rest, split, rfl⟩ := isPart
  obtain ⟨before, c, after, whole, solid, rfl⟩ := shows
  simp only at whole
  refine ⟨outer ++ before, c, after ++ rest, ?_, solid, ?_⟩
  · simp only [split, whole, List.append_assoc, List.cons_append]
  · simp only [width_append, Nat.add_assoc]

/-- A token starts in the fragment, at a character that is no blank. A bracket or a comma is what this
character is. -/
def ShowsToken (fragment : Fragment) (token : Token) : Prop :=
  ∃ before c after, fragment.text = before ++ c :: after ∧ isBlank c = false ∧
    token.pos = ⟨fragment.line, fragment.offset + width before + 1⟩ ∧
      (token.kind.isPunctuation = true → Token.punctuation? c = some token.kind)

theorem ShowsToken.shows
    {fragment : Fragment}
    {token : Token}
    (showsToken : fragment.ShowsToken token) :
    fragment.Shows token.pos := by
  obtain ⟨before, c, after, whole, solid, place, _⟩ := showsToken
  exact ⟨before, c, after, whole, solid, place⟩

/-- A token that starts in a part of a fragment starts in the fragment. -/
theorem ShowsToken.of_part
    {text inside : List Char}
    {line offset innerOffset : Nat}
    (isPart : StandsAt inside innerOffset text)
    {token : Token}
    (showsToken : ShowsToken ⟨line, offset + innerOffset, inside⟩ token) :
    ShowsToken ⟨line, offset, text⟩ token := by
  obtain ⟨outer, rest, split, rfl⟩ := isPart
  obtain ⟨before, c, after, whole, solid, place, mark⟩ := showsToken
  simp only at whole place
  refine ⟨outer ++ before, c, after ++ rest, ?_, solid, ?_, mark⟩
  · simp only [split, whole, List.append_assoc, List.cons_append]
  · rw [place]
    simp only [width_append, Nat.add_assoc]

/-- What the first of two fragments shows comes before what the second one shows. -/
theorem Before.shows
    {left right : Fragment}
    (before : left.Before right)
    {pos pos' : SourcePos}
    (shows : left.Shows pos)
    (shows' : right.Shows pos') :
    pos.Before pos' := by
  have bounds := shows.bounds
  have bounds' := shows'.bounds
  rcases before with earlier | ⟨same, ends⟩
  · exact .inl (by omega)
  · exact .inr ⟨by omega, by omega⟩

end Fragment

/-! ## Faults of the lexer -/

namespace Token

theorem skipGap_fault
    {spaced : Bool}
    {cs comment : List Char}
    (failed : skipGap spaced cs = .error comment) :
    ∃ gap rest, cs = gap ++ '/' :: rest ∧ comment = '/' :: rest := by
  fun_induction skipGap spaced cs with
  | case1 => cases failed
  | case2 _ c cs _ inductionHypothesis =>
    obtain ⟨gap, rest, split, isComment⟩ := inductionHypothesis failed
    exact ⟨c :: gap, rest, by rw [split, List.cons_append], isComment⟩
  | case3 _ c cs _ _ after closed inductionHypothesis =>
    obtain ⟨gap, rest, split, isComment⟩ := inductionHypothesis failed
    obtain ⟨inside, whole⟩ := afterComment?_suffix closed
    refine ⟨c :: (inside ++ gap), rest, ?_, isComment⟩
    rw [← whole, split, List.cons_append, List.append_assoc]
  | case4 _ c cs _ isOpening =>
    simp only [Bool.and_eq_true, beq_iff_eq] at isOpening
    obtain ⟨rfl, _⟩ := isOpening
    cases failed
    exact ⟨[], cs, rfl, rfl⟩
  | case5 => cases failed

/-- The place of a fault in a token: where the token starts, or at the parenthesis of `url(`. -/
theorem lexeme_fault
    {c : Char}
    (solid : isBlank c = false)
    {cs : List Char}
    {fault : Fault}
    {distance : Nat}
    (failed : lexeme c cs = .error (fault, distance)) :
    ∃ before d after, c :: cs = before ++ d :: after ∧ isBlank d = false ∧
      width before = distance := by
  have atStart : distance = 0 →
      ∃ before d after, c :: cs = before ++ d :: after ∧ isBlank d = false ∧
        width before = distance := by
    rintro rfl
    exact ⟨[], c, cs, rfl, solid, rfl⟩
  unfold lexeme at failed
  split at failed
  · cases failed
  · simp only at failed
    repeat' split at failed
    · unfold takeString at failed
      split at failed <;> cases failed
      exact atStart rfl
    · cases failed
    · cases failed
    · cases failed
    · cases failed
    · simp only [takeNumber] at failed
      split at failed <;> cases failed
      exact atStart rfl
    · simp only [takeNumber] at failed
      split at failed <;> cases failed
      exact atStart rfl
    · unfold takeWord at failed
      split at failed
      · rename_i isUrl
        split at failed
        · rename_i inside split
          unfold takeUrl at failed
          split at failed <;> cases failed
          refine ⟨['u', 'r', 'l'], '(', inside, ?_, by decide, rfl⟩
          rw [← isUrl, ← split, List.cons_append, List.takeWhile_append_dropWhile]
        · cases failed
      · cases failed
    · unfold takeOperator at failed
      split at failed <;> cases failed
      exact atStart rfl

/-- A bracket or a comma is a token by itself. -/
theorem punctuation?_of_lexeme
    {c : Char}
    {cs rest : List Char}
    {kind : Kind}
    (taken : lexeme c cs = .ok (kind, rest))
    (isMark : kind.isPunctuation = true) :
    punctuation? c = some kind := by
  cases lexeme_takes taken with
  | mark same => exact same
  | _ => cases isMark

end Token

/-! ## Tokens -/

/-- What is read from a fragment after byte `start` stands in it: each token at a character that is
no blank and after the token before it, or the fault at such a character. -/
def Fragment.Spreads
    (fragment : Fragment)
    (start : Nat)
    (result : Except ParseError (List Token)) : Prop :=
  match result with
  | .error error => fragment.Shows error.pos
  | .ok tokens =>
    (∀ token ∈ tokens, fragment.ShowsToken token ∧ fragment.offset + start < token.pos.column) ∧
      tokens.Pairwise fun left right => left.pos.Before right.pos

theorem tokenizeFrom_spreads
    {text : List Char}
    (line offset : Nat)
    {consumed cs : List Char}
    (split : text = consumed ++ cs) :
    Fragment.Spreads ⟨line, offset, text⟩ (width consumed)
      (tokenizeFrom line offset (width text) cs) := by
  rw [tokenizeFrom]
  split
  · rename_i comment failed
    obtain ⟨gap, rest, gapSplit, rfl⟩ := Token.skipGap_fault failed
    have whole : text = (consumed ++ gap) ++ '/' :: rest := by
      rw [split, gapSplit, List.append_assoc]
    have start : width text - width ('/' :: rest) = width (consumed ++ gap) := by
      rw [whole, width_append, Nat.add_sub_cancel]
    simp only [start]
    exact ⟨_, _, _, whole, by decide, rfl⟩
  · exact ⟨(fun token isIn => absurd isIn List.not_mem_nil), .nil⟩
  · rename_i c following spaced passed
    obtain ⟨gap, gapSplit⟩ := Token.skipGap_suffix passed
    have solid := Token.skipGap_head passed
    have tokenSplit : text = (consumed ++ gap) ++ c :: following := by
      rw [split, ← gapSplit, List.append_assoc]
    have start : width text - width (c :: following) = width (consumed ++ gap) := by
      rw [tokenSplit, width_append, Nat.add_sub_cancel]
    simp only [start]
    split
    · rename_i fault distance failed
      obtain ⟨before, d, after, inner, isSolid, rfl⟩ := Token.lexeme_fault solid failed
      refine ⟨consumed ++ gap ++ before, d, after, ?_, isSolid, ?_⟩
      · rw [tokenSplit, inner, List.append_assoc _ before]
      · simp only [width_append, SourcePos.mk.injEq, true_and]
        omega
    · rename_i kind rest taken
      obtain ⟨spelled, restSplit⟩ := (Token.lexeme_shows solid taken).isEnd
      have fewer := Token.rest_length_lt passed taken
      have spelledWidth : 0 < width spelled := by
        cases spelled with
        | nil =>
          have := Token.lexeme_length_le taken
          have lengths := congrArg List.length restSplit
          simp only [List.nil_append, List.length_cons] at lengths
          omega
        | cons d others =>
          have := d.utf8Size_pos
          rw [width_cons]
          omega
      have remaining : text = (consumed ++ gap ++ spelled) ++ rest := by
        rw [tokenSplit, ← restSplit, List.append_assoc _ spelled]
      have more := tokenizeFrom_spreads line offset remaining
      generalize tokenizeFrom line offset (width text) rest = result at more ⊢
      cases result with
      | error error => exact more
      | ok tokens =>
        obtain ⟨others, ordered⟩ := more
        have here : Fragment.ShowsToken ⟨line, offset, text⟩
            ⟨kind, ⟨line, offset + width (consumed ++ gap) + 1⟩, spaced⟩ :=
          ⟨_, _, _, tokenSplit, solid, rfl, Token.punctuation?_of_lexeme taken⟩
        simp only [width_append] at others here ⊢
        constructor
        · intro token isIn
          rcases List.mem_cons.mp isIn with rfl | isLater
          · exact ⟨here, by simp only; omega⟩
          · obtain ⟨shows, later⟩ := others token isLater
            exact ⟨shows, by simp only; omega⟩
        · refine .cons (fun token isLater => ?_) ordered
          obtain ⟨shows, later⟩ := others token isLater
          exact .inr ⟨shows.shows.bounds.1.symm, by simp only; omega⟩
termination_by cs.length

theorem tokenize_spreads
    (text : List Char)
    (line offset : Nat) :
    Fragment.Spreads ⟨line, offset, text⟩ 0 (tokenize text line offset) :=
  tokenizeFrom_spreads line offset (List.nil_append text).symm

theorem tokenize_fault
    {text : List Char}
    {line offset : Nat}
    {error : ParseError}
    (failed : tokenize text line offset = .error error) :
    Fragment.Shows ⟨line, offset, text⟩ error.pos := by
  have spreads := tokenize_spreads text line offset
  rw [failed] at spreads
  exact spreads

theorem tokenize_shows
    {text : List Char}
    {line offset : Nat}
    {tokens : List Token}
    (read : tokenize text line offset = .ok tokens) :
    ∀ token ∈ tokens, Fragment.ShowsToken ⟨line, offset, text⟩ token := by
  have spreads := tokenize_spreads text line offset
  rw [read] at spreads
  exact fun token isIn => (spreads.1 token isIn).1

theorem tokenize_increasing
    {text : List Char}
    {line offset : Nat}
    {tokens : List Token}
    (read : tokenize text line offset = .ok tokens) :
    tokens.Pairwise fun left right => left.pos.Before right.pos := by
  have spreads := tokenize_spreads text line offset
  rw [read] at spreads
  exact spreads.2

/-! ## Logical lines -/

namespace Line

/-- A character of the line that is no blank stands at the place. -/
def Shows (line : Line) (pos : SourcePos) : Prop :=
  ∃ fragment ∈ line.fragments, fragment.Shows pos

/-- A token starts in the line. -/
def ShowsToken (line : Line) (token : Token) : Prop :=
  ∃ fragment ∈ line.fragments, fragment.ShowsToken token

theorem ShowsToken.shows
    {line : Line}
    {token : Token}
    (showsToken : line.ShowsToken token) :
    line.Shows token.pos := by
  obtain ⟨fragment, isIn, shows⟩ := showsToken
  exact ⟨fragment, isIn, shows.shows⟩

theorem fragmentTokens_fault
    {fragments : List Fragment}
    {error : ParseError}
    (failed : fragmentTokens fragments = .error error) :
    ∃ fragment ∈ fragments, fragment.Shows error.pos := by
  induction fragments with
  | nil => cases failed
  | cons fragment rest inductionHypothesis =>
    rw [fragmentTokens] at failed
    split at failed
    · rename_i here
      cases failed
      exact ⟨fragment, List.mem_cons_self .., tokenize_fault here⟩
    · split at failed
      · rename_i later
        cases failed
        obtain ⟨other, isIn, shows⟩ := inductionHypothesis later
        exact ⟨other, List.mem_cons_of_mem _ isIn, shows⟩
      · cases failed

theorem fragmentTokens_shows
    {fragments : List Fragment}
    {tokens : List Token}
    (read : fragmentTokens fragments = .ok tokens) :
    ∀ token ∈ tokens, ∃ fragment ∈ fragments, fragment.ShowsToken token := by
  induction fragments generalizing tokens with
  | nil =>
    cases read
    exact fun token isIn => nomatch isIn
  | cons fragment rest inductionHypothesis =>
    obtain ⟨_, _, here, later, rfl⟩ := fragmentTokens_ok read
    intro token isIn
    rcases List.mem_append.mp isIn with isHere | isLater
    · exact ⟨fragment, List.mem_cons_self .., tokenize_shows here token isHere⟩
    · obtain ⟨other, isOther, shows⟩ := inductionHypothesis later token isLater
      exact ⟨other, List.mem_cons_of_mem _ isOther, shows⟩

/-- The tokens of fragments in order are in order. -/
theorem fragmentTokens_increasing
    {fragments : List Fragment}
    (ordered : fragments.Pairwise Fragment.Before)
    {tokens : List Token}
    (read : fragmentTokens fragments = .ok tokens) :
    tokens.Pairwise fun left right => left.pos.Before right.pos := by
  induction fragments generalizing tokens with
  | nil =>
    cases read
    exact .nil
  | cons fragment rest inductionHypothesis =>
    obtain ⟨before, restOrdered⟩ := List.pairwise_cons.mp ordered
    obtain ⟨_, _, here, later, rfl⟩ := fragmentTokens_ok read
    refine List.pairwise_append.mpr
      ⟨tokenize_increasing here, inductionHypothesis restOrdered later, ?_⟩
    intro token isHere token' isLater
    obtain ⟨other, isOther, shows⟩ := fragmentTokens_shows later token' isLater
    exact (before other isOther).shows (tokenize_shows here token isHere).shows shows.shows

variable {line : Line} {value : List Char} (isEnd : value <:+ line.head.text)

include isEnd

theorem tokensOf_fault
    {error : ParseError}
    (failed : line.tokensOf value = .error error) :
    line.Shows error.pos := by
  obtain ⟨fragment, isFragment, shows⟩ := fragmentTokens_fault failed
  rcases List.mem_cons.mp isFragment with rfl | isLater
  · exact ⟨line.head, List.mem_cons_self .., shows.of_part (.of_suffix isEnd)⟩
  · exact ⟨fragment, List.mem_cons_of_mem _ isLater, shows⟩

theorem tokensOf_shows
    {tokens : List Token}
    (read : line.tokensOf value = .ok tokens) :
    ∀ token ∈ tokens, line.ShowsToken token := by
  intro token isIn
  obtain ⟨fragment, isFragment, shows⟩ := fragmentTokens_shows read token isIn
  rcases List.mem_cons.mp isFragment with rfl | isLater
  · exact ⟨line.head, List.mem_cons_self .., shows.of_part (.of_suffix isEnd)⟩
  · exact ⟨fragment, List.mem_cons_of_mem _ isLater, shows⟩

theorem tokensOf_increasing
    (ordered : line.fragments.Pairwise Fragment.Before)
    {tokens : List Token}
    (read : line.tokensOf value = .ok tokens) :
    tokens.Pairwise fun left right => left.pos.Before right.pos := by
  apply fragmentTokens_increasing _ read
  obtain ⟨before, tailOrdered⟩ := List.pairwise_cons.mp ordered
  refine .cons (fun fragment isIn => ?_) tailOrdered
  have narrower := width_le_of_suffix isEnd
  rcases before fragment isIn with earlier | ⟨same, ends⟩
  · exact .inl earlier
  · exact .inr ⟨same, by simp only; omega⟩

end Line

end StyleSense
