import StyleSense.Proofs.Expression.Matching
import StyleSense.Proofs.Token.Spelling

/-!
Contract: one text at two places has corresponding tokens.

Owns:
- `Matching.Stretch`, a text that stands at two places of which the matching knows enough;
- `tokenize_matches`: its tokens at the two places correspond, or the errors in them do.

Does not own: texts that are not the same (`StyleSense.Proofs.Token.Literal`).
-/

namespace StyleSense

open Text

variable {M : Matching}

/-- The text stands on `line` from byte `offset` on, and also on `line'` from byte `offset'` on. -/
structure Matching.Stretch
    (M : Matching)
    (text : List Char)
    (line offset line' offset' : Nat) : Prop where
  pos : ∀ distance, M.pos ⟨line, offset + distance⟩ ⟨line', offset' + distance⟩
  word : ∀ before word after, text = before ++ word ++ after → Solid word →
    M.word (String.ofList word) ⟨line, offset + width before + 1⟩
  literal : ∀ before word after, text = before ++ word ++ after → Solid word →
    M.literal (String.ofList word) ⟨line, offset + width before + 1⟩

/-- A part of a stretch is a stretch. -/
theorem Matching.Stretch.part
    {text before inside after : List Char}
    {line offset line' offset' : Nat}
    (stretch : M.Stretch text line offset line' offset')
    (parts : text = before ++ inside ++ after) :
    M.Stretch inside line (offset + width before) line' (offset' + width before) := by
  refine ⟨fun distance => ?_, fun first word last split solid => ?_,
    fun first word last split solid => ?_⟩
  · rw [Nat.add_assoc, Nat.add_assoc]
    exact stretch.pos _
  · have known := stretch.word (before ++ first) word (last ++ after) (by simp [parts, split])
      solid
    rw [width_append, ← Nat.add_assoc] at known
    exact known
  · have known := stretch.literal (before ++ first) word (last ++ after) (by simp [parts, split])
      solid
    rw [width_append, ← Nat.add_assoc] at known
    exact known

/-- The kind of a token that the text shows at its place corresponds to itself. -/
theorem Token.Shows.kind_matches
    {text consumed rest following : List Char}
    {line offset line' offset' : Nat}
    (stretch : M.Stretch text line offset line' offset')
    {kind : Token.Kind}
    (shows : Token.Shows kind rest following)
    (split : text = consumed ++ following) :
    kind.Matches M ⟨line, offset + width consumed + 1⟩ kind := by
  have shown : ∀ shownText ∈ kind.shown?, ∃ after,
      text = consumed ++ shownText.toList ++ after ∧ Solid shownText.toList := by
    intro shownText isShown
    obtain ⟨⟨after, rfl⟩, solid⟩ := shows.isStart shownText isShown
    exact ⟨after, by simp [split], solid⟩
  cases kind with
  | string value => exact M.string_refl value
  | hash hash =>
    obtain ⟨after, parts, solid⟩ := shown hash rfl
    have known := stretch.literal _ _ _ parts solid
    rw [String.ofList_toList] at known
    exact ⟨rfl, known⟩
  | _ =>
    refine ⟨rfl, fun shownText isShown => ?_⟩
    obtain ⟨after, parts, solid⟩ := shown shownText isShown
    have known := stretch.word _ _ _ parts solid
    rw [String.ofList_toList] at known
    exact known

theorem tokenizeFrom_matches
    {text : List Char}
    {line offset line' offset' : Nat}
    (stretch : M.Stretch text line offset line' offset')
    {consumed cs : List Char}
    (split : text = consumed ++ cs) :
    M.Outcome M.Tokens (tokenizeFrom line offset (width text) cs)
      (tokenizeFrom line' offset' (width text) cs) := by
  rw [tokenizeFrom, tokenizeFrom]
  split
  · simp only [Nat.add_assoc]
    exact .error ⟨rfl, stretch.pos _⟩
  · exact .ok .nil
  · rename_i c following spaced passed
    obtain ⟨gap, gapSplit⟩ := Token.skipGap_suffix passed
    have tokenSplit : text = (consumed ++ gap) ++ c :: following := by
      rw [split, ← gapSplit, List.append_assoc]
    have start : width text - width (c :: following) = width (consumed ++ gap) := by
      rw [tokenSplit, width_append, Nat.add_sub_cancel]
    simp only [start]
    split
    · rename_i distance taken
      simp only [Nat.add_assoc]
      exact .error ⟨rfl, stretch.pos _⟩
    · rename_i kind rest taken
      have shows := Token.lexeme_shows (Token.skipGap_head passed) taken
      obtain ⟨spelled, restSplit⟩ := shows.isEnd
      have remaining : text = (consumed ++ gap ++ spelled) ++ rest := by
        rw [tokenSplit, ← restSplit, List.append_assoc _ spelled]
      have fewer := Token.rest_length_lt passed taken
      have more := tokenizeFrom_matches stretch remaining
      generalize tokenizeFrom line offset (width text) rest = left at more ⊢
      generalize tokenizeFrom line' offset' (width text) rest = right at more ⊢
      cases more with
      | error errors => exact .error errors
      | ok others =>
        refine .ok (.cons ⟨shows.kind_matches stretch tokenSplit, ?_, rfl⟩ others)
        simp only [Nat.add_assoc]
        exact stretch.pos _
termination_by cs.length

/-- A text at two places has corresponding tokens. -/
theorem tokenize_matches
    {text : List Char}
    {line offset line' offset' : Nat}
    (stretch : M.Stretch text line offset line' offset') :
    M.Outcome M.Tokens (tokenize text line offset) (tokenize text line' offset') :=
  tokenizeFrom_matches stretch (List.nil_append text).symm

end StyleSense
