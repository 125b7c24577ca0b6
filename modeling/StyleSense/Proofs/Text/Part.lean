import StyleSense.Proofs.Text.Trimming

/-!
Contract: parts of a text at their byte offsets.

Owns:
- `StandsAt`, a part that stands in a text from a byte offset on;
- what is cut out of a text at the offset of a part, and the first offset at which a part is found;
- the parts that trimming and cutting off an end leave.

Does not own: which parts of a line are read as statements (`StyleSense.Proofs.Line.Piece`).
-/

namespace StyleSense.Text

/-- `part` stands in `text` from byte `offset` on. -/
def StandsAt (part : List Char) (offset : Nat) (text : List Char) : Prop :=
  ∃ before after, text = before ++ part ++ after ∧ width before = offset

theorem StandsAt.of_eq
    {text before part after : List Char}
    (whole : text = before ++ part ++ after) :
    StandsAt part (width before) text :=
  ⟨before, after, whole, rfl⟩

theorem StandsAt.of_start
    {part text : List Char}
    (isStart : part <+: text) :
    StandsAt part 0 text := by
  obtain ⟨after, whole⟩ := isStart
  exact ⟨[], after, whole.symm, rfl⟩

theorem StandsAt.of_suffix
    {part text : List Char}
    (isEnd : part <:+ text) :
    StandsAt part (width text - width part) text := by
  obtain ⟨before, whole⟩ := isEnd
  refine ⟨before, [], by simp [whole], ?_⟩
  rw [← whole, width_append, Nat.add_sub_cancel]

/-- A part of a part is a part. -/
theorem StandsAt.trans
    {inner part text : List Char}
    {innerOffset offset : Nat}
    (isInner : StandsAt inner innerOffset part)
    (isPart : StandsAt part offset text) :
    StandsAt inner (offset + innerOffset) text := by
  obtain ⟨innerBefore, innerAfter, innerSplit, rfl⟩ := isInner
  obtain ⟨before, after, split, rfl⟩ := isPart
  refine ⟨before ++ innerBefore, innerAfter ++ after, ?_, width_append _ _⟩
  rw [split, innerSplit]
  simp only [List.append_assoc]

theorem StandsAt.subset
    {part text : List Char}
    {offset : Nat}
    (isPart : StandsAt part offset text) :
    part ⊆ text := by
  obtain ⟨before, after, rfl, _⟩ := isPart
  intro c isIn
  exact List.mem_append_left after (List.mem_append_right before isIn)

/-- A part does not go past the end. -/
theorem StandsAt.width_le
    {part text : List Char}
    {offset : Nat}
    (isPart : StandsAt part offset text) :
    offset + width part ≤ width text := by
  obtain ⟨before, after, rfl, rfl⟩ := isPart
  rw [width_append, width_append]
  exact Nat.le_add_right _ _

/-- A part starts at the start of a character or at the end. -/
theorem StandsAt.start
    {part text : List Char}
    {offset : Nat}
    (isPart : StandsAt part offset text) :
    StandsAt [] offset text := by
  obtain ⟨before, after, rfl, rfl⟩ := isPart
  exact ⟨before, part ++ after, by simp, rfl⟩

/-- A part ends at the start of a character or at the end. -/
theorem StandsAt.stop
    {part text : List Char}
    {offset : Nat}
    (isPart : StandsAt part offset text) :
    StandsAt [] (offset + width part) text := by
  obtain ⟨before, after, rfl, rfl⟩ := isPart
  exact ⟨before ++ part, after, by simp, width_append ..⟩

theorem width_le_of_suffix
    {part text : List Char}
    (isEnd : part <:+ text) :
    width part ≤ width text := by
  obtain ⟨before, rfl⟩ := isEnd
  rw [width_append]
  exact Nat.le_add_left _ _

theorem splitAt?_append (before rest : List Char) :
    splitAt? (width before) (before ++ rest) = some (before, rest) := by
  induction before with
  | nil => rw [width_nil, List.nil_append, splitAt?]
  | cons c cs inductionHypothesis =>
    have positive := c.utf8Size_pos
    obtain ⟨offset, isNext⟩ : ∃ offset, width (c :: cs) = offset + 1 :=
      ⟨width (c :: cs) - 1, by rw [width_cons]; omega⟩
    have remaining : offset + 1 - c.utf8Size = width cs := by
      rw [← isNext, width_cons]
      omega
    have fits : c.utf8Size ≤ offset + 1 := by
      rw [← isNext, width_cons]
      omega
    rw [isNext, List.cons_append, splitAt?, if_pos fits, remaining, inductionHypothesis]
    rfl

/-- A text has one part of a given width at its start. -/
theorem append_inj_of_width
    {left left' right right' : List Char}
    (whole : left ++ right = left' ++ right')
    (sameWidth : width left = width left') :
    left = left' ∧ right = right' := by
  have split := splitAt?_append left right
  rw [whole, sameWidth, splitAt?_append] at split
  exact ⟨(Prod.mk.inj (Option.some.inj split)).1.symm, (Prod.mk.inj (Option.some.inj split)).2.symm⟩

theorem dropTo?_append (before rest : List Char) :
    dropTo? (width before) (before ++ rest) = some rest := by
  rw [dropTo?, splitAt?_append]
  rfl

theorem takeTo?_append (before rest : List Char) :
    takeTo? (width before) (before ++ rest) = some before := by
  rw [takeTo?, splitAt?_append]
  rfl

theorem StandsAt.dropTo?
    {part text : List Char}
    {offset : Nat}
    (isPart : StandsAt part offset text) :
    ∃ rest, Text.dropTo? offset text = some rest ∧ part <+: rest := by
  obtain ⟨before, after, rfl, rfl⟩ := isPart
  refine ⟨part ++ after, ?_, List.prefix_append _ _⟩
  rw [List.append_assoc, dropTo?_append]

/-- The bytes of a part are the part. -/
theorem StandsAt.takeTo?_dropTo?
    {part text : List Char}
    {offset : Nat}
    (isPart : StandsAt part offset text) :
    (takeTo? (offset + width part) text).bind (Text.dropTo? offset) = some part := by
  obtain ⟨before, after, rfl, rfl⟩ := isPart
  rw [← width_append, takeTo?_append, Option.bind_some, dropTo?_append]

theorem find?_of_start
    {needle text : List Char}
    (isStart : needle <+: text) :
    find? needle text = some 0 := by
  cases text with
  | nil =>
    rw [List.prefix_nil.mp isStart]
    rfl
  | cons c cs => rw [find?, if_pos (List.isPrefixOf_iff_prefix.mpr isStart)]

/-- The first place of a character is after the characters that are others. -/
theorem find?_singleton
    (c : Char)
    (before rest : List Char) :
    find? [c] (before ++ c :: rest) = some (width (before.takeWhile (· != c))) := by
  induction before with
  | nil => simp [find?]
  | cons d others inductionHypothesis =>
    rw [List.cons_append, find?]
    by_cases isSame : d = c
    · subst isSame
      simp
    · have notStart : ¬[c].isPrefixOf (d :: (others ++ c :: rest)) = true := by
        simp [Ne.symm isSame]
      rw [if_neg notStart, inductionHypothesis, List.takeWhile_cons_of_pos (by simpa using isSame)]
      rfl

theorem width_takeWhile_eq_iff
    (p : Char → Bool)
    (text : List Char) :
    width (text.takeWhile p) = width text ↔ ∀ c ∈ text, p c = true := by
  constructor
  · intro same
    have whole : text.takeWhile p ++ text.dropWhile p = text ++ [] := by simp
    rw [← List.takeWhile_eq_self_iff]
    exact (append_inj_of_width whole same).1
  · intro all
    rw [List.takeWhile_eq_self_iff.mpr all]

theorem StandsAt.cons_iff
    {part text : List Char}
    {offset : Nat}
    (c : Char) :
    StandsAt part offset (c :: text) ↔ (offset = 0 ∧ part <+: c :: text) ∨
      ∃ later, offset = c.utf8Size + later ∧ StandsAt part later text := by
  constructor
  · rintro ⟨before, after, whole, rfl⟩
    cases before with
    | nil => exact .inl ⟨rfl, after, whole.symm⟩
    | cons d others =>
      obtain ⟨rfl, rest⟩ := List.cons.inj whole
      exact .inr ⟨width others, width_cons .., others, after, rest, rfl⟩
  · rintro (⟨rfl, isStart⟩ | ⟨later, rfl, before, after, rfl, rfl⟩)
    · exact .of_start isStart
    · exact ⟨c :: before, after, rfl, width_cons ..⟩

/-- What is found in a text stands there. -/
theorem standsAt_of_find?
    {needle text : List Char}
    {offset : Nat}
    (found : find? needle text = some offset) :
    StandsAt needle offset text := by
  induction text generalizing offset with
  | nil =>
    rw [Text.find?] at found
    split at found
    · rename_i empty
      cases found
      rw [List.isEmpty_iff.mp empty]
      exact .of_start List.nil_prefix
    · cases found
  | cons c rest inductionHypothesis =>
    rw [Text.find?] at found
    split at found
    · rename_i isStart
      cases found
      exact .of_start (List.isPrefixOf_iff_prefix.mp isStart)
    · obtain ⟨later, foundLater, rfl⟩ := Option.map_eq_some_iff.mp found
      exact (StandsAt.cons_iff c).mpr (.inr ⟨later, rfl, inductionHypothesis foundLater⟩)

/-- What stands in a text is found, at its first place. -/
theorem StandsAt.find?
    {part text : List Char}
    {offset : Nat}
    (stands : StandsAt part offset text) :
    ∃ first, Text.find? part text = some first ∧ first ≤ offset ∧ StandsAt part first text ∧
      ∀ earlier < first, ¬StandsAt part earlier text := by
  induction text generalizing offset with
  | nil =>
    obtain ⟨before, after, whole, -⟩ := stands
    have nothing : part = [] := by simp_all
    exact ⟨0, by rw [nothing]; rfl, Nat.zero_le _, by rw [nothing]; exact .of_start List.prefix_rfl,
      fun earlier before => absurd before (Nat.not_lt_zero _)⟩
  | cons c cs inductionHypothesis =>
    rw [Text.find?]
    split
    · rename_i isStart
      exact ⟨0, rfl, Nat.zero_le _, .of_start (List.isPrefixOf_iff_prefix.mp isStart),
        fun earlier before => absurd before (Nat.not_lt_zero _)⟩
    · rename_i notStart
      rcases (StandsAt.cons_iff c).mp stands with ⟨-, isStart⟩ | ⟨later, rfl, standsLater⟩
      · exact absurd (List.isPrefixOf_iff_prefix.mpr isStart) notStart
      · obtain ⟨first, found, early, standsFirst, none⟩ := inductionHypothesis standsLater
        refine ⟨c.utf8Size + first, by rw [found]; rfl, by omega,
          (StandsAt.cons_iff c).mpr (.inr ⟨first, rfl, standsFirst⟩), ?_⟩
        intro earlier before standsEarlier
        rcases (StandsAt.cons_iff c).mp standsEarlier with ⟨-, isStart⟩ | ⟨place, rfl, standsThere⟩
        · exact notStart (List.isPrefixOf_iff_prefix.mpr isStart)
        · exact none place (by omega) standsThere

/-- A part that starts no later than another one is before it. -/
theorem StandsAt.between
    {first second text : List Char}
    {start stop : Nat}
    (isFirst : StandsAt first start text)
    (isSecond : StandsAt second stop text)
    (ordered : start ≤ stop) :
    ∃ between rest, Text.dropTo? start text = some (between ++ second ++ rest) ∧
      start + width between = stop := by
  obtain ⟨before, after, rfl, rfl⟩ := isFirst
  obtain ⟨before', rest, whole, rfl⟩ := isSecond
  rw [List.append_assoc, List.append_assoc] at whole
  have split : ∃ between, before' = before ++ between ∧
      first ++ after = between ++ (second ++ rest) := by
    rcases List.append_eq_append_iff.mp whole with ⟨between, rfl, same⟩ | ⟨excess, rfl, same⟩
    · exact ⟨between, rfl, same⟩
    · -- the second part does not start before the first one
      rw [width_append] at ordered
      have nothing : excess = [] := by
        cases excess with
        | nil => rfl
        | cons c cs =>
          have positive := c.utf8Size_pos
          rw [width_cons] at ordered
          omega
      subst nothing
      exact ⟨[], by simp, by simpa using same.symm⟩
  obtain ⟨between, rfl, same⟩ := split
  refine ⟨between, rest, ?_, (width_append ..).symm⟩
  rw [List.append_assoc, List.append_assoc, ← same, dropTo?_append]

theorem trimEnd_starts (text : List Char) : trimEnd text <+: text := by
  obtain ⟨gap, _, whole⟩ := exists_trimEnd_append text
  exact ⟨gap, whole.symm⟩

theorem trimStart_suffix (text : List Char) : trimStart text <:+ text :=
  List.dropWhile_suffix _

/-- The leading blanks are as wide as what trimming takes off the front. -/
theorem width_sub_width_trimStart (text : List Char) :
    width text - width (trimStart text) = width (text.takeWhile isBlank) := by
  have whole := congrArg width (takeWhile_append_trimStart text)
  rw [width_append] at whole
  omega

/-- A trimmed text stands in the text after its leading blanks. -/
theorem standsAt_trim (text : List Char) :
    StandsAt (trim text) (width (text.takeWhile isBlank)) text := by
  have inner := StandsAt.of_start (trimEnd_starts (trimStart text))
  have outer := StandsAt.of_suffix (trimStart_suffix text)
  rw [width_sub_width_trimStart] at outer
  exact inner.trans outer

end StyleSense.Text
