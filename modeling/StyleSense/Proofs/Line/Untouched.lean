import StyleSense.Proofs.Line.Verbatim

/-!
Contract: lines that are read as they are written.

Owns:
- `Text.solidCount`, the characters of a text but for blanks;
- `Scan.IsBare`, the texts that the reader of lines drops no sign from;
- `Reading.IsUntouched`, a physical line that nothing is taken from, and
  `Reading.kept_eq_written_iff`: the kept texts of some lines are the lines as they are written just
  when nothing is taken from any of them.

Does not own: which lines are kept (`StyleSense.Proofs.Line.Verbatim`).
-/

namespace StyleSense

open Text

/-! ## Characters but for blanks -/

namespace Text

/-- Number of characters that are no blanks. -/
def solidCount (cs : List Char) : Nat :=
  cs.countP fun c => !isBlank c

theorem solidCount_append (left right : List Char) :
    solidCount (left ++ right) = solidCount left + solidCount right :=
  List.countP_append

theorem solidCount_eq_zero
    {cs : List Char} :
    solidCount cs = 0 ↔ AllBlank cs := by
  simp [solidCount, List.countP_eq_zero, AllBlank]

theorem solidCount_trim (cs : List Char) : solidCount (trim cs) = solidCount cs := by
  obtain ⟨tail, blankTail, whole⟩ := exists_trim_append cs
  have front : solidCount (cs.takeWhile isBlank) = 0 :=
    solidCount_eq_zero.mpr fun c => List.mem_takeWhile_imp
  have counted := congrArg solidCount whole
  rw [solidCount_append, solidCount_append, front, solidCount_eq_zero.mpr blankTail] at counted
  omega

theorem solidCount_le_of_part
    {part whole : List Char}
    (isPart : part <:+: whole) :
    solidCount part ≤ solidCount whole :=
  List.Sublist.countP_le isPart.sublist

/-- A part with all characters of a trimmed text but blanks is the whole text. -/
theorem eq_of_part
    {part whole : List Char}
    (isPart : part <:+: whole)
    (trimmed : trim whole = whole)
    (same : solidCount part = solidCount whole) :
    part = whole := by
  obtain ⟨before, after, split⟩ := isPart
  obtain ⟨front, back⟩ := trim_eq_self_iff.mp trimmed
  subst split
  rw [solidCount_append, solidCount_append] at same
  have blankBefore := solidCount_eq_zero.mp (show solidCount before = 0 by omega)
  have blankAfter := solidCount_eq_zero.mp (show solidCount after = 0 by omega)
  have noBefore : before = [] := by
    cases before with
    | nil => rfl
    | cons c rest =>
      have isBlankFirst := blankBefore c (List.mem_cons_self ..)
      rw [front c rfl] at isBlankFirst
      cases isBlankFirst
  have noAfter : after = [] := by
    rcases List.eq_nil_or_concat after with nothing | ⟨rest, c, rfl⟩
    · exact nothing
    · have isBlankLast := blankAfter c (by simp)
      rw [back c (by simp)] at isBlankLast
      cases isBlankLast
  rw [noBefore, noAfter, List.nil_append, List.append_nil]

end Text

theorem Blanked.solidCount_le
    {raw cleaned : List Char}
    (blanked : Blanked raw cleaned) :
    solidCount cleaned ≤ solidCount raw := by
  induction blanked with
  | nil => exact Nat.le_refl _
  | keep c rest inductionHypothesis =>
    unfold solidCount at inductionHypothesis ⊢
    rw [List.countP_cons, List.countP_cons]
    omega
  | blank c rest inductionHypothesis =>
    have nothing := solidCount_eq_zero.mpr (allBlank_blanks c.utf8Size)
    rw [solidCount_append, nothing]
    unfold solidCount at inductionHypothesis ⊢
    rw [List.countP_cons]
    omega

namespace Scan

/-! ## Signs at the ends of a text -/

theorem statementText_isPart (trimmed : List Char) : statementText trimmed <:+: trimmed :=
  (statementText_starts trimmed).isInfix.trans
    ((trimStart_suffix _).trans (List.dropWhile_suffix _)).isInfix

/-- The signs that the reader of lines would take from a text that starts a statement. -/
structure IsBare (text : List Char) : Prop where
  noCloser : text.head? ≠ some '\x7d'
  noSemicolon : text.getLast? ≠ some ';'
  noOpener : text.getLast? = some '\x7b' → isValueLine text = true

theorem IsBare.nil : IsBare [] :=
  ⟨nofun, nofun, nofun⟩

/-- A sign at the end of a text is taken from it just when it stands there. -/
theorem trimEnd_dropSuffix_eq_self_iff
    {text : List Char}
    (trimmed : trim text = text)
    (c : Char) :
    trimEnd (dropSuffix c text) = text ↔ text.getLast? ≠ some c := by
  constructor
  · intro same isLast
    obtain ⟨before, rfl⟩ := List.getLast?_eq_some_iff.mp isLast
    rw [dropSuffix_append_singleton] at same
    have shorter := (trimEnd_starts before).length_le
    rw [same, List.length_append, List.length_singleton] at shorter
    omega
  · intro other
    rw [dropSuffix_of_getLast?_ne other, trimEnd_of_trim trimmed]

theorem statementText_of_notClosing
    {text : List Char}
    (trimmed : trim text = text)
    (notClosing : text.head? ≠ some '\x7d') :
    statementText text =
      if isValueLine (dropSemicolon text) then dropSemicolon text
      else trimEnd (dropSuffix '\x7b' (dropSemicolon text)) := by
  have opening : text.dropWhile (· == '\x7d') = text := by
    cases text with
    | nil => rfl
    | cons c rest => exact List.dropWhile_cons_of_neg (by simpa using notClosing)
  rw [statementText, opening, trimStart_of_trim trimmed]

/-- A statement keeps its text just when no sign is dropped from it. -/
theorem statementText_eq_self_iff
    {text : List Char}
    (trimmed : trim text = text) :
    statementText text = text ↔ IsBare text := by
  constructor
  · intro same
    have notClosing : text.head? ≠ some '\x7d' := by
      intro isFirst
      obtain ⟨rest, rfl⟩ := List.head?_eq_some_iff.mp isFirst
      have inRest : statementText ('\x7d' :: rest) <:+: rest := statementText_isPart rest
      have shorter := inRest.length_le
      rw [same, List.length_cons] at shorter
      omega
    rw [statementText_of_notClosing trimmed notClosing] at same
    have isStart : (if isValueLine (dropSemicolon text) then dropSemicolon text
        else trimEnd (dropSuffix '\x7b' (dropSemicolon text))) <+: dropSemicolon text := by
      split
      · exact List.prefix_refl _
      · exact (trimEnd_starts _).trans (dropSuffix_starts _ _)
    rw [same] at isStart
    have whole : dropSemicolon text = text :=
      (dropSemicolon_starts text).eq_of_length_le isStart.length_le
    refine ⟨notClosing, (trimEnd_dropSuffix_eq_self_iff trimmed ';').mp whole, fun isLast => ?_⟩
    by_contra notValue
    rw [whole, if_neg notValue] at same
    exact (trimEnd_dropSuffix_eq_self_iff trimmed '\x7b').mp same isLast
  · rintro ⟨notClosing, noSemicolon, noOpener⟩
    have whole : dropSemicolon text = text :=
      (trimEnd_dropSuffix_eq_self_iff trimmed ';').mpr noSemicolon
    rw [statementText_of_notClosing trimmed notClosing, whole]
    split
    · rfl
    · rename_i notValue
      exact (trimEnd_dropSuffix_eq_self_iff trimmed '\x7b').mpr fun isLast =>
        notValue (noOpener isLast)

end Scan

/-! ## Lines -/

/-- Lists of texts are equal item by item when no item of the first has more characters than its
counterpart. -/
theorem eq_of_filterMap_eq
    {α : Type}
    {items : List α}
    {f g : α → Option (List Char)}
    (less : ∀ item ∈ items, solidCount ((f item).getD []) ≤ solidCount ((g item).getD []))
    (alike : ∀ item ∈ items, solidCount ((f item).getD []) = solidCount ((g item).getD []) →
      (f item).isSome = (g item).isSome)
    (same : items.filterMap f = items.filterMap g) :
    ∀ item ∈ items, f item = g item := by
  have counted : ∀ (h : α → Option (List Char)) (item : α) (rest : List α),
      solidCount ((item :: rest).filterMap h).flatten =
        solidCount ((h item).getD []) + solidCount (rest.filterMap h).flatten := by
    intro h item rest
    rw [List.filterMap_cons]
    cases h item with
    | none => rw [Option.getD_none]; exact (Nat.zero_add _).symm
    | some text => rw [Option.getD_some, List.flatten_cons, solidCount_append]
  have totals : ∀ rest : List α,
      (∀ item ∈ rest, solidCount ((f item).getD []) ≤ solidCount ((g item).getD [])) →
        solidCount (rest.filterMap f).flatten ≤ solidCount (rest.filterMap g).flatten := by
    intro rest less
    induction rest with
    | nil => exact Nat.le_refl _
    | cons item rest inductionHypothesis =>
      obtain ⟨here, later⟩ := List.forall_mem_cons.mp less
      rw [counted, counted]
      exact Nat.add_le_add here (inductionHypothesis later)
  induction items with
  | nil => exact fun _ isIn => nomatch isIn
  | cons item rest inductionHypothesis =>
    obtain ⟨lessHere, lessLater⟩ := List.forall_mem_cons.mp less
    obtain ⟨alikeHere, alikeLater⟩ := List.forall_mem_cons.mp alike
    have whole := congrArg (fun texts => solidCount texts.flatten) same
    simp only [counted] at whole
    have tail := totals rest lessLater
    have shape := alikeHere (by omega)
    rw [List.filterMap_cons, List.filterMap_cons] at same
    rw [List.forall_mem_cons]
    cases left : f item with
    | none =>
      rw [left] at shape same
      obtain right := Option.not_isSome_iff_eq_none.mp (by rw [← shape]; simp)
      rw [right] at same
      exact ⟨right.symm, inductionHypothesis lessLater alikeLater same⟩
    | some text =>
      rw [left] at shape same
      obtain ⟨other, right⟩ := Option.isSome_iff_exists.mp shape.symm
      rw [right] at same
      obtain ⟨rfl, later⟩ := List.cons.inj same
      exact ⟨right.symm, inductionHypothesis lessLater alikeLater later⟩

namespace Reading

/-- The line as it is written, without the blanks around it. -/
def written? (reading : Reading) : Option (List Char) :=
  if (trim reading.physical).isEmpty then none else some (trim reading.physical)

/-- Nothing is taken from the line: it has no comment, and no sign at its ends that the reader of
lines drops. -/
structure IsUntouched (reading : Reading) : Prop where
  noComment : reading.text = trim reading.physical
  noSemicolon : reading.text.getLast? ≠ some ';'
  bare : reading.state.pending = none → Scan.IsBare reading.text

variable (reading : Reading)

theorem written?_getD : reading.written?.getD [] = trim reading.physical := by
  unfold written?
  split
  · rename_i isEmpty
    exact (List.isEmpty_iff.mp isEmpty).symm
  · rfl

theorem kept?_isPart : reading.kept?.getD [] <:+: reading.text := by
  unfold kept?
  split
  · split
    · exact List.nil_infix
    · exact (Scan.dropSemicolon_starts _).isInfix
  · split
    · exact List.nil_infix
    · exact Scan.statementText_isPart _

theorem solidCount_text_le : solidCount reading.text ≤ solidCount (trim reading.physical) := by
  rw [text, solidCount_trim, solidCount_trim]
  exact (blankComments_blanked _ _).solidCount_le

theorem kept?_of_text_nil
    {reading : Reading}
    (nothing : reading.text = []) :
    reading.kept? = none := by
  unfold kept?
  rw [nothing]
  split <;> rfl

/-- Nothing is kept of a line that is blank as it is written. -/
theorem kept?_of_written?_none
    {reading : Reading}
    (blank : reading.written? = none) :
    reading.kept? = none := by
  have raw : trim reading.physical = [] := by
    rw [← written?_getD, blank, Option.getD_none]
  have noSolid := reading.solidCount_text_le
  rw [raw] at noSolid
  have blankText := solidCount_eq_zero.mp (Nat.le_zero.mp noSolid)
  apply kept?_of_text_nil
  rw [← trim_eq_nil.mpr blankText]
  exact (trim_trim _).symm

/-- A line that loses no character but blanks is kept as it is read. -/
theorem kept?_getD_eq
    {reading : Reading}
    (same : solidCount (reading.kept?.getD []) = solidCount (trim reading.physical)) :
    reading.kept?.getD [] = reading.text := by
  have less := solidCount_le_of_part reading.kept?_isPart
  have more := reading.solidCount_text_le
  exact eq_of_part reading.kept?_isPart (trim_trim _) (by omega)

/-- A line that is kept as it is read is kept unless it is blank. -/
theorem kept?_eq_of_getD
    {reading : Reading}
    (same : reading.kept?.getD [] = reading.text) :
    reading.kept? = if reading.text.isEmpty then none else some reading.text := by
  split
  · rename_i isEmpty
    exact kept?_of_text_nil (List.isEmpty_iff.mp isEmpty)
  · rename_i notEmpty
    cases kept : reading.kept? with
    | none =>
      rw [kept, Option.getD_none] at same
      exact absurd (List.isEmpty_iff.mpr same.symm) notEmpty
    | some text =>
      rw [kept, Option.getD_some] at same
      rw [same]

/-- The signs at the ends of a line that is kept as it is read. -/
theorem bare_of_kept?
    {reading : Reading}
    (kept : reading.kept? = if reading.text.isEmpty then none else some reading.text) :
    reading.text.getLast? ≠ some ';' ∧
      (reading.state.pending = none → Scan.IsBare reading.text) := by
  have trimmed : trim reading.text = reading.text := trim_trim _
  by_cases nothing : reading.text = []
  · rw [nothing]
    exact ⟨nofun, fun _ => .nil⟩
  rw [if_neg (by simpa using nothing)] at kept
  unfold kept? at kept
  split at kept
  · rename_i opened pending
    rw [if_neg (by simpa using nothing), Option.some.injEq] at kept
    refine ⟨(Scan.trimEnd_dropSuffix_eq_self_iff trimmed ';').mp kept, fun complete => ?_⟩
    rw [pending] at complete
    cases complete
  · split at kept
    · cases kept
    · have bare := (Scan.statementText_eq_self_iff trimmed).mp (Option.some.inj kept)
      exact ⟨bare.noSemicolon, fun _ => bare⟩

/-- A line is kept as it is written just when nothing is taken from it. -/
theorem kept?_eq_written?_iff : reading.kept? = reading.written? ↔ reading.IsUntouched := by
  have trimmed : trim reading.text = reading.text := trim_trim _
  constructor
  · intro same
    have texts := congrArg (Option.getD · []) same
    simp only [written?_getD] at texts
    have read := kept?_getD_eq (congrArg solidCount texts)
    obtain ⟨noSemicolon, bare⟩ := bare_of_kept? (kept?_eq_of_getD read)
    exact ⟨read.symm.trans texts, noSemicolon, bare⟩
  · rintro ⟨noComment, noSemicolon, bare⟩
    have read : reading.kept?.getD [] = reading.text := by
      by_cases nothing : reading.text = []
      · rw [kept?_of_text_nil nothing, nothing, Option.getD_none]
      unfold kept?
      split
      · rw [if_neg (by simpa using nothing), Option.getD_some]
        exact (Scan.trimEnd_dropSuffix_eq_self_iff trimmed ';').mpr noSemicolon
      · rename_i pending
        rw [(Scan.statementText_eq_self_iff trimmed).mpr (bare pending),
          if_neg (by simpa using nothing), Option.getD_some]
    rw [kept?_eq_of_getD read, written?, noComment]

/-- The kept texts of some lines are the lines as they are written just when nothing is taken from
any of them. -/
theorem kept_eq_written_iff (readings : List Reading) :
    readings.filterMap kept? = readings.filterMap written? ↔
      ∀ reading ∈ readings, reading.IsUntouched := by
  constructor
  · intro same reading isIn
    refine reading.kept?_eq_written?_iff.mp (eq_of_filterMap_eq ?_ ?_ same reading isIn)
    · intro other _
      rw [written?_getD]
      exact (solidCount_le_of_part other.kept?_isPart).trans other.solidCount_text_le
    · intro other _ counted
      rw [written?_getD] at counted
      have read := kept?_getD_eq counted
      rw [read] at counted
      have bothEmpty : other.text = [] ↔ trim other.physical = [] := by
        rw [text, trim_eq_nil, ← solidCount_eq_zero, ← solidCount_trim, ← text, counted,
          solidCount_trim, solidCount_eq_zero, trim_eq_nil]
      simp only [kept?_eq_of_getD read, written?, List.isEmpty_iff, bothEmpty]
      split <;> rfl
  · intro untouched
    exact List.filterMap_congr fun reading isIn =>
      reading.kept?_eq_written?_iff.mpr (untouched reading isIn)

end Reading

end StyleSense
