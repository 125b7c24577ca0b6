import Mathlib.Data.List.TakeWhile
import StyleSense.Text.Blank
import StyleSense.Text.Letter
import StyleSense.Text.Offset

/-!
Contract: blanks, and texts with the blanks at their ends removed.

Owns:
- how a condition on every character of a text is decided;
- that a blank spells no word: it is neither a word character nor a letter or numeral;
- how runs of characters, `trimStart`, `trimEnd` and `dropSuffix` act on a text that is put together from parts.

Does not own: which texts of a stylesheet are trimmed (`StyleSense.Proofs.Line.Scan`).
-/

namespace StyleSense.Text

/-! ## Conditions on every character -/

section Conditions

variable (p : Char → Prop) [DecidablePred p]

/-- A condition on the characters of a text is decided one by one, not over all characters there
are. -/
instance decidableForallMem (cs : List Char) : Decidable (∀ c ∈ cs, p c) :=
  List.decidableBAll p cs

/-- The same for the character at an end of a text, if there is one. -/
instance decidableForallMemOption : (end? : Option Char) → Decidable (∀ c ∈ end?, p c)
  | none => isTrue fun _ isIn => nomatch isIn
  | some c => decidable_of_iff (p c) (by simp)

end Conditions

/-! ## Blanks spell nothing -/

/-- The code points of the blanks. -/
def blankCodes : List Nat :=
  [9, 10, 11, 12, 13, 0x20, 0x85, 0xA0, 0x1680, 0x2000, 0x2001, 0x2002, 0x2003, 0x2004, 0x2005,
    0x2006, 0x2007, 0x2008, 0x2009, 0x200A, 0x2028, 0x2029, 0x202F, 0x205F, 0x3000]

theorem toNat_mem_blankCodes
    {c : Char}
    (blank : isBlank c = true) :
    c.toNat ∈ blankCodes := by
  simp only [isBlank, Bool.or_eq_true, Bool.and_eq_true, decide_eq_true_eq, beq_iff_eq] at blank
  simp only [blankCodes, List.mem_cons, List.not_mem_nil, or_false]
  omega

theorem blankCodes_spell_nothing :
    ∀ code ∈ blankCodes, isWordChar (Char.ofNat code) = false ∧
      isAlphanumeric (Char.ofNat code) = false := by
  decide +kernel

theorem isWordChar_of_isBlank
    {c : Char}
    (blank : isBlank c = true) :
    isWordChar c = false := by
  have spelled := (blankCodes_spell_nothing _ (toNat_mem_blankCodes blank)).1
  rwa [Char.ofNat_toNat] at spelled

theorem isAlphanumeric_of_isBlank
    {c : Char}
    (blank : isBlank c = true) :
    isAlphanumeric c = false := by
  have spelled := (blankCodes_spell_nothing _ (toNat_mem_blankCodes blank)).2
  rwa [Char.ofNat_toNat] at spelled

/-- A text of blanks only. -/
def AllBlank (cs : List Char) : Prop :=
  ∀ c ∈ cs, isBlank c = true

instance (cs : List Char) : Decidable (AllBlank cs) :=
  inferInstanceAs (Decidable (∀ c ∈ cs, isBlank c = true))

theorem allBlank_nil : AllBlank [] :=
  fun _ isIn => nomatch isIn

/-- A text with something in it and no blanks. -/
def Solid (cs : List Char) : Prop :=
  cs ≠ [] ∧ ∀ c ∈ cs, isBlank c = false

theorem Solid.cons
    {c : Char}
    {cs : List Char}
    (first : isBlank c = false)
    (others : ∀ d ∈ cs, isBlank d = false) :
    Solid (c :: cs) := by
  refine ⟨List.cons_ne_nil c cs, fun d isIn => ?_⟩
  rcases List.mem_cons.mp isIn with rfl | isLater
  · exact first
  · exact others d isLater

/-! ## Runs of characters -/

section Runs

variable {p : Char → Bool} {after : List Char}

/-- A run ends where the next text does not go on with it. -/
theorem takeWhile_append_of_stop
    (stops : ∀ c ∈ after.head?, p c = false)
    (cs : List Char) :
    (cs ++ after).takeWhile p = cs.takeWhile p := by
  induction cs with
  | nil =>
    cases after with
    | nil => rfl
    | cons c rest => simp [stops c rfl]
  | cons c rest inductionHypothesis =>
    rw [List.cons_append, List.takeWhile_cons, List.takeWhile_cons, inductionHypothesis]

theorem dropWhile_append_of_stop
    (stops : ∀ c ∈ after.head?, p c = false)
    (cs : List Char) :
    (cs ++ after).dropWhile p = cs.dropWhile p ++ after := by
  induction cs with
  | nil =>
    cases after with
    | nil => rfl
    | cons c rest => simp [stops c rfl]
  | cons c rest inductionHypothesis =>
    rw [List.cons_append, List.dropWhile_cons, List.dropWhile_cons, inductionHypothesis]
    split <;> rfl

/-- A text is cut at the first of its characters that is `stop`. -/
theorem eq_append_of_dropWhile_ne
    {stop c : Char}
    {cs rest : List Char}
    (found : cs.dropWhile (!· == stop) = c :: rest) :
    cs = cs.takeWhile (!· == stop) ++ stop :: rest := by
  have whole := List.takeWhile_append_dropWhile (p := (!· == stop)) (l := cs)
  have stops := List.head?_dropWhile_not (!· == stop) cs
  rw [found] at stops whole
  obtain rfl : c = stop := by simpa using stops
  exact whole.symm

theorem mem_dropWhile
    {c : Char}
    (stays : p c = false)
    {cs : List Char}
    (isIn : c ∈ cs) :
    c ∈ cs.dropWhile p := by
  have whole := List.takeWhile_append_dropWhile (p := p) (l := cs)
  rw [← whole] at isIn
  rcases List.mem_append.mp isIn with dropped | kept
  · have passed := List.mem_takeWhile_imp dropped
    rw [stays] at passed
    cases passed
  · exact kept

/-- What a text starts with is found in its first part when the second one cannot take part. -/
theorem prefix_append_of_stop
    {start cs : List Char}
    (stops : ∀ c ∈ after.head?, c ∉ start) :
    start <+: cs ++ after ↔ start <+: cs := by
  refine ⟨fun starts => ?_, fun starts => starts.trans (List.prefix_append _ _)⟩
  rcases List.prefix_or_prefix_of_prefix starts (List.prefix_append cs after) with short | long
  · exact short
  · obtain ⟨more, rfl⟩ := long
    have rest := (List.prefix_append_right_inj cs).mp starts
    cases more with
    | nil => simp
    | cons c following =>
      obtain ⟨tail, whole⟩ := rest
      exact absurd (List.mem_append_right cs (List.mem_cons_self ..))
        (stops c (by rw [← whole]; rfl))

end Runs

/-! ## Trimming -/

theorem trimStart_append_of_allBlank
    {gap : List Char}
    (blank : AllBlank gap)
    (cs : List Char) :
    trimStart (gap ++ cs) = trimStart cs :=
  List.dropWhile_append_of_pos blank

theorem trimStart_eq_nil
    {cs : List Char} :
    trimStart cs = [] ↔ AllBlank cs :=
  List.dropWhile_eq_nil_iff

/-- A text that starts with something else than a blank stays as it is. -/
theorem trimStart_eq_self
    {cs : List Char}
    (solid : ∀ c ∈ cs.head?, isBlank c = false) :
    trimStart cs = cs := by
  cases cs with
  | nil => rfl
  | cons c rest => exact List.dropWhile_cons_of_neg (by simp [solid c rfl])

/-- Trimming finds something to keep in the first part. -/
theorem trimStart_append
    {cs : List Char}
    (kept : trimStart cs ≠ [])
    (after : List Char) :
    trimStart (cs ++ after) = trimStart cs ++ after := by
  unfold trimStart at kept ⊢
  rw [List.dropWhile_append, if_neg (by simpa using kept)]

/-- The blanks that trimming takes off the front. -/
theorem takeWhile_append_trimStart (cs : List Char) :
    cs.takeWhile isBlank ++ trimStart cs = cs :=
  List.takeWhile_append_dropWhile

theorem trimStart_head
    {cs : List Char}
    {c : Char}
    (first : (trimStart cs).head? = some c) :
    isBlank c = false := by
  have stops := List.head?_dropWhile_not isBlank cs
  unfold trimStart at first
  rw [first] at stops
  simpa using stops

theorem trimEnd_append_of_allBlank
    {gap : List Char}
    (blank : AllBlank gap)
    (cs : List Char) :
    trimEnd (cs ++ gap) = trimEnd cs := by
  unfold trimEnd
  rw [List.reverse_append,
    List.dropWhile_append_of_pos fun c isIn => blank c (List.mem_reverse.mp isIn)]

/-- A text that ends with something else than a blank stays as it is. -/
theorem trimEnd_eq_self
    {cs : List Char}
    (solid : ∀ c ∈ cs.getLast?, isBlank c = false) :
    trimEnd cs = cs := by
  have kept : trimStart cs.reverse = cs.reverse :=
    trimStart_eq_self (by simpa [List.head?_reverse] using solid)
  unfold trimStart at kept
  rw [trimEnd, kept, List.reverse_reverse]

/-- The blanks that trimming takes off the end. -/
theorem exists_trimEnd_append (cs : List Char) :
    ∃ gap, AllBlank gap ∧ cs = trimEnd cs ++ gap := by
  refine ⟨(cs.reverse.takeWhile isBlank).reverse, ?_, ?_⟩
  · intro c isIn
    exact List.mem_takeWhile_imp (List.mem_reverse.mp isIn)
  · rw [trimEnd, ← List.reverse_append, List.takeWhile_append_dropWhile, List.reverse_reverse]

theorem trimEnd_getLast
    {cs : List Char}
    {c : Char}
    (last : (trimEnd cs).getLast? = some c) :
    isBlank c = false := by
  rw [trimEnd, List.getLast?_reverse] at last
  exact trimStart_head last

theorem trimEnd_trimEnd (cs : List Char) : trimEnd (trimEnd cs) = trimEnd cs :=
  trimEnd_eq_self fun _ last => trimEnd_getLast last

/-- Trimming the end keeps the start of a text that starts with something else than a blank. -/
theorem head?_trimEnd
    {cs : List Char}
    (solid : ∀ c ∈ cs.head?, isBlank c = false) :
    (trimEnd cs).head? = cs.head? := by
  obtain ⟨gap, blank, whole⟩ := exists_trimEnd_append cs
  cases kept : trimEnd cs with
  | cons c rest =>
    rw [kept] at whole
    rw [whole]
    rfl
  | nil =>
    rw [kept, List.nil_append] at whole
    cases gap with
    | nil => rw [whole]
    | cons c rest =>
      have isBlankHead := blank c (List.mem_cons_self ..)
      rw [solid c (by simp [whole])] at isBlankHead
      cases isBlankHead

/-- A trimmed text has no blanks at its ends. -/
theorem trim_eq_self_iff
    {cs : List Char} :
    trim cs = cs ↔
      (∀ c ∈ cs.head?, isBlank c = false) ∧ ∀ c ∈ cs.getLast?, isBlank c = false := by
  constructor
  · intro trimmed
    refine ⟨?_, ?_⟩
    · rw [← trimmed, trim, head?_trimEnd fun c first => trimStart_head first]
      exact fun c first => trimStart_head first
    · rw [← trimmed, trim]
      exact fun c last => trimEnd_getLast last
  · rintro ⟨front, back⟩
    rw [trim, trimStart_eq_self front, trimEnd_eq_self back]

theorem trimStart_of_trim
    {cs : List Char}
    (trimmed : trim cs = cs) :
    trimStart cs = cs :=
  trimStart_eq_self (trim_eq_self_iff.mp trimmed).1

theorem trimEnd_of_trim
    {cs : List Char}
    (trimmed : trim cs = cs) :
    trimEnd cs = cs :=
  trimEnd_eq_self (trim_eq_self_iff.mp trimmed).2

theorem exists_trim_append (line : List Char) :
    ∃ tail, AllBlank tail ∧ line = line.takeWhile isBlank ++ trim line ++ tail := by
  obtain ⟨tail, blank, whole⟩ := exists_trimEnd_append (trimStart line)
  refine ⟨tail, blank, ?_⟩
  rw [trim, List.append_assoc, ← whole, takeWhile_append_trimStart]

theorem trim_trim (line : List Char) : trim (trim line) = trim line := by
  refine trim_eq_self_iff.mpr ⟨?_, ?_⟩
  · rw [trim, head?_trimEnd fun c first => trimStart_head first]
    exact fun c first => trimStart_head first
  · exact fun c last => trimEnd_getLast last

theorem trim_append_of_allBlank
    {gap : List Char}
    (blank : AllBlank gap)
    (cs : List Char) :
    trim (cs ++ gap) = trim cs := by
  by_cases nothing : trimStart cs = []
  · rw [trim, trim, trimStart_append_of_allBlank (trimStart_eq_nil.mp nothing), nothing,
      trimStart_eq_nil.mpr blank]
  · rw [trim, trim, trimStart_append nothing, trimEnd_append_of_allBlank blank]

theorem trim_eq_nil
    {cs : List Char} :
    trim cs = [] ↔ AllBlank cs := by
  constructor
  · intro nothing
    obtain ⟨tail, blankTail, whole⟩ := exists_trim_append cs
    rw [nothing, List.append_nil] at whole
    rw [whole, ← trimStart_eq_nil, trimStart_append_of_allBlank fun c => List.mem_takeWhile_imp,
      trimStart_eq_nil]
    exact blankTail
  · intro blank
    rw [trim, trimStart_eq_nil.mpr blank]
    rfl

theorem mem_trimEnd
    {c : Char}
    (solid : isBlank c = false)
    {cs : List Char}
    (isIn : c ∈ cs) :
    c ∈ trimEnd cs := by
  rw [trimEnd, List.mem_reverse]
  exact mem_dropWhile solid (List.mem_reverse.mpr isIn)

theorem mem_trim
    {c : Char}
    (solid : isBlank c = false)
    {cs : List Char}
    (isIn : c ∈ cs) :
    c ∈ trim cs :=
  mem_trimEnd solid (mem_dropWhile solid isIn)

/-- Trimming stops at a character that is no blank. -/
theorem trimStart_append_cons
    {c : Char}
    (solid : isBlank c = false)
    (before after : List Char) :
    trimStart (before ++ c :: after) = trimStart before ++ c :: after :=
  dropWhile_append_of_stop (by simpa using solid) before

theorem trimEnd_append_cons
    {c : Char}
    (solid : isBlank c = false)
    (before after : List Char) :
    trimEnd (before ++ c :: after) = before ++ c :: trimEnd after := by
  have stops : ∀ d ∈ (c :: before.reverse).head?, isBlank d = false := by simpa using solid
  rw [trimEnd, List.reverse_append, List.reverse_cons, List.append_assoc, List.singleton_append,
    dropWhile_append_of_stop stops]
  simp [trimEnd]

/-! ## Characters at the end -/

theorem dropSuffix_append_cons
    {c d : Char}
    (other : d ≠ c)
    (before after : List Char) :
    dropSuffix c (before ++ d :: after) = before ++ d :: dropSuffix c after := by
  have last : (before ++ d :: after).getLast? = (d :: after).getLast? := by
    simp [List.getLast?_append, List.getLast?_cons]
  unfold dropSuffix
  cases after with
  | nil =>
    rw [last, if_neg (by simpa using other)]
    rfl
  | cons first rest =>
    rw [last, List.getLast?_cons_cons, List.dropLast_append_of_ne_nil (List.cons_ne_nil _ _)]
    split <;> simp

theorem dropSuffix_of_getLast?_ne
    {c : Char}
    {cs : List Char}
    (other : cs.getLast? ≠ some c) :
    dropSuffix c cs = cs :=
  if_neg other

@[simp] theorem dropSuffix_append_singleton
    (c : Char)
    (cs : List Char) :
    dropSuffix c (cs ++ [c]) = cs := by
  simp [dropSuffix]

theorem dropSuffix_starts
    (c : Char)
    (cs : List Char) :
    dropSuffix c cs <+: cs := by
  unfold dropSuffix
  split
  · exact List.dropLast_prefix cs
  · exact List.prefix_refl cs

end StyleSense.Text
