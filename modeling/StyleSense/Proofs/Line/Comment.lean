import Mathlib.Data.List.Chain
import StyleSense.Line.Comment
import StyleSense.Proofs.Text.Part

/-!
Contract: what blanking out comments keeps.

Owns:
- one equation for each state in which a character of a line is read;
- `blankComments_of_commentless`: a line without quotes and comment markers stays as it is;
- `Blanked`, the relation of a line to the same line with some characters blanked out, and
  `blankComments_blanked`: what is still there stands at the byte where it was.

Does not own: the lines that are read off the result (`StyleSense.Proofs.Line.Scan`).
-/

namespace StyleSense

open Text

/-- A quote sign. -/
abbrev IsQuote (c : Char) : Prop :=
  c = '"' ∨ c = '\''

/-! ## One character -/

theorem blankFrom_code_cons
    (previous : Option Char)
    (c : Char)
    (cs : List Char) :
    blankFrom .code previous (c :: cs) =
      if c = '/' ∧ cs.head? = some '*' then
        (' ' :: ' ' :: (blankFrom .comment (some '*') cs.tail).1,
          (blankFrom .comment (some '*') cs.tail).2)
      else if c = '/' ∧ cs.head? = some '/' ∧ previous ≠ some ':' then
        (blanks (width (c :: cs)), false)
      else
        let inside := if IsQuote c then .quoted c else .code
        (c :: (blankFrom inside (some c) cs).1, (blankFrom inside (some c) cs).2) := by
  by_cases opens : c = '/' ∧ cs.head? = some '*'
  · rw [if_pos opens]
    obtain ⟨rfl, star⟩ := opens
    obtain ⟨rest, rfl⟩ := List.head?_eq_some_iff.mp star
    rw [blankFrom]
    rfl
  · rw [if_neg opens, blankFrom]
    · simp [and_assoc]
    · rintro rest rfl rfl
      exact opens ⟨rfl, rfl⟩

theorem blankFrom_quoted_cons
    (quote : Char)
    (previous : Option Char)
    (c : Char)
    (cs : List Char) :
    blankFrom (.quoted quote) previous (c :: cs) =
      let inside := if c = quote then .code else .quoted quote
      (c :: (blankFrom inside (some c) cs).1, (blankFrom inside (some c) cs).2) := by
  rw [blankFrom]

theorem blankFrom_comment_cons
    (previous : Option Char)
    (c : Char)
    (cs : List Char) :
    blankFrom .comment previous (c :: cs) =
      if c = '*' ∧ cs.head? = some '/' then
        (' ' :: ' ' :: (blankFrom .code (some '/') cs.tail).1,
          (blankFrom .code (some '/') cs.tail).2)
      else
        (blanks c.utf8Size ++ (blankFrom .comment (some c) cs).1,
          (blankFrom .comment (some c) cs).2) := by
  by_cases closes : c = '*' ∧ cs.head? = some '/'
  · rw [if_pos closes]
    obtain ⟨rfl, slash⟩ := closes
    obtain ⟨rest, rfl⟩ := List.head?_eq_some_iff.mp slash
    rw [blankFrom]
    rfl
  · rw [if_neg closes, blankFrom]
    rintro rest rfl rfl
    exact closes ⟨rfl, rfl⟩

/-! ## Lines without comments -/

/-- A text in which no comment starts. -/
def Commentless (cs : List Char) : Prop :=
  cs.IsChain fun c d => ¬(c = '/' ∧ (d = '/' ∨ d = '*'))

instance (cs : List Char) : Decidable (Commentless cs) :=
  inferInstanceAs (Decidable (cs.IsChain fun c d => ¬(c = '/' ∧ (d = '/' ∨ d = '*'))))

theorem Commentless.append
    {left right : List Char}
    (lefts : Commentless left)
    (rights : Commentless right)
    (apart : left.getLast? ≠ some '/' ∨ ∀ c ∈ right.head?, c ≠ '/' ∧ c ≠ '*') :
    Commentless (left ++ right) := by
  refine List.isChain_append.mpr ⟨lefts, rights, ?_⟩
  rintro c isLast d isFirst ⟨rfl, star⟩
  rcases apart with noSlash | noStart
  · exact noSlash isLast
  · rcases star with rfl | rfl
    · exact (noStart _ isFirst).1 rfl
    · exact (noStart _ isFirst).2 rfl

theorem Commentless.of_slash_notMem
    {cs : List Char}
    (noSlash : '/' ∉ cs) :
    Commentless cs := by
  induction cs with
  | nil => exact .nil
  | cons c rest inductionHypothesis =>
    obtain ⟨notHere, notLater⟩ := not_or.mp (mt List.mem_cons.mpr noSlash)
    refine List.isChain_cons.mpr ⟨?_, inductionHypothesis notLater⟩
    rintro d _ ⟨rfl, _⟩
    exact notHere rfl

theorem Commentless.of_allBlank
    {gap : List Char}
    (blank : AllBlank gap) :
    Commentless gap :=
  .of_slash_notMem fun isIn => absurd (blank _ isIn) (by decide)

theorem Commentless.of_suffix
    {cs rest : List Char}
    (commentless : Commentless cs)
    (isEnd : rest <:+ cs) :
    Commentless rest :=
  List.IsChain.suffix commentless isEnd

theorem blankFrom_of_commentless
    {cs : List Char}
    (commentless : Commentless cs)
    (unquoted : ∀ c ∈ cs, ¬IsQuote c)
    (previous : Option Char) :
    blankFrom .code previous cs = (cs, false) := by
  induction cs generalizing previous with
  | nil => rw [blankFrom]; rfl
  | cons c rest inductionHypothesis =>
    obtain ⟨first, others⟩ := List.isChain_cons.mp commentless
    have notQuote := unquoted c (List.mem_cons_self ..)
    rw [blankFrom_code_cons, if_neg, if_neg]
    · simp only [if_neg notQuote,
        inductionHypothesis others fun d isIn => unquoted d (List.mem_cons_of_mem _ isIn)]
    · rintro ⟨rfl, slash, _⟩
      exact first '/' slash ⟨rfl, .inl rfl⟩
    · rintro ⟨rfl, star⟩
      exact first '*' star ⟨rfl, .inr rfl⟩

/-- A line without quotes and comment markers stays as it is. -/
theorem blankComments_of_commentless
    {cs : List Char}
    (commentless : Commentless cs)
    (unquoted : ∀ c ∈ cs, ¬IsQuote c) :
    blankComments false cs = (cs, false) :=
  blankFrom_of_commentless commentless unquoted none

/-! ## Characters that are still there -/

/-- A text in which some characters were replaced by as many blanks as they have bytes. -/
inductive Blanked : List Char → List Char → Prop
  | nil : Blanked [] []
  | keep {raw cleaned : List Char} (c : Char) (rest : Blanked raw cleaned) :
      Blanked (c :: raw) (c :: cleaned)
  | blank {raw cleaned : List Char} (c : Char) (rest : Blanked raw cleaned) :
      Blanked (c :: raw) (blanks c.utf8Size ++ cleaned)

@[simp] theorem width_blanks (size : Nat) : width (blanks size) = size := by
  induction size with
  | zero => rfl
  | succ size inductionHypothesis =>
    rw [blanks, List.replicate_succ, width_cons]
    rw [blanks] at inductionHypothesis
    rw [inductionHypothesis]
    exact Nat.add_comm 1 size

theorem allBlank_blanks (size : Nat) : AllBlank (blanks size) := by
  intro c isIn
  rw [List.eq_of_mem_replicate isIn]
  decide

theorem blanked_blanks (cs : List Char) : Blanked cs (blanks (width cs)) := by
  induction cs with
  | nil => exact .nil
  | cons c rest inductionHypothesis =>
    rw [width_cons, blanks, List.replicate_add]
    exact .blank c inductionHypothesis

/-- Blanking out the comments of a line only replaces characters by blanks. -/
theorem blankFrom_blanked
    (surrounding : Surrounding)
    (previous : Option Char)
    (cs : List Char) :
    Blanked cs (blankFrom surrounding previous cs).1 := by
  fun_induction blankFrom surrounding previous cs with
  | case1 => exact .nil
  | case2 _ rest text isOpen read inductionHypothesis =>
    rw [read] at inductionHypothesis
    exact .blank '*' (.blank '/' inductionHypothesis)
  | case3 _ c rest _ text isOpen read inductionHypothesis =>
    rw [read] at inductionHypothesis
    exact .blank c inductionHypothesis
  | case4 quote _ c rest text isOpen read inductionHypothesis =>
    rw [read] at inductionHypothesis
    exact .keep c inductionHypothesis
  | case5 _ rest text isOpen read inductionHypothesis =>
    rw [read] at inductionHypothesis
    exact .blank '/' (.blank '*' inductionHypothesis)
  | case6 => exact blanked_blanks _
  | case7 _ c rest _ _ inside text isOpen read inductionHypothesis =>
    rw [read] at inductionHypothesis
    exact .keep c inductionHypothesis

theorem blankComments_blanked
    (inComment : Bool)
    (line : List Char) :
    Blanked line (blankComments inComment line).1 :=
  blankFrom_blanked _ none line

namespace Blanked

theorem width_eq
    {raw cleaned : List Char}
    (blanked : Blanked raw cleaned) :
    width cleaned = width raw := by
  induction blanked with
  | nil => rfl
  | keep c rest inductionHypothesis => rw [width_cons, width_cons, inductionHypothesis]
  | blank c rest inductionHypothesis =>
    rw [width_append, width_cons, width_blanks, inductionHypothesis]

/-- A text that starts with something else than a blank was not blanked out there. -/
theorem eq_of_blanks_append
    {size : Nat}
    {cleaned before word after : List Char}
    (split : blanks size ++ cleaned = before ++ word ++ after)
    (solid : Solid word) :
    ∃ inner, before = blanks size ++ inner ∧ cleaned = inner ++ word ++ after := by
  rw [List.append_assoc] at split
  rcases List.append_eq_append_iff.mp split with ⟨inner, beforeSplit, cleanedSplit⟩ |
    ⟨overlap, blanksSplit, wordSplit⟩
  · exact ⟨inner, beforeSplit, by rw [cleanedSplit, List.append_assoc]⟩
  · cases overlap with
    | nil =>
      rw [List.append_nil] at blanksSplit
      exact ⟨[], by rw [blanksSplit, List.append_nil], by simpa using wordSplit.symm⟩
    | cons c rest =>
      obtain ⟨first, others, rfl⟩ := List.exists_cons_of_ne_nil solid.1
      rw [List.cons_append, List.cons_append, List.cons.injEq] at wordSplit
      have isBlankFirst : first ∈ blanks size := by
        rw [blanksSplit, wordSplit.1]
        simp
      rw [List.eq_of_mem_replicate isBlankFirst] at solid
      exact absurd (solid.2 ' ' (List.mem_cons_self ..)) (by decide)

theorem prefix_of_solid
    {raw cleaned : List Char}
    (blanked : Blanked raw cleaned)
    {word : List Char}
    (isStart : word <+: cleaned)
    (solid : ∀ c ∈ word, isBlank c = false) :
    word <+: raw := by
  induction blanked generalizing word with
  | nil => exact isStart
  | keep c rest inductionHypothesis =>
    cases word with
    | nil => exact List.nil_prefix
    | cons d others =>
      obtain ⟨rfl, isLater⟩ := List.cons_prefix_cons.mp isStart
      exact List.cons_prefix_cons.mpr ⟨rfl,
        inductionHypothesis isLater fun e isIn => solid e (List.mem_cons_of_mem _ isIn)⟩
  | blank c rest inductionHypothesis =>
    cases word with
    | nil => exact List.nil_prefix
    | cons d others =>
      obtain ⟨after, whole⟩ := isStart
      have nonempty : Solid (d :: others) := ⟨List.cons_ne_nil _ _, solid⟩
      rw [← List.nil_append (d :: others)] at whole
      obtain ⟨inner, before, _⟩ := eq_of_blanks_append whole.symm nonempty
      have positive := Char.utf8Size_pos c
      have noBlanks := congrArg List.length before
      simp [blanks] at noBlanks
      omega

/-- A word of the cleaned text stands at the same byte of the text itself. -/
theorem standsAt
    {raw cleaned : List Char}
    (blanked : Blanked raw cleaned)
    {word : List Char}
    (solid : Solid word)
    {offset : Nat}
    (stands : StandsAt word offset cleaned) :
    StandsAt word offset raw := by
  obtain ⟨before, after, split, rfl⟩ := stands
  induction blanked generalizing before with
  | nil =>
    have nothing := congrArg List.length split
    have something := List.length_pos_iff.mpr solid.1
    simp at nothing
    omega
  | @keep raw cleaned c rest inductionHypothesis =>
    cases before with
    | nil =>
      have isStart : word <+: raw.cons c :=
        (Blanked.keep c rest).prefix_of_solid ⟨after, split.symm⟩ solid.2
      exact .of_start isStart
    | cons d others =>
      obtain ⟨rfl, later⟩ := List.cons.inj split
      obtain ⟨rawBefore, rawAfter, rawSplit, rawWidth⟩ := inductionHypothesis others later
      exact ⟨c :: rawBefore, rawAfter, by rw [rawSplit]; rfl, by rw [width_cons, width_cons, rawWidth]⟩
  | @blank raw cleaned c rest inductionHypothesis =>
    obtain ⟨inner, rfl, later⟩ := eq_of_blanks_append split solid
    obtain ⟨rawBefore, rawAfter, rawSplit, rawWidth⟩ := inductionHypothesis inner later
    refine ⟨c :: rawBefore, rawAfter, by rw [rawSplit]; rfl, ?_⟩
    rw [width_cons, width_append, rawWidth, width_blanks]

end Blanked

end StyleSense
