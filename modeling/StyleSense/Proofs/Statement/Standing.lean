import StyleSense.Proofs.Statement.Coverage
import StyleSense.Proofs.Token.Place

/-!
Contract: where the fragments of a logical line stand, and which of them has the first token of a
value.

Owns:
- `Fragment.OnLine`: a fragment stands at its offset in its physical line with the comments blanked
  out, and `scanLines_onLine`: all fragments of a text do;
- `Line.Continued`, a head that asks for the next line, and `scanLines_continued`: the head of a line
  that goes on is one;
- `Line.placeOf_value`: the value of an assignment starts on the line of its name, also when the
  value goes on.

Does not own: the order of fragments and what is in none of them
(`StyleSense.Proofs.Statement.Coverage`).
-/

namespace StyleSense

open Text

/-! ## Physical lines -/

/-- The lines of a text and the same lines with their comments blanked out. -/
theorem physicalLines_blanked (text : List Char) :
    List.Forall₂ Blanked (physicalLines text) (physicalLines (withoutComments text)) := by
  rw [physicalLines, physicalLines, splitOn_withoutComments]
  generalize false = inComment
  induction text.splitOn '\n' generalizing inComment with
  | nil => exact .nil
  | cons line rest inductionHypothesis =>
    rw [blankLines, List.map_cons, List.map_cons]
    refine .cons ?_ (inductionHypothesis _)
    rw [dropSuffix_blankLine]
    exact blankComments_blanked inComment _

/-- The lines that are scanned have no comments. -/
theorem physicalLines_commentless (text : List Char) :
    ∀ line ∈ physicalLines (withoutComments text), blankComments false line = (line, false) := by
  rw [physicalLines, splitOn_withoutComments]
  exact blankLines_again false _

/-- A fragment of a text with its physical line, as it is and with its comments blanked out. -/
structure Fragment.OnLine
    (text : List Char)
    (fragment : Fragment)
    (raw cleaned : List Char) : Prop where
  positive : 0 < fragment.line
  isRaw : (physicalLines text)[fragment.line - 1]? = some raw
  isCleaned : (physicalLines (withoutComments text))[fragment.line - 1]? = some cleaned
  blanked : Blanked raw cleaned
  stands : StandsAt fragment.text fragment.offset cleaned

/-- Every fragment of a text stands where it says. -/
theorem scanLines_onLine
    {text : List Char}
    {lines : List Line}
    (scanned : scanLines text = .ok lines)
    {line : Line}
    (isLine : line ∈ lines)
    {fragment : Fragment}
    (isFragment : fragment ∈ line.fragments) :
    ∃ raw cleaned, fragment.OnLine text raw cleaned := by
  have covers : (Scan.initial.run 1 (physicalLines (withoutComments text))).Covers
      (physicalLines (withoutComments text)) :=
    Scan.initial_covers.run (physicalLines_commentless text)
  rw [← scanLines_withoutComments] at scanned
  have isIn : fragment ∈ (Scan.initial.run 1 (physicalLines (withoutComments text))).fragments := by
    rw [Scan.fragments, ← Scan.lines_of_finish scanned]
    exact List.mem_flatMap.2 ⟨line, isLine, isFragment⟩
  obtain ⟨positive, cleaned, isCleaned, stands⟩ := covers.standAt fragment isIn
  obtain ⟨inBounds, rfl⟩ := List.getElem?_eq_some_iff.1 isCleaned
  have both := physicalLines_blanked text
  have rawBound := both.length_eq ▸ inBounds
  exact ⟨_, _, positive, List.getElem?_eq_getElem rawBound, isCleaned,
    List.Forall₂.get both rawBound inBounds, stands⟩

/-! ## Lines that go on -/

/-- A bracket is open in a text, or a comma stands at its end. -/
def AsksForMore (text : List Char) : Prop :=
  (∃ countBraces, 0 < bracketDepth countBraces text) ∨ text.getLast? = some ','

/-- The head of a line asks for the next line. No comment starts in it: it stands after fillers in a
line without comments. -/
structure Line.Continued (line : Line) : Prop where
  asks : AsksForMore line.head.text
  commentless : ∃ front back, Fillers front ∧
    blankComments false (front ++ line.head.text ++ back) = (front ++ line.head.text ++ back, false)

namespace Scan

/-- A line that has gone on asked for it, and one that is open asks for it. -/
structure Continued (s : Scan) : Prop where
  outside : s.inComment = false
  found : ∀ line ∈ s.found, line.tail ≠ [] → line.Continued
  pending : ∀ opened ∈ s.pending, opened.line.Continued

theorem initial_continued : initial.Continued :=
  ⟨rfl, (fun _ isFound => nomatch isFound), (fun _ isOpened => nomatch isOpened)⟩

/-- A line that is continued keeps its head. -/
theorem Continued.continueLine
    {s : Scan}
    (continued : s.Continued)
    {opened : OpenLine}
    (isOpen : opened.line.Continued)
    (number indent : Nat)
    (trimmed : List Char) :
    (s.continueLine opened number indent trimmed).Continued := by
  have longerContinued : (opened.extended number indent trimmed).line.Continued := by
    obtain ⟨asks, commentless⟩ := isOpen
    rw [← opened.extended_head number indent trimmed] at asks commentless
    exact ⟨asks, commentless⟩
  rcases s.continueLine_cases opened number indent trimmed with ⟨_, same⟩ | ⟨_, same⟩
  · rw [same]
    refine ⟨continued.outside, continued.found, fun other isOther => ?_⟩
    cases isOther
    exact longerContinued
  · rw [same]
    refine ⟨continued.outside, ?_, nofun⟩
    exact List.forall_mem_cons.mpr ⟨fun _ => longerContinued, continued.found⟩

/-- A line that starts and stays open asks for more. -/
theorem Continued.startLine
    {s : Scan}
    (continued : s.Continued)
    (closed : s.pending = none)
    {gap trimmed after : List Char}
    (blankGap : AllBlank gap)
    (commentless : blankComments false (gap ++ trimmed ++ after) = (gap ++ trimmed ++ after, false))
    (number indent : Nat) :
    (s.startLine number indent trimmed).Continued := by
  have notPending : ∀ opened ∈ s.pending, opened.line.Continued := by
    rw [closed]
    exact fun _ isOpened => nomatch isOpened
  rcases s.startLine_cases number indent trimmed with ⟨_, same⟩ | ⟨_, goesOn, same⟩ | ⟨_, _, same⟩
  · rw [same]
    exact continued
  · rw [same]
    refine ⟨continued.outside, continued.found, fun opened isOpened => ?_⟩
    cases isOpened
    constructor
    · simp only [OpenLine.goesOn, Bool.or_eq_true, decide_eq_true_eq, beq_iff_eq] at goesOn
      exact goesOn.imp_left fun isOpen => ⟨_, isOpen⟩
    · obtain ⟨front, fillersFront, split⟩ := exists_fillers_append trimmed
      obtain ⟨back, whole⟩ := statementText_starts trimmed
      refine ⟨gap ++ front, back ++ after, (Fillers.of_allBlank blankGap).append fillersFront, ?_⟩
      rw [← whole] at split
      rw [split] at commentless
      simpa only [opening, List.append_assoc] using commentless
  · rw [same]
    refine ⟨continued.outside, List.forall_mem_append.mpr ⟨fun line isNew hasTail => ?_,
      continued.found⟩, continued.pending⟩
    exact absurd (tail_of_mem_statementsOf (List.mem_reverse.mp isNew)) hasTail

theorem Continued.step
    {s : Scan}
    (continued : s.Continued)
    (number : Nat)
    {physical : List Char}
    (commentless : blankComments false physical = (physical, false)) :
    (s.step number physical).Continued := by
  obtain ⟨tail, blankTail, whole⟩ := exists_trimEnd_append physical
  have inner := takeWhile_append_trimStart (trimEnd physical)
  have blankGap : AllBlank ((trimEnd physical).takeWhile isBlank) := fun c => List.mem_takeWhile_imp
  have isCleaned : blankComments s.inComment physical = (physical, false) := by
    rw [continued.outside, commentless]
  unfold Scan.step
  simp only [isCleaned]
  have moved : ({ s with inComment := false } : Scan).Continued :=
    ⟨rfl, continued.found, continued.pending⟩
  split
  · rename_i opened isOpened
    exact moved.continueLine (continued.pending opened isOpened) number _ _
  · rename_i closed
    have split : blankComments false
        ((trimEnd physical).takeWhile isBlank ++ trimStart (trimEnd physical) ++ tail) =
          ((trimEnd physical).takeWhile isBlank ++ trimStart (trimEnd physical) ++ tail, false) := by
      rw [inner, ← whole]
      exact commentless
    exact moved.startLine closed blankGap split number _

theorem Continued.run
    {s : Scan}
    (continued : s.Continued)
    (number : Nat)
    {lines : List (List Char)}
    (commentless : ∀ line ∈ lines, blankComments false line = (line, false)) :
    (s.run number lines).Continued := by
  induction lines generalizing s number with
  | nil => exact continued
  | cons line rest inductionHypothesis =>
    obtain ⟨here, later⟩ := List.forall_mem_cons.1 commentless
    exact inductionHypothesis (continued.step number here) (number + 1) later

end Scan

/-- A line that goes on has a head that asks for more. -/
theorem scanLines_continued
    {text : List Char}
    {lines : List Line}
    (scanned : scanLines text = .ok lines)
    {line : Line}
    (isLine : line ∈ lines)
    (hasTail : line.tail ≠ []) :
    line.Continued := by
  have continued : (Scan.initial.run 1 (physicalLines (withoutComments text))).Continued :=
    Scan.initial_continued.run 1 (physicalLines_commentless text)
  have all : (Scan.initial.run 1 (physicalLines (withoutComments text))).All
      fun line => line.tail ≠ [] → line.Continued :=
    ⟨continued.found, fun opened isOpened _ => continued.pending opened isOpened⟩
  rw [← scanLines_withoutComments] at scanned
  exact all.finish scanned line isLine hasTail

/-! ## The first token of a value -/

/-- Signs at which a line could go on or a comment start. -/
def openingSigns : List Char :=
  marks ++ [',', '/']

/-- A text in which nothing is open and no comment starts. -/
def Inert (text : List Char) : Prop :=
  ∀ c ∈ text, c ∉ openingSigns

theorem Inert.append
    {left right : List Char}
    (lefts : Inert left)
    (rights : Inert right) :
    Inert (left ++ right) := by
  intro c isIn
  rcases List.mem_append.1 isIn with isLeft | isRight
  · exact lefts c isLeft
  · exact rights c isRight

/-- A text of characters that are no opening signs. -/
theorem Inert.of_all
    {p : Char → Bool}
    (excludes : ∀ c ∈ openingSigns, p c = false)
    {text : List Char}
    (all : ∀ c ∈ text, p c = true) :
    Inert text := by
  intro c isIn isSign
  have holds := all c isIn
  rw [excludes c isSign] at holds
  cases holds

theorem Inert.of_allBlank
    {text : List Char}
    (blank : AllBlank text) :
    Inert text :=
  .of_all (by decide) blank

theorem Inert.not_asksForMore
    {text : List Char}
    (inert : Inert text) :
    ¬AsksForMore text := by
  rintro (⟨countBraces, isOpen⟩ | isLast)
  · have unmarked : Unmarked text := fun c isIn isMark =>
      inert c isIn (List.mem_append_left _ isMark)
    rw [bracketDepth_of_unmarked unmarked] at isOpen
    exact Int.lt_irrefl 0 isOpen
  · exact inert ',' (List.mem_of_getLast? isLast) (by decide)

theorem Pattern.afterAssign?_sign
    {cs value : List Char}
    (found : afterAssign? cs = some value) :
    ∃ sign ∈ ["?=", ":=", "="], cs = sign.toList ++ value := by
  have kept : ∀ {rest : List Char}, afterAssign?.notEqual rest = some value → rest = value := by
    intro rest known
    unfold afterAssign?.notEqual at known
    split at known
    · cases known
    · exact Option.some.inj known
  unfold afterAssign? at found
  split at found
  · exact ⟨"?=", by decide, by rw [kept found]; rfl⟩
  · exact ⟨":=", by decide, by rw [kept found]; rfl⟩
  · exact ⟨"=", by decide, by rw [kept found]; rfl⟩
  · cases found

/-- What stands before the value of an assignment is inert. -/
theorem Pattern.assignment?_front
    {text name value : List Char}
    (found : assignment? text = some (name, value)) :
    ∃ front, text = front ++ value ∧ Inert front := by
  simp only [assignment?] at found
  split at found
  · cases found
  · obtain ⟨after, read, equal⟩ := Option.map_eq_some_iff.mp found
    cases equal
    obtain ⟨sign, isSign, split⟩ := afterAssign?_sign read
    have inertSign : Inert sign.toList := by
      have all : ∀ sign ∈ ["?=", ":=", "="], ∀ c ∈ sign.toList, c ∉ openingSigns := by decide
      exact all sign isSign
    have inertName : Inert (text.takeWhile isNameChar) :=
      .of_all (by decide) fun c => List.mem_takeWhile_imp
    have inertGap : Inert ((text.dropWhile isNameChar).takeWhile isBlank) :=
      .of_allBlank fun c => List.mem_takeWhile_imp
    refine ⟨_, ?_, (inertName.append inertGap).append inertSign⟩
    rw [List.append_assoc, ← split, List.append_assoc, takeWhile_append_trimStart,
      List.takeWhile_append_dropWhile]

/-- A text without quotes and slashes, so that no comment starts in it and none is hidden. -/
def Quiet (text : List Char) : Prop :=
  ∀ c ∈ text, ¬IsQuote c ∧ c ≠ '/'

theorem Inert.quiet
    {text : List Char}
    (inert : Inert text) :
    Quiet text := by
  intro c isIn
  have notSign := inert c isIn
  refine ⟨?_, fun isSlash => notSign (isSlash ▸ by decide)⟩
  rintro (rfl | rfl)
  · exact notSign (by decide)
  · exact notSign (by decide)

theorem Fillers.quiet
    {text : List Char}
    (fillers : Fillers text) :
    Quiet text := by
  intro c isIn
  rcases fillers c isIn with blank | rfl | rfl | rfl
  · have single : AllBlank [c] := fun d isIn => by rwa [List.mem_singleton.1 isIn]
    exact (Inert.of_allBlank single).quiet c (List.mem_singleton_self c)
  all_goals decide

/-- A comment that starts after quiet text is blanked out. -/
theorem blankFrom_comment_ne
    {front : List Char}
    (quiet : Quiet front)
    (previous : Option Char)
    (rest : List Char) :
    (blankFrom .code previous (front ++ '/' :: '*' :: rest)).1 ≠ front ++ '/' :: '*' :: rest := by
  induction front generalizing previous with
  | nil =>
    rw [List.nil_append, blankFrom_code_cons, if_pos ⟨rfl, rfl⟩]
    intro same
    exact absurd (List.cons.inj same).1 (by decide)
  | cons c others inductionHypothesis =>
    obtain ⟨⟨notQuote, notSlash⟩, later⟩ := List.forall_mem_cons.1 quiet
    rw [List.cons_append, blankFrom_code_cons, if_neg fun opens => notSlash opens.1,
      if_neg fun opens => notSlash opens.1]
    simp only [if_neg notQuote]
    intro same
    exact inductionHypothesis later (some c) (List.cons.inj same).2

/-- A text without tokens is blank unless there is a comment in it. -/
theorem Token.skipGap_eq_nil
    {spaced spacedAfter : Bool}
    {cs : List Char}
    (passed : Token.skipGap spaced cs = .ok ([], spacedAfter)) :
    AllBlank cs ∨ ∃ gap rest, AllBlank gap ∧ cs = gap ++ '/' :: '*' :: rest := by
  induction cs generalizing spaced with
  | nil => exact .inl allBlank_nil
  | cons c rest inductionHypothesis =>
    rw [Token.skipGap_cons] at passed
    by_cases blank : isBlank c = true
    · rw [if_pos blank] at passed
      rcases inductionHypothesis passed with allBlank | ⟨gap, after, blankGap, rfl⟩
      · exact .inl (List.forall_mem_cons.2 ⟨blank, allBlank⟩)
      · exact .inr ⟨c :: gap, after, List.forall_mem_cons.2 ⟨blank, blankGap⟩, rfl⟩
    · rw [if_neg blank] at passed
      split at passed
      · rename_i opens
        simp only [Bool.and_eq_true, beq_iff_eq] at opens
        obtain ⟨rfl, star⟩ := opens
        obtain ⟨after, rfl⟩ := List.head?_eq_some_iff.1 star
        exact .inr ⟨[], after, allBlank_nil, rfl⟩
      · cases passed

/-- The head of a line that goes on has a token of the value. -/
theorem Line.Continued.tokens_ne_nil
    {line : Line}
    (continued : line.Continued)
    {name value : List Char}
    (assigned : Pattern.assignment? line.head.text = some (name, value))
    {number offset : Nat}
    {tokens : List Token}
    (read : tokenize value number offset = .ok tokens) :
    tokens ≠ [] := by
  rintro rfl
  obtain ⟨before, split, inert⟩ := Pattern.assignment?_front assigned
  obtain ⟨spaced, passed⟩ : ∃ spaced, Token.skipGap false value = .ok ([], spaced) := by
    cases tokenizeFrom_tokenizes read with
    | nil passed => exact ⟨_, passed⟩
  rcases Token.skipGap_eq_nil passed with blank | ⟨gap, rest, blank, rfl⟩
  · apply (inert.append (.of_allBlank blank)).not_asksForMore
    rw [← split]
    exact continued.asks
  · obtain ⟨front, back, fillers, commentless⟩ := continued.commentless
    have quiet : Quiet (front ++ (before ++ gap)) :=
      List.forall_mem_append.2 ⟨fillers.quiet, (inert.append (.of_allBlank blank)).quiet⟩
    have same : (blankFrom .code none (front ++ line.head.text ++ back)).1 =
        front ++ line.head.text ++ back := congrArg Prod.fst commentless
    apply blankFrom_comment_ne quiet none (rest ++ back)
    simpa only [split, List.append_assoc, List.cons_append] using same

/-- The value of an assignment starts on the line of its name. -/
theorem Line.placeOf_value
    {line : Line}
    (continued : line.tail ≠ [] → line.Continued)
    {name value : List Char}
    (assigned : Pattern.assignment? line.head.text = some (name, value))
    {tokens : List Token}
    (read : line.tokensOf value = .ok tokens) :
    (Expression.placeOf (line.placeOf value) tokens).line = line.head.line := by
  obtain ⟨here, later, readHere, readLater, rfl⟩ := fragmentTokens_ok read
  cases here with
  | cons token rest =>
    have shows := (tokenize_shows readHere token (List.mem_cons_self ..)).shows
    exact shows.bounds.1
  | nil =>
    cases tail : line.tail with
    | cons next others =>
      have isContinued := continued (by rw [tail]; exact List.cons_ne_nil _ _)
      exact absurd rfl (isContinued.tokens_ne_nil assigned readHere)
    | nil =>
      rw [tail] at readLater
      cases readLater
      rfl

end StyleSense
