import StyleSense.Node.Equality
import StyleSense.Proofs.Line.Ending
import StyleSense.Proofs.Selector.Header
import StyleSense.Proofs.Selector.Part
import StyleSense.Proofs.Statement.Braces
import StyleSense.Proofs.Statement.Inline
import StyleSense.Proofs.Statement.Standing

/-!
Contract: selectors reproduce their source.

Owns:
- `Selector.Written`: the source of a selector stands at its place in the text with the comments
  blanked out, and the segments of the selector spell it;
- `Line.selectors_reads`: the selectors of a rule header are read from its parts in order;
- `parse_selectors_written`: every selector in the tree of a text is written so, and those of a rule
  are the parts of its header. Where the header has quoted brackets, or brackets that are open at
  the end of a line, these are not always the parts between the commas at top level.

Does not own: the texts between commas (`StyleSense.Proofs.Selector.Part`).
-/

namespace StyleSense

open Text

/-- The selector is read from the source, which stands at the place of the selector. -/
structure Selector.Written (text : List Char) (head : Selector) (source : List Char) : Prop where
  line : 0 < head.pos.line
  column : 0 < head.pos.column
  stands : ∃ cleaned, (physicalLines (withoutComments text))[head.pos.line - 1]? = some cleaned ∧
    StandsAt source (head.pos.column - 1) cleaned
  spells : Segment.ListSpells head.pos.line (head.pos.column - 1) head.segments source
  alternate : Segment.Alternate head.segments

namespace Line

/-- The text of a line, which may go on over several physical lines. -/
def text (line : Line) : List Char :=
  ['\n'].intercalate (line.fragments.map Fragment.text)

/-- The parts of a rule header as they are counted on each physical line. -/
def countedParts (line : Line) : List (List Char) :=
  line.fragments.flatMap fun fragment => commaParts isCountedOut fragment.text

/-- The parts of the fragments of a header with their offsets. -/
def placedParts (fragments : List Fragment) : List (Fragment × Nat × List Char) :=
  fragments.flatMap fun fragment => (splitSelectors fragment.text).map (Prod.mk fragment)

/-- Where a part of a fragment starts. -/
def partPos (placed : Fragment × Nat × List Char) : SourcePos :=
  ⟨placed.1.line, placed.1.offset + placed.2.1 + 1⟩

/-- The selector is read from a part of a header. -/
structure Reads (head : Selector) (placed : Fragment × Nat × List Char) : Prop where
  pos : head.pos = partPos placed
  segments : readSegments placed.2.2 placed.1.line (placed.1.offset + placed.2.1) =
    .ok head.segments

theorem selectorsOf_reads
    (fragment : Fragment)
    (parts : List (Nat × List Char)) :
    Gives (fun heads => List.Forall₂ Reads heads (parts.map (Prod.mk fragment)))
      (selectorsOf fragment parts) := by
  induction parts with
  | nil => exact .ok .nil
  | cons first rest inductionHypothesis =>
    refine Gives.bind fun segments read => Gives.bind fun others readOthers => .ok ?_
    exact .cons ⟨rfl, read⟩ (inductionHypothesis others readOthers)

/-- The selectors of a rule header are read from its parts in order. -/
theorem selectors_reads (fragments : List Fragment) :
    Gives (fun heads => List.Forall₂ Reads heads (placedParts fragments))
      (selectors fragments) := by
  induction fragments with
  | nil => exact .ok .nil
  | cons fragment rest inductionHypothesis =>
    refine Gives.bind fun here readHere => Gives.bind fun later readLater => .ok ?_
    exact List.rel_append (selectorsOf_reads fragment _ here readHere)
      (inductionHypothesis later readLater)

theorem placedParts_texts (line : Line) :
    (placedParts line.fragments).map (fun placed => placed.2.2) = line.countedParts := by
  simp only [placedParts, countedParts, List.map_flatMap, List.map_map,
    ← splitSelectors_eq_commaParts]
  rfl

/-- Parts of fragments that are in order are in order. -/
theorem placedParts_ordered
    {fragments : List Fragment}
    (ordered : fragments.Pairwise Fragment.Before) :
    (placedParts fragments).Pairwise fun left right => (partPos left).Before (partPos right) := by
  refine List.pairwise_flatMap.mpr ⟨fun fragment _ => ?_, ordered.imp fun {left right} before => ?_⟩
  · rw [List.pairwise_map]
    refine (splitSelectors_ordered fragment.text).imp fun less => .inr ⟨rfl, ?_⟩
    simp only [partPos]
    omega
  · intro first isFirst second isSecond
    obtain ⟨part, isPart, rfl⟩ := List.mem_map.mp isFirst
    obtain ⟨other, _, rfl⟩ := List.mem_map.mp isSecond
    refine before.imp_right fun ⟨sameLine, ends⟩ => ⟨sameLine, ?_⟩
    have inside := (splitSelectors_standsAt left.text part isPart).width_le
    have isText : part.2 ∈ commaParts isCountedOut left.text := by
      rw [← splitSelectors_eq_commaParts]
      exact List.mem_map_of_mem isPart
    have positive : 0 < width part.2 := by
      obtain ⟨c, rest, whole⟩ := List.exists_cons_of_ne_nil (ne_nil_of_mem_commaParts isText)
      rw [whole, width_cons]
      exact Nat.add_pos_left c.utf8Size_pos _
    simp only [partPos]
    omega

/-- Where nothing is open at the end of a physical line and counting is right, the parts of a header
are those between the commas at top level. -/
theorem countedParts_eq
    {line : Line}
    (breaks : line.BreaksAtCommas)
    (closed : line.IsClosed)
    (counts : ∀ fragment ∈ line.fragments, CountsOpen fragment.text) :
    line.countedParts = commaParts isTopLevel line.text := by
  have balanced : ∀ text ∈ line.fragments.map Fragment.text, Leaves text [] :=
    List.forall_mem_map.mpr closed
  have commaEnds : ∀ text ∈ (line.fragments.map Fragment.text).dropLast,
      text.getLast? = some ',' := by
    rw [← List.map_dropLast]
    exact List.forall_mem_map.mpr (breaks closed)
  rw [text, commaParts_isTopLevel_intercalate balanced commaEnds, List.flatMap_map, countedParts]
  exact List.flatMap_congr fun fragment isFragment => (counts fragment isFragment).commaParts_eq

end Line

/-- A selector that is read from a part of a header is written there. -/
theorem Fragment.OnLine.written
    {text raw cleaned : List Char}
    {fragment : Fragment}
    (onLine : fragment.OnLine text raw cleaned)
    {part : Nat × List Char}
    (isPart : part ∈ splitSelectors fragment.text)
    {head : Selector}
    (reads : Line.Reads head (fragment, part)) :
    head.Written text part.2 := by
  obtain ⟨segments, pos⟩ := head
  obtain ⟨rfl, read⟩ := reads
  obtain ⟨spells, alternate⟩ := readSegments_spells _ _ _ segments read
  have stands := (splitSelectors_standsAt fragment.text part isPart).trans onLine.stands
  exact
    { line := onLine.positive
      column := Nat.succ_pos _
      stands := ⟨cleaned, onLine.isCleaned, stands⟩
      spells := spells
      alternate := alternate }

/-- The selectors of a rule header are written in the text, one for each of its parts. -/
theorem Line.selectors_written
    {text : List Char}
    {lines : List Line}
    (scanned : scanLines text = .ok lines)
    {line : Line}
    (isLine : line ∈ lines) :
    Gives
      (fun heads => List.Forall₂ (Selector.Written text) heads line.countedParts ∧
        heads.Pairwise fun left right => left.pos.Before right.pos)
      (selectors line.fragments) := by
  intro heads read
  have reads := selectors_reads line.fragments heads read
  constructor
  · rw [← placedParts_texts, List.forall₂_map_right_iff]
    refine List.forall₂_iff_zip.mpr ⟨reads.length_eq, fun {head placed} isPair => ?_⟩
    obtain ⟨fragment, isFragment, isPlaced⟩ := List.mem_flatMap.mp (List.of_mem_zip isPair).2
    obtain ⟨part, isPart, rfl⟩ := List.mem_map.mp isPlaced
    obtain ⟨raw, cleaned, onLine⟩ := scanLines_onLine scanned isLine isFragment
    exact onLine.written isPart (List.forall₂_zip reads isPair)
  · have places : heads.map Selector.pos = (placedParts line.fragments).map partPos := by
      rw [← List.forall₂_eq_eq_eq, List.forall₂_map_left_iff, List.forall₂_map_right_iff]
      exact reads.imp fun _ _ here => here.pos
    have ordered := (List.pairwise_flatMap.mp (scanLines_ordered scanned)).1 line isLine
    rw [← List.pairwise_map (f := Selector.pos) (R := SourcePos.Before), places, List.pairwise_map]
    exact placedParts_ordered ordered

/-- Selectors reproduce their source. Every selector in the tree of a text is written at its place
where comments are blanked out. The selectors of a rule are written in source order, one for each
part of the header of the rule, and the parts are those between the commas at top level if every
physical line closes its brackets and counting their signs is right at its commas. -/
theorem parse_selectors_written
    {text : List Char}
    {tree : Node}
    (parsed : Node.parse text = .ok tree) :
    (∀ head body, tree.Contains (.selector head body) → ∃ source, head.Written text source) ∧
      ∀ heads body pos, tree.Contains (.rule heads body pos) →
        ∃ lines line, scanLines text = .ok lines ∧ line ∈ lines ∧ line.pos = pos ∧
          List.Forall₂ (Selector.Written text) heads line.countedParts ∧
          (heads.Pairwise fun left right => left.pos.Before right.pos) ∧
          (line.IsClosed → (∀ fragment ∈ line.fragments, CountsOpen fragment.text) →
            line.countedParts = commaParts isTopLevel line.text) := by
  obtain ⟨lines, scanned, headed⟩ := parse_heads parsed
  constructor
  · intro head body contains
    obtain ⟨line, isLine, heading⟩ := headed _ contains rfl
    cases heading with
    | selector _ read isHead =>
      have written := (Line.selectors_written scanned isLine _ read).1
      obtain ⟨index, inBounds, rfl⟩ := List.getElem_of_mem isHead
      exact ⟨_, List.Forall₂.get written inBounds (written.length_eq ▸ inBounds)⟩
  · intro heads body pos contains
    obtain ⟨line, isLine, heading⟩ := headed _ contains rfl
    cases heading with
    | rule _ read =>
      obtain ⟨written, ordered⟩ := Line.selectors_written scanned isLine _ read
      exact ⟨lines, line, scanned, isLine, rfl, written, ordered,
        Line.countedParts_eq (scanLines_breaksAtCommas scanned isLine)⟩

/-- A list over two lines with a comma in brackets. -/
theorem parse_selectors_written_over_lines :
    let text := ".a,\n.b:not(.c, .d)".toList
    ∃ tree heads body, Node.parse text = .ok tree ∧ tree.Contains (.rule heads body ⟨1, 1⟩) ∧
      List.Forall₂ (Selector.Written text) heads [".a".toList, ".b:not(.c, .d)".toList] := by
  intro text
  let line : Line := ⟨0, ⟨1, 0, ".a,".toList⟩, [⟨2, 0, ".b:not(.c, .d)".toList⟩]⟩
  let first : Selector := ⟨[⟨some ".a", 1, []⟩], ⟨1, 1⟩⟩
  let second : Selector := ⟨[⟨some ".b:not(.c, .d)", 2, []⟩], ⟨2, 1⟩⟩
  let block : Node := .wrapper .block [] none ⟨1, 1⟩
  let tree : Node := .wrapper .root [.rule [first, second] block ⟨1, 1⟩] none ⟨1, 1⟩
  have scanned : scanLines text = .ok [line] := by decide
  have parsed : Node.parse text = .ok tree := by decide +kernel
  have contains : tree.Contains (.rule [first, second] block ⟨1, 1⟩) :=
    .single (by simp [tree, Node.parts, Node.nested])
  refine ⟨tree, [first, second], block, parsed, contains, ?_⟩
  obtain ⟨lines, found, again, isFound, _, written, _, whole⟩ :=
    (parse_selectors_written parsed).2 _ _ _ contains
  cases scanned.symm.trans again
  obtain rfl := List.mem_singleton.mp isFound
  have closed : line.IsClosed := by
    simp only [Line.IsClosed, Line.Holds, Line.fragments, line]
    decide
  have counts : ∀ fragment ∈ line.fragments, CountsOpen fragment.text := by
    intro fragment isFragment
    refine .of_unquoted ?_ (closed fragment isFragment).opened
    revert fragment
    simp only [Line.fragments, line]
    decide
  rw [whole closed counts] at written
  exact written

end StyleSense
