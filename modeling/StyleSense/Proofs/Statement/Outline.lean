import StyleSense.Proofs.Line.Body
import StyleSense.Proofs.Statement.Relocation

/-!
Contract: rule bodies on one line and by indentation.

A rule is written with its body in braces on the line of its header, or with every text on a line of
its own under it. The reader of lines counts open braces in the first form and the nesting of lines
goes by blanks in the second, so both are compared with the same list: the texts of the rule from top
to bottom, each with the number of bodies around it.

Owns:
- `RuleItem`, a tree of rules and declarations, `RuleItem.inline` and `RuleItem.indented`, its two
  forms;
- `RuleItem.splitStatements_inline` and `RuleItem.scanLines_indented`, the lines of each form;
- `RuleItem.parse_inline_eq_indented`: both forms are read as the same tree up to places, or both have
  a fault.

Does not own: braces at the end of a header line over an indented body
(`StyleSense.Proofs.Statement.Braces`).
-/

namespace StyleSense

open Text

/-- A text that is one statement on its line, on which no line ends. -/
structure IsPlainText (text : List Char) : Prop extends IsStatementText text where
  oneLine : '\n' ∉ text

instance (text : List Char) : Decidable (IsPlainText text) :=
  decidable_of_iff (IsStatementText text ∧ '\n' ∉ text)
    ⟨fun both => ⟨both.1, both.2⟩, fun isPlain => ⟨isPlain.toIsStatementText, isPlain.oneLine⟩⟩

/-- A text after `unit` blanks for every body around it. -/
def NestedText.indented (unit : Nat) (nested : NestedText) : List Char :=
  blanks (unit * nested.depth) ++ nested.text

/-- A declaration with its text, or a rule with its header and body. -/
inductive RuleItem where
  | declaration (text : List Char)
  | rule (header : List Char) (items : List RuleItem)

namespace RuleItem

mutual

/-- The texts of an item from top to bottom, in `depth` bodies. -/
def nestedTexts (depth : Nat) : RuleItem → List NestedText
  | declaration text => [⟨depth, text⟩]
  | rule header items => ⟨depth, header⟩ :: listNestedTexts (depth + 1) items

/-- The texts of some items from top to bottom, in `depth` bodies. -/
def listNestedTexts (depth : Nat) : List RuleItem → List NestedText
  | [] => []
  | item :: rest => item.nestedTexts depth ++ listNestedTexts depth rest

end

/-! ## The two forms -/

/-- What stands after an item in a body that is written on one line: a semicolon, which the last item
has only if `closed`, and a blank. -/
def separator (closed isLast : Bool) : List Char :=
  if isLast && !closed then [' '] else [';', ' ']

mutual

/-- An item on one line: a rule of the header `a` with the items `b` and `c` is `a { b; c }`. -/
def inline (closed : Bool) : RuleItem → List Char
  | declaration text => text
  | rule header items => header ++ ([' '] ++ (['\x7b', ' '] ++ inlineItems closed items))

/-- The items of a body on one line up to its closing brace. -/
def inlineItems (closed : Bool) : List RuleItem → List Char
  | [] => ['\x7d']
  | item :: rest => item.inline closed ++ (separator closed rest.isEmpty ++ inlineItems closed rest)

end

/-- An item with one line for each text, indented by `unit` blanks for every body around it. -/
def indented (unit : Nat) (item : RuleItem) : List Char :=
  ['\n'].intercalate ((item.nestedTexts 0).map (NestedText.indented unit))

/-- Every text of an item is plain. -/
def IsPlain (depth : Nat) (item : RuleItem) : Prop :=
  ∀ line ∈ item.nestedTexts depth, IsPlainText line.text

instance (depth : Nat) (item : RuleItem) : Decidable (item.IsPlain depth) :=
  inferInstanceAs (Decidable (∀ line ∈ item.nestedTexts depth, IsPlainText line.text))

/-- Every text of some items is plain. -/
def ListIsPlain (depth : Nat) (items : List RuleItem) : Prop :=
  ∀ line ∈ listNestedTexts depth items, IsPlainText line.text

theorem isPlain_rule
    {depth : Nat}
    {header : List Char}
    {items : List RuleItem} :
    (rule header items).IsPlain depth ↔ IsPlainText header ∧ ListIsPlain (depth + 1) items := by
  rw [IsPlain, nestedTexts, List.forall_mem_cons]
  rfl

theorem listIsPlain_cons
    {depth : Nat}
    {item : RuleItem}
    {rest : List RuleItem} :
    ListIsPlain depth (item :: rest) ↔ item.IsPlain depth ∧ ListIsPlain depth rest := by
  rw [ListIsPlain, listNestedTexts, List.forall_mem_append]
  rfl

/-! ## The statements of the one line -/

section Statements

open Splitter

variable (closed : Bool)

/-- A separator ends the statement before it, unless the closing brace will. -/
theorem reads_separator
    {depth : Nat}
    {text : List Char}
    {rest : List RuleItem}
    (body : Reads (Within (depth + 1) []) (inlineItems closed rest)
      (listNestedTexts (depth + 1) rest) (Within depth [])) :
    Reads (Within (depth + 1) text) (separator closed rest.isEmpty ++ inlineItems closed rest)
      (NestedText.unlessEmpty (depth + 1) text ++ listNestedTexts (depth + 1) rest)
      (Within depth []) := by
  unfold separator
  split
  · rename_i isLast
    have noMore : rest = [] := by
      simp only [Bool.and_eq_true, List.isEmpty_iff] at isLast
      exact isLast.1
    subst noMore
    rw [listNestedTexts, List.append_nil, inlineItems]
    exact (reads_blank.weaken fun s known => known.1).append reads_closing
  · exact reads_semicolon.append body

mutual

/-- The statements of an item are its texts. The last of them ends with the item only if it is the
header of a rule or inside one. -/
theorem inline_reads
    (depth : Nat)
    (item : RuleItem)
    (plain : item.IsPlain depth) :
    ∃ texts text, Reads (Within depth []) (item.inline closed) texts (Within depth text) ∧
      texts ++ NestedText.unlessEmpty depth text = item.nestedTexts depth := by
  cases item with
  | declaration text =>
    have isPlain : IsPlainText text := plain ⟨depth, text⟩ (List.mem_singleton.mpr rfl)
    refine ⟨[], text, reads_text isPlain.unmarked isPlain.whole isPlain.trimmed, ?_⟩
    rw [NestedText.unlessEmpty, if_neg (by simpa using isPlain.nonempty), nestedTexts]
    rfl
  | rule header items =>
    obtain ⟨isPlain, inner⟩ := isPlain_rule.mp plain
    refine ⟨_, [], ?_, List.append_nil _⟩
    rw [inline, nestedTexts]
    have head : Reads (Within depth []) header [] (Within depth header) :=
      reads_text isPlain.unmarked isPlain.whole isPlain.trimmed
    have body := (reads_opening isPlain.nonempty).append (inlineItems_reads depth items inner)
    exact head.append (reads_blank.append body)

theorem inlineItems_reads
    (depth : Nat)
    (items : List RuleItem)
    (plain : ListIsPlain (depth + 1) items) :
    Reads (Within (depth + 1) []) (inlineItems closed items) (listNestedTexts (depth + 1) items)
      (Within depth []) := by
  cases items with
  | nil =>
    rw [inlineItems, listNestedTexts]
    exact reads_closing
  | cons item rest =>
    obtain ⟨first, others⟩ := listIsPlain_cons.mp plain
    obtain ⟨texts, text, reads, whole⟩ := inline_reads (depth + 1) item first
    rw [inlineItems, listNestedTexts, ← whole, List.append_assoc]
    exact reads.append (reads_separator closed (inlineItems_reads depth rest others))

end

/-- The statements of an item that is written on one line are its texts. -/
theorem splitStatements_inline
    {item : RuleItem}
    (plain : item.IsPlain 0) :
    (splitStatements (item.inline closed)).map Piece.nested = item.nestedTexts 0 := by
  obtain ⟨texts, text, reads, whole⟩ := inline_reads closed 0 item plain
  obtain ⟨t, index, within, same⟩ := reads Splitter.initial Splitter.initial_within 0 []
  rw [List.append_nil, within.nestedTexts_nil, whole] at same
  exact same

end Statements

/-! ## The one line -/

section Line

variable (closed : Bool)

/-- The signs of a body that is written on one line. -/
def bodySigns : List Char :=
  [' ', ';', '\x7b', '\x7d']

theorem separator_signs (isLast : Bool) : ∀ c ∈ separator closed isLast, c ∈ bodySigns := by
  cases closed <;> cases isLast <;> decide

mutual

/-- What holds of the characters of the texts and of the signs between them holds of the line. -/
theorem inline_forall
    {holds : Char → Prop}
    (signs : ∀ c ∈ bodySigns, holds c)
    (depth : Nat)
    (item : RuleItem)
    (texts : ∀ line ∈ item.nestedTexts depth, ∀ c ∈ line.text, holds c) :
    ∀ c ∈ item.inline closed, holds c := by
  cases item with
  | declaration text => exact texts ⟨depth, text⟩ (List.mem_singleton.mpr rfl)
  | rule header items =>
    rw [nestedTexts, List.forall_mem_cons] at texts
    have blank : holds ' ' := signs ' ' (by decide)
    have brace : holds '\x7b' := signs '\x7b' (by decide)
    have body := inlineItems_forall signs (depth + 1) items texts.2
    rw [inline, List.forall_mem_append, List.forall_mem_append, List.forall_mem_append]
    exact ⟨texts.1, by simpa using blank, by simp [blank, brace], body⟩

theorem inlineItems_forall
    {holds : Char → Prop}
    (signs : ∀ c ∈ bodySigns, holds c)
    (depth : Nat)
    (items : List RuleItem)
    (texts : ∀ line ∈ listNestedTexts depth items, ∀ c ∈ line.text, holds c) :
    ∀ c ∈ inlineItems closed items, holds c := by
  cases items with
  | nil =>
    rw [inlineItems, List.forall_mem_singleton]
    exact signs '\x7d' (by decide)
  | cons item rest =>
    rw [listNestedTexts, List.forall_mem_append] at texts
    rw [inlineItems, List.forall_mem_append, List.forall_mem_append]
    exact ⟨inline_forall signs depth item texts.1,
      fun c isIn => signs c (separator_signs closed _ c isIn), inlineItems_forall signs depth rest texts.2⟩

end

mutual

/-- No comment starts between the texts. -/
theorem inline_commentless
    (depth : Nat)
    (item : RuleItem)
    (plain : item.IsPlain depth) :
    Commentless (item.inline closed) := by
  cases item with
  | declaration text => exact (plain ⟨depth, text⟩ (List.mem_singleton.mpr rfl)).commentless
  | rule header items =>
    obtain ⟨isPlain, inner⟩ := isPlain_rule.mp plain
    have body := inlineItems_commentless (depth + 1) items inner
    have opening : Commentless ([' '] ++ (['\x7b', ' '] ++ inlineItems closed items)) :=
      (show Commentless [' ', '\x7b', ' '] from by decide).append body (.inl (by decide))
    exact isPlain.commentless.append opening (.inr (by simp))

theorem inlineItems_commentless
    (depth : Nat)
    (items : List RuleItem)
    (plain : ListIsPlain depth items) :
    Commentless (inlineItems closed items) := by
  cases items with
  | nil =>
    rw [inlineItems]
    decide
  | cons item rest =>
    obtain ⟨first, others⟩ := listIsPlain_cons.mp plain
    have later := inlineItems_commentless depth rest others
    have apart : Commentless (separator closed rest.isEmpty ++ inlineItems closed rest) := by
      refine Commentless.append ?_ later (.inl ?_)
      · cases closed <;> cases rest.isEmpty <;> decide
      · cases closed <;> cases rest.isEmpty <;> decide
    refine (inline_commentless depth item first).append apart (.inr ?_)
    cases closed <;> cases rest.isEmpty <;> simp [separator]

end

theorem exists_inlineItems (items : List RuleItem) :
    ∃ inside, inlineItems closed items = inside ++ ['\x7d'] := by
  induction items with
  | nil => exact ⟨[], rfl⟩
  | cons item rest inductionHypothesis =>
    obtain ⟨inside, whole⟩ := inductionHypothesis
    rw [inlineItems, whole]
    exact ⟨_, by rw [← List.append_assoc, ← List.append_assoc]⟩

theorem inline_getLast?
    (header : List Char)
    (items : List RuleItem) :
    ((rule header items).inline closed).getLast? = some '\x7d' := by
  obtain ⟨inside, whole⟩ := exists_inlineItems closed items
  rw [inline, whole, ← List.append_assoc, ← List.append_assoc, ← List.append_assoc,
    List.getLast?_concat]

variable {header : List Char} {items : List RuleItem} (plain : (rule header items).IsPlain 0)

include plain

theorem inline_head? : ((rule header items).inline closed).head? = header.head? := by
  rw [inline, List.head?_append_of_ne_nil _ (isPlain_rule.mp plain).1.nonempty]

theorem inline_trimmed :
    trim ((rule header items).inline closed) = (rule header items).inline closed := by
  refine trim_eq_self_iff.mpr ⟨?_, ?_⟩
  · rw [inline_head? closed plain]
    exact (trim_eq_self_iff.mp (isPlain_rule.mp plain).1.trimmed).1
  · intro c isLast
    rw [inline_getLast?] at isLast
    obtain rfl : '\x7d' = c := by simpa using isLast
    decide

theorem inline_physicalLines :
    physicalLines ((rule header items).inline closed) = [(rule header items).inline closed] := by
  have noEnd : ∀ c ∈ (rule header items).inline closed, c ≠ '\n' :=
    inline_forall closed (by decide) 0 _ fun line isLine c isIn same =>
      (plain line isLine).oneLine (same ▸ isIn)
  have noReturn : ((rule header items).inline closed).getLast? ≠ some '\r' := by
    rw [inline_getLast?]
    decide
  rw [physicalLines, List.splitOn_eq_singleton fun isIn => noEnd _ isIn rfl, List.map_singleton,
    dropSuffix_of_getLast?_ne noReturn]

theorem inline_bracketDepth : bracketDepth false ((rule header items).inline closed) = 0 := by
  refine bracketDepth_eq_zero (inline_forall closed (by decide) 0 _ ?_)
  intro line isLine c isIn isMark
  exact absurd isMark ((plain line isLine).unmarked c isIn)

/-- A rule on one line starts a logical line that is cut into its statements, unless its header
assigns a value. -/
theorem scanLines_inline
    (notValue : isValueLine header = false) :
    scanLines ((rule header items).inline closed) =
      .ok (⟨0, ⟨1, 0, (rule header items).inline closed⟩, []⟩ : Line).split := by
  obtain ⟨isPlain, inner⟩ := isPlain_rule.mp plain
  have noValue : isValueLine ((rule header items).inline closed) = false := by
    rw [← notValue, inline]
    exact isValueLine_append (show AllBlank [' '] by decide) (.inr rfl) header _
  have notCss : ¬"@css".toList <+: (rule header items).inline closed := by
    rw [inline, prefix_append_of_stop (by simp)]
    exact isPlain.notCss
  have notClosing : ((rule header items).inline closed).head? ≠ some '\x7d' := by
    rw [inline_head? closed plain]
    exact fun isFirst => isPlain.unmarked _ (List.mem_of_head? isFirst) (by decide)
  have unquoted : ∀ c ∈ (rule header items).inline closed, ¬IsQuote c :=
    inline_forall closed (by decide) 0 _ fun line isLine => (plain line isLine).unmarked.unquoted
  have nonempty : (rule header items).inline closed ≠ [] := by
    rw [inline]
    exact List.append_ne_nil_of_left_ne_nil isPlain.nonempty _
  have trimmed := inline_trimmed closed plain
  have commentless := inline_commentless closed 0 _ plain
  have balanced := inline_bracketDepth closed plain
  have last := inline_getLast? closed header items
  rw [scanLines, inline_physicalLines closed plain]
  generalize (rule header items).inline closed = text at *
  have step : Scan.initial.step 1 ([] ++ text ++ []) = Scan.initial.startLine 1 (width []) text :=
    Scan.step_atRest Scan.initial_atRest (by simpa using commentless) (by simpa using unquoted)
      allBlank_nil allBlank_nil trimmed nonempty 1
  have starts := Scan.startLine_complete Scan.initial_atRest nonempty trimmed notClosing
    (by simp [last]) (by simp [last]) (by simp [last]) (by rw [noValue, balanced]) notCss 1 0
  rw [List.nil_append, List.append_nil] at step
  rw [Scan.run, Scan.run, step, width_nil, starts, noValue]
  simp [Scan.finish, Scan.initial]

end Line

/-! ## Lines of texts -/

/-- A line that is a text, indented by `unit` blanks for every body around it. -/
structure Stands (unit : Nat) (nested : NestedText) (line : Line) : Prop where
  indent : line.indent = unit * nested.depth
  text : line.head.text = nested.text
  known : line.head.line ≠ 0
  single : line.tail = []

/-- The lines of a rule on one line are indented by one for every body. -/
theorem stands_inline
    (closed : Bool)
    {item : RuleItem}
    (plain : item.IsPlain 0) :
    List.Forall₂ (Stands 1) (item.nestedTexts 0)
      (⟨0, ⟨1, 0, item.inline closed⟩, []⟩ : Line).split := by
  rw [← splitStatements_inline closed plain, Line.split, List.forall₂_map_left_iff,
    List.forall₂_map_right_iff]
  refine List.forall₂_same.mpr fun piece _ => ⟨?_, rfl, Nat.one_ne_zero, rfl⟩
  rw [Nat.one_mul, Nat.zero_add]
  rfl

/-- Plain texts on lines of their own are logical lines of their own. -/
theorem run_indented
    (unit : Nat)
    {texts : List NestedText}
    (plain : ∀ nested ∈ texts, IsPlainText nested.text)
    {s : Scan}
    (atRest : s.AtRest)
    {number : Nat}
    (known : number ≠ 0) :
    ∃ lines, List.Forall₂ (Stands unit) texts lines ∧
      s.run number (texts.map (NestedText.indented unit)) =
        { s with found := lines.reverse ++ s.found } := by
  induction texts generalizing s number with
  | nil => exact ⟨[], .nil, rfl⟩
  | cons nested rest inductionHypothesis =>
    obtain ⟨first, others⟩ := List.forall_mem_cons.mp plain
    let line : Line := ⟨unit * nested.depth, ⟨number, unit * nested.depth, nested.text⟩, []⟩
    have step := Scan.step_statementText atRest (allBlank_blanks (unit * nested.depth))
      first.toIsStatementText number
    rw [width_blanks] at step
    have restAfter : ({ s with found := line :: s.found } : Scan).AtRest :=
      ⟨atRest.notComment, atRest.notPending, atRest.notRaw⟩
    obtain ⟨lines, stands, run⟩ := inductionHypothesis others restAfter (Nat.succ_ne_zero number)
    refine ⟨line :: lines, .cons ⟨rfl, rfl, known, rfl⟩ stands, ?_⟩
    rw [List.map_cons, Scan.run, NestedText.indented, step, run, List.reverse_cons, List.append_assoc]
    rfl

/-- The physical lines of an item that is written by indentation. -/
theorem physicalLines_indented
    (unit : Nat)
    {item : RuleItem}
    (plain : item.IsPlain 0) :
    physicalLines (item.indented unit) = (item.nestedTexts 0).map (NestedText.indented unit) := by
  have noEnd : ∀ line ∈ (item.nestedTexts 0).map (NestedText.indented unit), '\n' ∉ line := by
    intro line isLine isIn
    obtain ⟨nested, isNested, rfl⟩ := List.mem_map.mp isLine
    rcases List.mem_append.mp isIn with inGap | inText
    · exact absurd (List.eq_of_mem_replicate inGap) (by decide)
    · exact (plain nested isNested).oneLine inText
  have nonempty : (item.nestedTexts 0).map (NestedText.indented unit) ≠ [] := by
    cases item <;> simp [nestedTexts]
  rw [physicalLines, indented, List.splitOn_intercalate '\n' noEnd nonempty]
  refine (List.map_congr_left fun line isLine => ?_).trans (List.map_id _)
  obtain ⟨nested, isNested, rfl⟩ := List.mem_map.mp isLine
  have isPlain := plain nested isNested
  apply dropSuffix_of_getLast?_ne
  rw [NestedText.indented, List.getLast?_append_of_ne_nil _ isPlain.nonempty]
  intro isLast
  exact absurd ((trim_eq_self_iff.mp isPlain.trimmed).2 _ isLast) (by decide)

/-- The logical lines of an item that is written by indentation are its texts. -/
theorem scanLines_indented
    (unit : Nat)
    {item : RuleItem}
    (plain : item.IsPlain 0) :
    ∃ lines, scanLines (item.indented unit) = .ok lines ∧
      List.Forall₂ (Stands unit) (item.nestedTexts 0) lines := by
  obtain ⟨lines, stands, run⟩ := run_indented unit plain Scan.initial_atRest Nat.one_ne_zero
  refine ⟨lines, ?_, stands⟩
  rw [scanLines, physicalLines_indented unit plain, run]
  simp [Scan.finish, Scan.initial]

/-! ## Both forms -/

/-- Lines of one text, the first indented by one blank for every body and the second by `unit`. -/
def Counterparts (unit : Nat) (line line' : Line) : Prop :=
  ∃ nested : NestedText, IsPlainText nested.text ∧ Stands 1 nested line ∧ Stands unit nested line'

theorem counterparts_of_stands
    {unit : Nat}
    {texts : List NestedText}
    (plain : ∀ nested ∈ texts, IsPlainText nested.text)
    {lines lines' : List Line}
    (first : List.Forall₂ (Stands 1) texts lines)
    (second : List.Forall₂ (Stands unit) texts lines') :
    List.Forall₂ (Counterparts unit) lines lines' := by
  induction first generalizing lines' with
  | nil =>
    cases second
    exact .nil
  | cons here _ inductionHypothesis =>
    obtain ⟨isPlain, others⟩ := List.forall_mem_cons.mp plain
    cases second with
    | cons here' later' => exact .cons ⟨_, isPlain, here, here'⟩ (inductionHypothesis others later')

theorem Counterparts.relocated
    {unit : Nat}
    {line line' : Line}
    (lines : Counterparts unit line line') :
    line.Relocated line' := by
  obtain ⟨nested, isPlain, here, here'⟩ := lines
  exact ⟨here.text.trans here'.text.symm, here.text ▸ isPlain.notCss, here.known, here'.known,
    here.single, here'.single⟩

theorem keepsOrder_counterparts
    {unit : Nat}
    (indents : 0 < unit) :
    LineTree.KeepsOrder (Counterparts unit) := by
  rintro line line' other other' ⟨_, _, here, here'⟩ ⟨_, _, there, there'⟩
  rw [here.indent, there.indent, here'.indent, there'.indent, Nat.one_mul, Nat.one_mul,
    Nat.mul_lt_mul_left indents]

/-- A rule means the same with its body on the line of its header and with every text on a line of its
own, indented by the number of bodies around it. The line of an assignment of a value is kept whole, so
the header must not assign a value; one that is no assignment never does. -/
theorem parse_inline_eq_indented
    {header : List Char}
    {items : List RuleItem}
    (plain : (rule header items).IsPlain 0)
    (notValue : isValueLine header = false)
    (closed : Bool)
    {unit : Nat}
    (indents : 0 < unit) :
    (Node.parse ((rule header items).inline closed)).toOption.map Node.unplaced =
      (Node.parse ((rule header items).indented unit)).toOption.map Node.unplaced := by
  have scanned := scanLines_inline closed plain notValue
  obtain ⟨lines, scanned', stands⟩ := scanLines_indented unit plain
  have pairs := counterparts_of_stands plain (stands_inline closed plain) stands
  exact Node.parse_relocated Counterparts.relocated (keepsOrder_counterparts indents) scanned scanned'
    pairs

theorem parse_inline_eq_indented_nested :
    (rule "a".toList [rule "b".toList [], rule "@media c".toList [declaration "color d".toList],
        declaration "$e = f".toList]).IsPlain 0 ∧
      isValueLine "a".toList = false ∧ 0 < 2 ∧
      (Node.parse "a { b { }; @media c { color d }; $e = f }".toList).toOption.map Node.unplaced =
        (Node.parse "a\n  b\n  @media c\n    color d\n  $e = f".toList).toOption.map
          Node.unplaced := by
  have plain : (rule "a".toList [rule "b".toList [],
      rule "@media c".toList [declaration "color d".toList],
      declaration "$e = f".toList]).IsPlain 0 := by
    decide +kernel
  have notValue : isValueLine "a".toList = false := by decide
  have same := parse_inline_eq_indented plain notValue false Nat.two_pos
  have inlined : inline false (rule "a".toList [rule "b".toList [],
      rule "@media c".toList [declaration "color d".toList], declaration "$e = f".toList]) =
      "a { b { }; @media c { color d }; $e = f }".toList := by
    decide
  have indented : indented 2 (rule "a".toList [rule "b".toList [],
      rule "@media c".toList [declaration "color d".toList], declaration "$e = f".toList]) =
      "a\n  b\n  @media c\n    color d\n  $e = f".toList := by
    decide
  rw [inlined, indented] at same
  exact ⟨plain, notValue, Nat.two_pos, same⟩

end RuleItem

end StyleSense
