import StyleSense.Proofs.Color.Presentation
import StyleSense.Proofs.Line.Literal
import StyleSense.Proofs.Statement.Inline
import StyleSense.Proofs.Swatch.Place

/-!
Contract: every way to write a color is found again as a color.

Owns:
- `ColorText.inlineValue`: such a text is complete on the line of its assignment;
- `ColorText.colors_assigning`: the only color of that line covers the text;
- `Rgba.presentation_read_back`, the same for what a picker offers.

Does not own: whether the color that is found is the one that was written.
-/

namespace StyleSense

open Text

/-! ## Texts between brackets -/

/-- A text that can stand between brackets: no comment starts in it or at its end. -/
structure Calm (cs : List Char) : Prop where
  commentless : Commentless cs
  noSlash : cs.getLast? ≠ some '/'
  unmarked : Unmarked cs
  oneLine : ∀ c ∈ cs, c ≠ '\n' ∧ c ≠ '\r'

theorem Calm.of_notMem
    {cs : List Char}
    (plain : ∀ c ∈ cs, c ∉ '/' :: '\n' :: '\r' :: marks) :
    Calm cs := by
  have noSlash : '/' ∉ cs := fun isIn => plain '/' isIn (by decide)
  refine ⟨.of_slash_notMem noSlash, fun isLast => noSlash (List.mem_of_getLast? isLast), ?_, ?_⟩
  · intro c isIn isMark
    simp only [List.mem_cons, not_or] at plain
    exact (plain c isIn).2.2.2 isMark
  · intro c isIn
    simp only [List.mem_cons, not_or] at plain
    exact ⟨(plain c isIn).2.1, (plain c isIn).2.2.1⟩

theorem Calm.append
    {left right : List Char}
    (lefts : Calm left)
    (rights : Calm right) :
    Calm (left ++ right) := by
  refine ⟨lefts.commentless.append rights.commentless (.inl lefts.noSlash), ?_,
    lefts.unmarked.append rights.unmarked, ?_⟩
  · have noSlash := rights.noSlash
    rw [List.getLast?_append]
    cases last : right.getLast? with
    | none => exact lefts.noSlash
    | some c => rwa [last] at noSlash
  · intro c isIn
    exact (List.mem_append.mp isIn).elim (lefts.oneLine c) (rights.oneLine c)

theorem Calm.flatMap
    {α : Type}
    {xs : List α}
    {f : α → List Char}
    (each : ∀ x, Calm (f x)) :
    Calm (xs.flatMap f) := by
  induction xs with
  | nil => exact .of_notMem (List.forall_mem_nil _)
  | cons x rest inductionHypothesis =>
    rw [List.flatMap_cons]
    exact (each x).append inductionHypothesis

theorem IsNumeral.calm
    {cs : List Char}
    (isNumeral : IsNumeral cs) :
    Calm cs := by
  have digit : ∀ ds : List Char, (∀ d ∈ ds, d.isDigit = true) → Calm ds := by
    intro ds digits
    apply Calm.of_notMem
    intro d isIn isMark
    have noDigit : ∀ mark ∈ '/' :: '\n' :: '\r' :: marks, mark.isDigit = false := by decide
    have isDigit := digits d isIn
    rw [noDigit d isMark] at isDigit
    cases isDigit
  cases isNumeral with
  | whole nonempty digits => exact digit _ digits
  | fraction nonempty digits nonempty' digits' =>
    have point : Calm ['.'] := .of_notMem (by decide)
    exact (digit _ digits).append (point.append (digit _ digits'))

theorem WrittenNumber.calm (number : WrittenNumber) : Calm number.text := by
  refine (Calm.append ?_ number.isNumeral.calm).append ?_
  · split <;> exact .of_notMem (by decide)
  · split <;> exact .of_notMem (by decide)

theorem WrittenTerm.calm (term : WrittenTerm) : Calm term.text := by
  obtain ⟨number, divisor⟩ := term
  refine number.calm.append ?_
  cases divisor with
  | none => exact .of_notMem (List.forall_mem_nil _)
  | some divisor =>
    have slash : Calm " / ".toList := ⟨by decide, by decide, by decide, by decide⟩
    exact slash.append divisor.calm

theorem WrittenArguments.calm (arguments : WrittenArguments) : Calm arguments.text := by
  cases arguments with
  | commas first others =>
    have comma : Calm ", ".toList := .of_notMem (by decide)
    exact first.calm.append (.flatMap fun number => comma.append number.calm)
  | blanks first others =>
    have blank : Calm [' '] := .of_notMem (by decide)
    exact first.calm.append (.flatMap fun term => blank.append term.calm)

theorem calm_constructor
    {name : String}
    (isConstructor : name ∈ Rgba.constructors) :
    Calm name.toList ∧ ∃ c rest, name.toList = c :: rest ∧ isBlank c = false ∧ c ≠ '@' := by
  simp only [Rgba.constructors, List.mem_cons, List.not_mem_nil, or_false] at isConstructor
  rcases isConstructor with rfl | rfl | rfl | rfl | rfl <;>
    exact ⟨.of_notMem (by decide), _, _, rfl, by decide, by decide⟩

/-! ## Complete lines -/

theorem bracketDepth_calm_append
    {cs : List Char}
    (calm : Calm cs)
    (rest : List Char) :
    bracketDepth.go true none (cs ++ rest) = bracketDepth.go true none rest := by
  have noDepth : bracketDepth.go true none cs = 0 := bracketDepth_of_unmarked calm.unmarked true
  rw [bracketDepth_append, noDepth, openQuote_of_unquoted calm.unmarked.unquoted, Int.zero_add]

theorem mem_callText
    {name : String}
    {arguments : WrittenArguments}
    {P : Char → Prop}
    (names : ∀ c ∈ name.toList, P c)
    (opening : P '(')
    (inside : ∀ c ∈ arguments.text, P c)
    (closing : P ')') :
    ∀ c ∈ callText name arguments, P c := by
  intro c isIn
  simp only [callText, List.mem_append, List.mem_cons, List.not_mem_nil, or_false] at isIn
  rcases isIn with isName | rfl | isInside | rfl
  · exact names c isName
  · exact opening
  · exact inside c isInside
  · exact closing

theorem inlineValue_call
    {name : String}
    (isConstructor : name ∈ Rgba.constructors)
    (arguments : WrittenArguments) :
    InlineValue (callText name arguments) := by
  obtain ⟨calmName, c, rest, spelling, solid, notAt⟩ := calm_constructor isConstructor
  have calmInside := arguments.calm
  have head : (callText name arguments).head? = some c := by
    rw [callText, spelling]
    rfl
  have last : (callText name arguments).getLast? = some ')' := by
    rw [callText, List.getLast?_append_cons, ← List.cons_append, List.getLast?_concat]
  constructor
  case nonempty =>
    intro isNil
    rw [isNil] at head
    cases head
  case trimmed =>
    rw [trim_eq_self_iff, head, last]
    refine ⟨?_, ?_⟩
    · rintro _ ⟨⟩
      exact solid
    · rintro _ ⟨⟩
      decide
  case oneLine => exact mem_callText calmName.oneLine (by decide) calmInside.oneLine (by decide)
  case commentless =>
    have opening : Commentless ['('] := by decide
    have closing : Commentless [')'] := by decide
    exact calmName.commentless.append (opening.append
      (calmInside.commentless.append closing (.inl calmInside.noSlash)) (.inl (by decide)))
      (.inl calmName.noSlash)
  case unquoted =>
    exact mem_callText calmName.unmarked.unquoted (by decide) calmInside.unmarked.unquoted
      (by decide)
  case balanced =>
    have opened : ∀ cs, bracketDepth.go true none ('(' :: cs) = bracketDepth.go true none cs + 1 :=
      fun cs => by simp [bracketDepth.go]
    rw [bracketDepth, callText, bracketDepth_calm_append calmName, opened,
      bracketDepth_calm_append calmInside]
    decide
  case complete =>
    rw [last]
    rintro _ ⟨⟩
    decide
  case notAt =>
    rw [head]
    exact fun isAt => notAt (Option.some.inj isAt)

/-! ## Hexadecimal digits -/

/-- A digit as `Hex.write` writes it. -/
def IsHexDigit (c : Char) : Prop :=
  ∃ value < 16, c = Hex.digit value

namespace IsHexDigit

variable {c : Char} (isDigit : IsHexDigit c)

include isDigit

theorem notMem : c ∉ '/' :: '\n' :: '\r' :: marks := by
  obtain ⟨value, small, rfl⟩ := isDigit
  have each : ∀ value ∈ List.range 16, Hex.digit value ∉ '/' :: '\n' :: '\r' :: marks := by decide
  exact each value (List.mem_range.mpr small)

theorem isNameChar : Token.isNameChar c = true := by
  obtain ⟨value, small, rfl⟩ := isDigit
  have each : ∀ value ∈ List.range 16, Token.isNameChar (Hex.digit value) = true := by decide
  exact each value (List.mem_range.mpr small)

theorem ends : isBlank c = false ∧ c ≠ ';' ∧ c ≠ ',' := by
  obtain ⟨value, small, rfl⟩ := isDigit
  have each : ∀ value ∈ List.range 16, isBlank (Hex.digit value) = false ∧
      Hex.digit value ≠ ';' ∧ Hex.digit value ≠ ',' := by decide
  exact each value (List.mem_range.mpr small)

end IsHexDigit

theorem isHexDigit_of_mem_byte
    {value : Nat}
    (isByte : value ≤ 255)
    {c : Char}
    (isIn : c ∈ Hex.byte value) :
    IsHexDigit c := by
  simp only [Hex.byte, List.mem_cons, List.not_mem_nil, or_false] at isIn
  rcases isIn with rfl | rfl
  · exact ⟨value / 16, by omega, rfl⟩
  · exact ⟨value % 16, by omega, rfl⟩

/-- A hash with digits. -/
theorem exists_digits_of_write
    {red green blue : Nat}
    {alpha : Option Nat}
    (isRed : red ≤ 255)
    (isGreen : green ≤ 255)
    (isBlue : blue ≤ 255)
    (isAlpha : ∀ value ∈ alpha, value ≤ 255) :
    ∃ ds, Hex.write red green blue alpha = '#' :: ds ∧ ds ≠ [] ∧ ∀ c ∈ ds, IsHexDigit c := by
  refine ⟨_, rfl, by simp [Hex.byte], fun c isIn => ?_⟩
  rcases List.mem_append.mp isIn with isColor | isAlphaByte
  · rcases List.mem_append.mp isColor with isFront | inBlue
    · rcases List.mem_append.mp isFront with inRed | inGreen
      · exact isHexDigit_of_mem_byte isRed inRed
      · exact isHexDigit_of_mem_byte isGreen inGreen
    · exact isHexDigit_of_mem_byte isBlue inBlue
  · cases alpha with
    | none => cases isAlphaByte
    | some value => exact isHexDigit_of_mem_byte (isAlpha value rfl) isAlphaByte

section Hash

variable {ds : List Char} (nonempty : ds ≠ []) (digits : ∀ c ∈ ds, IsHexDigit c)

include nonempty digits

theorem inlineValue_hash : InlineValue ('#' :: ds) := by
  have calm : Calm ('#' :: ds) := by
    apply Calm.of_notMem
    rintro c isIn
    rcases List.mem_cons.mp isIn with rfl | isLater
    · decide
    · exact (digits c isLater).notMem
  have last : ∀ c ∈ ('#' :: ds).getLast?, IsHexDigit c := by
    intro c isLast
    obtain ⟨d, rest, rfl⟩ := List.exists_cons_of_ne_nil nonempty
    rw [List.getLast?_cons_cons] at isLast
    exact digits c (List.mem_of_getLast? isLast)
  constructor
  case nonempty => exact List.cons_ne_nil _ _
  case trimmed =>
    refine trim_eq_self_iff.mpr ⟨?_, fun c isLast => (last c isLast).ends.1⟩
    rintro _ ⟨⟩
    decide
  case oneLine => exact calm.oneLine
  case commentless => exact calm.commentless
  case unquoted => exact calm.unmarked.unquoted
  case balanced => exact bracketDepth_of_unmarked calm.unmarked true
  case complete => exact fun c isLast => (last c isLast).ends.2
  case notAt => exact fun isAt => nomatch isAt

omit nonempty in
theorem lexes_hash : Lexes (' ' :: '#' :: ds) [(.hash (String.ofList ('#' :: ds)), true)] := by
  have names : ∀ c ∈ ds, Token.isNameChar c = true := fun c isIn => (digits c isIn).isNameChar
  refine .token true (by decide) (by simp) ?_ .done
  change Token.takeHash ds = _
  rw [Token.takeHash, List.takeWhile_eq_self_iff.mpr names, List.dropWhile_eq_nil_iff.mpr names]

end Hash

/-! ## Colors -/

/-- The color of a value is the only one of its document. -/
theorem colors_of_parse
    {text : List Char}
    {result : Expression}
    (parsed : Node.parse text =
      .ok (.wrapper .root [.ident "$c" (some (.expression result)) ⟨1, 1⟩] none ⟨1, 1⟩))
    {occurrence : Occurrence}
    (occurs : result.occurrences = [occurrence])
    {color : Rgba Float}
    (isColor : occurrence.color = .ok color) :
    (Sheet.ofText text).colors = [⟨occurrence.range (.ofText text), color⟩] := by
  have tree : (Sheet.ofText text).tree =
      .wrapper .root [.ident "$c" (some (.expression result)) ⟨1, 1⟩] none ⟨1, 1⟩ := by
    simp only [Sheet.tree, Sheet.ofText, parsed]
  have declared : declaredColors (Sheet.ofText text).tree.statements = [occurrence] := by
    rw [tree]
    simp [Node.statements, listStatements, bodyStatements, declaredColors, Node.declaredColors,
      Node.valueOccurrences, occurs]
  have entry : occurrence.entry? (.ofText text) =
      some ⟨occurrence.range (.ofText text), color⟩ := by
    simp only [Occurrence.entry?, isColor]
  change keepFirst _ ((declaredColors (Sheet.ofText text).tree.statements).filterMap
    (Occurrence.entry? (.ofText text))) = _
  rw [declared, List.filterMap_cons_some entry, List.filterMap_nil]
  rfl

theorem find?_closing
    {front : List Char}
    (noClosing : ')' ∉ front) :
    find? [')'] (front ++ [')']) = some (width front) := by
  have others : ∀ c ∈ front, (c != ')') = true := by
    intro c isIn
    rw [bne_iff_ne]
    rintro rfl
    exact noClosing isIn
  rw [find?_singleton, List.takeWhile_eq_self_iff.mpr others]

theorem width_name : width "$c = ".toList = 5 := by
  decide

section Ranges

variable {value : List Char} (inline : InlineValue value)

include inline

theorem lines_assigning : (Document.ofText (assigning value)).lines = [assigning value] :=
  inline.physicalLines_assigning

theorem line_assigning : (Document.ofText (assigning value)).line 0 = assigning value := by
  rw [Document.line, lines_assigning inline]
  rfl

/-- The text of a color is found where its value starts. -/
theorem findColumnFrom_assigning
    {part : List Char}
    (isStart : part <+: value) :
    findColumnFrom part (assigning value) 5 = 5 := by
  obtain ⟨after, rfl⟩ := isStart
  apply findColumnFrom_of_standsAt
  exact ⟨"$c = ".toList, after, (List.append_assoc ..).symm, width_name⟩

theorem range_literal
    (color : Except (ColorError Float) (Rgba Float)) :
    Occurrence.range ⟨.literal, ⟨0, 5⟩, String.ofList value, color⟩ (.ofText (assigning value)) =
      ⟨⟨0, 5⟩, ⟨0, width (assigning value)⟩⟩ := by
  have found := findColumnFrom_assigning inline (List.prefix_refl value)
  have stop : width (assigning value) = 5 + width value := by
    rw [assigning, width_append, width_name]
  simp only [Occurrence.range, line_assigning inline, String.toList_ofList, found, stop]

theorem range_function
    {front : List Char}
    (closed : value = front ++ [')'])
    (noClosing : ')' ∉ front)
    {name : String}
    (isStart : name.toList <+: value)
    (color : Except (ColorError Float) (Rgba Float)) :
    Occurrence.range ⟨.function, ⟨0, 5⟩, name, color⟩ (.ofText (assigning value)) =
      ⟨⟨0, 5⟩, ⟨0, width (assigning value)⟩⟩ := by
  have found := findColumnFrom_assigning inline isStart
  have after : dropTo? 5 (assigning value) = some value := by
    have cut := dropTo?_append "$c = ".toList value
    rwa [width_name] at cut
  have closing : closingColumn? (assigning value) 5 = some (width (assigning value)) := by
    have closingWidth : width [')'] = 1 := by decide
    rw [closingColumn?, after, Option.bind_some, closed, find?_closing noClosing, assigning,
      width_append, width_append, width_name, closingWidth, Option.map_some, Nat.add_assoc]
  simp only [Occurrence.range, line_assigning inline, found, closing, Option.getD_some]

end Ranges

/-- The only color of the document covers the value. -/
theorem ColorText.colors_assigning
    {value : List Char}
    (isColor : ColorText value) :
    InlineValue value ∧ ∃ color, (Sheet.ofText (assigning value)).colors =
      [⟨⟨⟨0, 5⟩, ⟨0, width (assigning value)⟩⟩, color⟩] := by
  cases isColor with
  | @call name arguments color isConstructor separate accepted =>
    have inline := inlineValue_call isConstructor arguments
    obtain ⟨tokens, listed, first, reads⟩ :=
      inline.exists_tokens_of_lexes (Lexes.call isConstructor arguments)
    have notNot : name ≠ "not" := by
      rintro rfl
      revert isConstructor
      decide
    obtain ⟨args, read, channels⟩ := Expression.read_call notNot separate listed ⟨1, 5⟩
    have place : Expression.placeOf ⟨1, 5⟩ tokens = ⟨1, 6⟩ := by
      cases tokens with
      | nil => cases listed
      | cons token rest => exact first token rfl
    rw [place] at read
    let occurrence : Occurrence := ⟨.function, ⟨0, 5⟩, name, .ok color⟩
    have occurs : Expression.occurrences ⟨[.call name args ⟨1, 6⟩], ⟨1, 6⟩⟩ = [occurrence] := by
      have constructs : Rgba.isConstructor name = true := by
        simpa [Rgba.isConstructor] using isConstructor
      simp [Expression.occurrences, Node.termOccurrences, Node.occurrences, constructs, channels,
        accepted, occurrence, SourcePos.place, lineIndex]
    have noClosing : ')' ∉ name.toList ++ '(' :: arguments.text := by
      have calmName := (calm_constructor isConstructor).1
      intro isIn
      rcases List.mem_append.mp isIn with isName | isInside
      · exact calmName.unmarked _ isName (by decide)
      · rcases List.mem_cons.mp isInside with isOpening | isArgument
        · exact absurd isOpening (by decide)
        · exact arguments.calm.unmarked _ isArgument (by decide)
    have range := range_function inline (show callText name arguments =
      (name.toList ++ '(' :: arguments.text) ++ [')'] by simp [callText]) noClosing
      (List.prefix_append _ _) (.ok color)
    have colors := colors_of_parse (reads read) occurs rfl
    exact ⟨inline, color, range ▸ colors⟩
  | @hex red green blue alpha isRed isGreen isBlue isAlpha =>
    have isHex := @Hex.read_write Float _ _ _ _ _ isRed isGreen isBlue isAlpha
    obtain ⟨ds, spelling, nonempty, digits⟩ := exists_digits_of_write isRed isGreen isBlue isAlpha
    rw [spelling] at isHex ⊢
    have inline := inlineValue_hash nonempty digits
    obtain ⟨tokens, listed, first, reads⟩ := inline.exists_tokens_of_lexes (lexes_hash digits)
    obtain ⟨token, rfl, isToken⟩ := List.map_eq_singleton_iff.mp listed
    have read := Expression.read_hash (Prod.mk.inj isToken).1 ⟨1, 5⟩
    have isRgba : Expression.hashTerm (String.ofList ('#' :: ds)) token.pos =
        .rgba (Hex.ofBytes red green blue (alpha.getD 255)) (String.ofList ('#' :: ds)) ⟨1, 6⟩ := by
      rw [Expression.hashTerm, String.toList_ofList, isHex, first token rfl]
    rw [isRgba] at read
    let occurrence : Occurrence := ⟨.literal, ⟨0, 5⟩, String.ofList ('#' :: ds),
      .ok (Hex.ofBytes red green blue (alpha.getD 255))⟩
    have colors := colors_of_parse (reads read) (show _ = [occurrence] from rfl) rfl
    have range := range_literal inline occurrence.color
    exact ⟨inline, _, range ▸ colors⟩

/-- Every way to write a color is found again, as the only color of its line. -/
theorem Rgba.presentation_read_back
    {color : Rgba Float}
    (inRange : color.InRange)
    {presentation : String}
    (isOffered : presentation ∈ color.presentations) :
    let text := "$c = ".toList ++ presentation.toList
    (Document.ofText text).lines = [text] ∧
      ∃ entry, (Sheet.ofText text).colors = [entry] ∧
        entry.range = ⟨⟨0, 5⟩, ⟨0, width text⟩⟩ := by
  obtain ⟨inline, found, colors⟩ := (presentations_colorText inRange isOffered).colors_assigning
  exact ⟨lines_assigning inline, _, colors, rfl⟩

theorem Rgba.presentation_read_back_hwb :
    (⟨255.0, 0.0, 0.0, 0.5⟩ : Rgba Float).InRange ∧
      "hwb(0 0% 0% / 0.5)" ∈ (⟨255.0, 0.0, 0.0, 0.5⟩ : Rgba Float).presentations ∧
      ∃ entry, (Sheet.ofText "$c = hwb(0 0% 0% / 0.5)".toList).colors = [entry] ∧
        entry.range = ⟨⟨0, 5⟩, ⟨0, 23⟩⟩ := by
  have inRange : (⟨255.0, 0.0, 0.0, 0.5⟩ : Rgba Float).InRange :=
    ⟨by decide +kernel, by decide +kernel, by decide +kernel, by decide +kernel⟩
  have isOffered : "hwb(0 0% 0% / 0.5)" ∈ (⟨255.0, 0.0, 0.0, 0.5⟩ : Rgba Float).presentations := by
    decide +kernel
  exact ⟨inRange, isOffered, (Rgba.presentation_read_back inRange isOffered).2⟩

end StyleSense
