import StyleSense.Proofs.Line.Scan
import StyleSense.Proofs.Statement.Matching
import StyleSense.Proofs.Token.Numeral

/-!
Contract: documents of one line that assign a value.

Owns:
- `Node.parse_assignment`, the tree of a document that is one assignment, and `Node.parse_of_read`,
  this tree when the value can be read;
- `InlineValue`, a text that is complete on the line of its assignment;
- `scanLines_assigning`: the document is one logical line;
- `exists_tokens_of_lexes`: its tree is an assignment of what the tokens of the value are read as,
  the first of which stands at byte 5.

Does not own: what the tokens are read as (`StyleSense.Proofs.Expression.Constructor`).
-/

namespace StyleSense

open Text

/-! ## Texts of one line -/

/-- The tree of a text that is one line. -/
theorem Node.parse_single
    {text : List Char}
    {line : Line}
    (scanned : scanLines text = .ok [line]) :
    Node.parse text =
      line.statement (LineTree.bodyOf []) >>= fun node =>
        .ok (.wrapper .root [node] none ⟨1, 1⟩) := by
  have forest : buildForest [line] = [.node line []] := rfl
  rw [Node.parse_of_scanLines scanned, forest, LineTree.statements, LineTree.statements,
    LineTree.statement_node]
  cases line.statement (LineTree.bodyOf []) <;> rfl

/-- The tree of a text that is one assignment of a value. -/
theorem Node.parse_assignment
    {text : List Char}
    {line : Line}
    (scanned : scanLines text = .ok [line])
    {name value : List Char}
    (isValue : isValueLine line.head.text = true)
    (found : Pattern.assignment? line.head.text = some (name, value)) :
    Node.parse text = (do
      let tokens ← line.tokensOf value
      let result ← Expression.read tokens (line.placeOf value)
      return .wrapper .root [.ident (String.ofList name) (some (.expression result)) line.pos] none
        ⟨1, 1⟩) := by
  obtain ⟨name', value', found', statement⟩ :=
    Line.statement_of_isValueLine isValue (LineTree.bodyOf [])
  obtain ⟨rfl, rfl⟩ := Prod.mk.inj (Option.some.inj (found.symm.trans found'))
  have empty : (LineTree.bodyOf []).mustBeEmpty = .ok () := rfl
  rw [Node.parse_single scanned, statement, empty]
  simp only [bind, Except.bind]
  cases line.tokensOf value with
  | error error => rfl
  | ok tokens =>
    simp only
    cases Expression.read tokens (line.placeOf value) <;> rfl

/-- The tree of an assignment of which the value can be read. -/
theorem Node.parse_of_read
    {text : List Char}
    {line : Line}
    (scanned : scanLines text = .ok [line])
    {name value : List Char}
    (isValue : isValueLine line.head.text = true)
    (found : Pattern.assignment? line.head.text = some (name, value))
    {tokens : List Token}
    (lexed : line.tokensOf value = .ok tokens)
    {result : Expression}
    (read : Expression.read tokens (line.placeOf value) = .ok result) :
    Node.parse text =
      .ok (.wrapper .root [.ident (String.ofList name) (some (.expression result)) line.pos] none
        ⟨1, 1⟩) := by
  rw [Node.parse_assignment scanned isValue found, lexed]
  simp only [bind, Except.bind, read]
  rfl

/-! ## Values that are complete on their line -/

/-- The document that assigns a value. -/
def assigning (value : List Char) : List Char :=
  "$c = ".toList ++ value

/-- A value that is complete on its line. -/
structure InlineValue (value : List Char) : Prop where
  nonempty : value ≠ []
  trimmed : trim value = value
  oneLine : ∀ c ∈ value, c ≠ '\n' ∧ c ≠ '\r'
  commentless : Commentless value
  unquoted : ∀ c ∈ value, ¬IsQuote c
  balanced : bracketDepth true value = 0
  complete : ∀ c ∈ value.getLast?, c ≠ ';' ∧ c ≠ ','
  notAt : value.head? ≠ some '@'

theorem mem_assigning
    {value : List Char}
    {P : Char → Prop}
    (name : ∀ c ∈ "$c = ".toList, P c)
    (values : ∀ c ∈ value, P c) :
    ∀ c ∈ assigning value, P c := by
  intro c isIn
  exact (List.mem_append.mp isIn).elim (name c) (values c)

theorem assignment?_assigning (value : List Char) :
    Pattern.assignment? (assigning value) = some ("$c".toList, ' ' :: value) :=
  rfl

namespace InlineValue

variable {value : List Char} (inline : InlineValue value)

include inline

theorem getLast?_assigning : (assigning value).getLast? = value.getLast? :=
  List.getLast?_append_of_ne_nil _ inline.nonempty

theorem physicalLines_assigning : physicalLines (assigning value) = [assigning value] := by
  have noEnd := mem_assigning (by decide) inline.oneLine
  have noReturn : (assigning value).getLast? ≠ some '\r' := fun isLast =>
    (noEnd '\r' (List.mem_of_getLast? isLast)).2 rfl
  rw [physicalLines, List.splitOn_eq_singleton fun isIn => (noEnd '\n' isIn).1 rfl,
    List.map_singleton, dropSuffix_of_getLast?_ne noReturn]

theorem trim_assigning : trim (assigning value) = assigning value := by
  refine trim_eq_self_iff.mpr ⟨?_, ?_⟩
  · rintro _ ⟨⟩
    decide
  · rw [inline.getLast?_assigning]
    exact (trim_eq_self_iff.mp inline.trimmed).2

theorem trimStart_value : trimStart (' ' :: value) = value := by
  have blank : isBlank ' ' = true := by decide
  rw [trimStart, List.dropWhile_cons_of_pos blank]
  exact trimStart_of_trim inline.trimmed

theorem isValueLine_assigning : isValueLine (assigning value) = true := by
  have notBlock : "@block".toList.isPrefixOf value = false := by
    rw [← Bool.not_eq_true, List.isPrefixOf_iff_prefix]
    rintro ⟨rest, rfl⟩
    exact inline.notAt rfl
  simp only [isValueLine, assignment?_assigning, inline.trimStart_value, notBlock]
  rfl

theorem dropSemicolon_assigning : Scan.dropSemicolon (assigning value) = assigning value := by
  have noSemicolon : (assigning value).getLast? ≠ some ';' := by
    rw [inline.getLast?_assigning]
    exact fun isLast => (inline.complete _ isLast).1 rfl
  rw [Scan.dropSemicolon, dropSuffix_of_getLast?_ne noSemicolon]
  exact trimEnd_of_trim inline.trim_assigning

/-- The document is one logical line. -/
theorem scanLines_assigning :
    scanLines (assigning value) = .ok [⟨0, ⟨1, 0, assigning value⟩, []⟩] := by
  have nonempty : assigning value ≠ [] := List.cons_ne_nil _ _
  have commentless : Commentless (assigning value) :=
    Commentless.append (by decide) inline.commentless (.inl (by decide))
  have unquoted := mem_assigning (by decide) inline.unquoted
  have balanced : bracketDepth true (assigning value) = 0 := inline.balanced
  have statement := inline.dropSemicolon_assigning
  have complete : (assigning value).getLast? ≠ some ',' := by
    rw [inline.getLast?_assigning]
    exact fun isLast => (inline.complete _ isLast).2 rfl
  have stepped := @Scan.step_atRest Scan.initial Scan.initial_atRest [] (assigning value) []
    (by rwa [List.append_nil]) (by rwa [List.append_nil]) allBlank_nil allBlank_nil
    inline.trim_assigning nonempty 1
  have started := @Scan.startLine_eq Scan.initial Scan.initial_atRest (assigning value)
    (assigning value) (by simp [assigning]) (trimStart_of_trim inline.trim_assigning) true
    (statement.symm ▸ inline.isValueLine_assigning) (by rw [if_pos rfl, statement]) nonempty 1 0
  have goesOn : OpenLine.goesOn ⟨⟨0, ⟨1, 0, assigning value⟩, []⟩, 0, true⟩ = false := by
    simp [OpenLine.goesOn, complete]
  rw [balanced] at started
  simp only [goesOn] at started
  rw [List.nil_append, List.append_nil, width_nil] at stepped
  rw [scanLines, inline.physicalLines_assigning, Scan.run, stepped, started]
  rfl

/-- The tokens of the value, and the tree that they make the document. -/
theorem exists_tokens_of_lexes
    {kinds : List (Token.Kind × Bool)}
    (lexes : Lexes (' ' :: value) kinds) :
    ∃ tokens, kindsOf tokens = kinds ∧ (∀ token ∈ tokens.head?, token.pos = ⟨1, 6⟩) ∧
      ∀ {result}, Expression.read tokens ⟨1, 5⟩ = .ok result →
        Node.parse (assigning value) =
          .ok (.wrapper .root [.ident "$c" (some (.expression result)) ⟨1, 1⟩] none ⟨1, 1⟩) := by
  obtain ⟨tokens, lexed, listed, first⟩ :=
    tokenizeFrom_of_lexes lexes 1 4 (width (' ' :: value))
  refine ⟨tokens, listed, ?_, ?_⟩
  · intro token isFirst
    rw [first token isFirst, inline.trimStart_value, width_cons, Nat.add_sub_cancel]
    rfl
  · intro result read
    let line : Line := ⟨0, ⟨1, 0, assigning value⟩, []⟩
    have skipped : width (assigning value) - width (' ' :: value) = 4 := by
      have name : width "$c =".toList = 4 := by decide
      have whole : assigning value = "$c =".toList ++ ' ' :: value := rfl
      rw [whole, width_append, name, Nat.add_sub_cancel]
    have tokensOf : line.tokensOf (' ' :: value) = .ok tokens := by
      simp only [Line.tokensOf, line, skipped, Line.fragmentTokens, Fragment.tokens, tokenize,
        lexed, List.append_nil]
    have place : line.placeOf (' ' :: value) = ⟨1, 5⟩ := by
      simp only [Line.placeOf, line, skipped]
    rw [← place] at read
    exact Node.parse_of_read inline.scanLines_assigning inline.isValueLine_assigning
      (assignment?_assigning value) tokensOf read

end InlineValue

end StyleSense
