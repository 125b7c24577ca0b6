import StyleSense.Node.Equality
import StyleSense.Proofs.Expression.Printing
import StyleSense.Proofs.Expression.Rereading
import StyleSense.Proofs.Statement.Declaration
import StyleSense.Proofs.Statement.Inline
import StyleSense.Sheet

/-!
Contract: the background of the swatch of a call is read again as that call.

Owns:
- `Line.Declares.prints`: the colors of what a line declares are printed by the grammar of source texts;
- `parse_background_read`: the background of a printable call is cut into tokens, and they are read as
  one call, which is that call up to line numbers and columns.

Does not own: where a swatch is (`StyleSense.Proofs.Swatch.Decoration`) and which calls are printable
(`StyleSense.Proofs.Node.Printable`).
-/

namespace StyleSense

open Text

theorem Line.Declares.prints
    {line : Line}
    {statement : Node}
    (declares : line.Declares statement) :
    ∀ term ∈ statement.colorTerms, term.IsPrintable →
      Expression.Prints (.operand 0 term) False := by
  cases declares with
  | assignment assigned hasTokens read =>
    exact Expression.read_prints (line.tokensOf_written hasTokens) read
  | property segments named hasTokens read =>
    exact Expression.read_prints (line.tokensOf_written hasTokens) read
  | block nodes assigned isHere =>
    intro term isIn
    simp [Node.colorTerms, Expression.colorTerms, Node.colorTermsOf, Node.isColor] at isIn
  | _ => exact fun term isIn => absurd isIn List.not_mem_nil

/-- The source text of what the grammar prints is cut into tokens that are read as it alone. -/
theorem Expression.Prints.read
    {freely : Prop}
    {node : Node}
    (prints : Expression.Prints (.operand 0 node) freely)
    (line offset : Nat) :
    ∃ tokens again, tokenize node.source.toList line offset = .ok tokens ∧
      Expression.readTerms tokens = .ok [again] ∧ again.unplaced = node.unplaced := by
  obtain ⟨kinds, printed, -⟩ := prints false
  have lexes : Lexes node.source.toList kinds := printed.lexes
  obtain ⟨tokens, cut, listed, -⟩ :=
    tokenizeFrom_of_lexes lexes line offset (width node.source.toList)
  have onLine : ∀ token ∈ tokens, token.pos.line = line := fun token isIn =>
    ((tokenizeFrom_tokenizes cut).written token isIn).2
  obtain ⟨again, same, read⟩ := Expression.readTerms_of_printed printed listed onLine
  exact ⟨tokens, again, cut, read, same⟩

theorem Node.eq_call_of_unplaced
    {node : Node}
    {name : String}
    {args : List Node}
    {pos : SourcePos}
    (same : node.unplaced = (Node.call name args pos).unplaced) :
    ∃ args' pos', node = .call name args' pos' := by
  cases node with
  | call name' args' pos' =>
    obtain ⟨rfl, -, -⟩ := Node.call.inj same
    exact ⟨args', pos', rfl⟩
  | _ => cases same

/-- A printable call among the colors of a text has a swatch, whose background is the call itself: it is
cut into tokens, and they are read as one call, the same up to line numbers and columns. -/
theorem parse_background_read
    {text : List Char}
    {tree : Node}
    (parsed : Node.parse text = .ok tree)
    {name : String}
    {args : List Node}
    {pos : SourcePos}
    (isColor : .call name args pos ∈ tree.statements.flatMap Node.colorTerms)
    (printable : (Node.call name args pos).IsPrintable) :
    ∃ swatch, (Node.call name args pos).decoration? (.ofText text) = some swatch ∧
      ∀ line offset, ∃ tokens args' pos',
        tokenize swatch.background.toList line offset = .ok tokens ∧
          Expression.readTerms tokens = .ok [.call name args' pos'] ∧
            (Node.call name args' pos').unplaced = (Node.call name args pos).unplaced := by
  obtain ⟨lines, -, declared⟩ := parse_declares parsed
  obtain ⟨statement, isStatement, isTerm⟩ := List.mem_flatMap.mp isColor
  have prints : Expression.Prints (.operand 0 (.call name args pos)) False := by
    rcases declared statement isStatement with silent | ⟨line, -, declares⟩
    · rw [silent.colors] at isTerm
      exact absurd isTerm List.not_mem_nil
    · exact declares.prints _ isTerm printable
  refine ⟨_, rfl, fun line offset => ?_⟩
  obtain ⟨tokens, again, cut, read, same⟩ := prints.read line offset
  obtain ⟨args', pos', rfl⟩ := Node.eq_call_of_unplaced same
  exact ⟨tokens, args', pos', cut, read, same⟩

/-- The background keeps the operators of an argument and the blank in another one. -/
theorem parse_background_read_operators :
    ∃ tree call, Node.parse "$c = rgb(-1 + 2 * 3, 'a b')".toList = .ok tree ∧
      tree.statements.flatMap Node.colorTerms = [call] ∧
      call.decoration? (.ofText "$c = rgb(-1 + 2 * 3, 'a b')".toList) =
        some ⟨0, 5, "rgb(-1 + 2 * 3, 'a b')"⟩ ∧
      ∃ tokens again, tokenize "rgb(-1 + 2 * 3, 'a b')".toList 1 0 = .ok tokens ∧
        Expression.readTerms tokens = .ok [again] ∧ again.unplaced = call.unplaced := by
  let product : Node := .binary "*" (.unit 2.0 none ⟨1, 15⟩) (.unit 3.0 none ⟨1, 19⟩) ⟨1, 15⟩
  let sum : Node := .binary "+" (.unit (-1.0) none ⟨1, 10⟩) product ⟨1, 10⟩
  let args : List Node :=
    [.expression ⟨[sum], ⟨1, 10⟩⟩, .expression ⟨[.string "a b" ⟨1, 22⟩], ⟨1, 22⟩⟩]
  let call : Node := .call "rgb" args ⟨1, 6⟩
  let tree := (Sheet.ofText "$c = rgb(-1 + 2 * 3, 'a b')".toList).tree
  have parsed : Node.parse "$c = rgb(-1 + 2 * 3, 'a b')".toList = .ok tree := by decide +kernel
  have terms : tree.statements.flatMap Node.colorTerms = [call] := by decide +kernel
  have decorated : call.decoration? (.ofText "$c = rgb(-1 + 2 * 3, 'a b')".toList) =
      some ⟨0, 5, "rgb(-1 + 2 * 3, 'a b')"⟩ := by
    decide +kernel
  have minusOne : Number.ReadsBack (-1.0) :=
    ⟨⟨true, ['1'], false, isNumeral_sound rfl⟩, rfl, by decide +kernel, by decide +kernel⟩
  have two : Number.ReadsBack 2.0 :=
    ⟨⟨false, ['2'], false, isNumeral_sound rfl⟩, rfl, by decide +kernel, by decide +kernel⟩
  have three : Number.ReadsBack 3.0 :=
    ⟨⟨false, ['3'], false, isNumeral_sound rfl⟩, rfl, by decide +kernel, by decide +kernel⟩
  have quotable : IsQuotable "a b" := by
    unfold IsQuotable
    decide
  have printable : call.IsPrintable := by
    simp [call, args, sum, product, Node.IsPrintable, Node.ArgumentsPrintable, Node.ListPrintable,
      minusOne, two, three, quotable]
  obtain ⟨swatch, isSwatch, isRead⟩ :=
    parse_background_read parsed (by rw [terms]; exact List.mem_singleton_self call) printable
  refine ⟨tree, call, parsed, terms, decorated, ?_⟩
  cases isSwatch.symm.trans decorated
  obtain ⟨cut, args', pos', isCut, again, same⟩ := isRead 1 0
  exact ⟨cut, _, isCut, again, same⟩

end StyleSense
