import StyleSense.Node.Printer
import StyleSense.Proofs.Expression.Constructor
import StyleSense.Proofs.Token.Written

/-!
Contract: values whose source text says all of them.

Owns:
- `Number.ReadsBack`, that the text of a number reads back as it;
- `Node.IsPrintable`. The source text of a value has no parentheses for its groups, nothing for a term
  that is negated as a whole, no escapes in its strings, no quotes around the keys of its objects, and
  no comma after an empty last argument, so a value with one of these is not printable.

Does not own: that such a text is read again as the value (`StyleSense.Proofs.Expression.Rereading`).
-/

namespace StyleSense

/-- The text of a number reads back as that number. -/
def Number.ReadsBack (value : Float) : Prop :=
  ∃ number : WrittenNumber, number.percent = false ∧
    (Number.plain value).toList = number.text ∧ number.channel.value = value

/-- A text that stands between quotes as it is. -/
def IsQuotable (value : String) : Prop :=
  ∀ c ∈ value.toList, c ≠ '\'' ∧ c ≠ '\\'

/-- What `url` is called with: its body as one string. -/
def Node.AreUrlArguments : List Node → Prop
  | [.expression ⟨[.string body _], _⟩] => Token.IsUrlBody body
  | _ => False

mutual

/-- The source text of the value says all of it. -/
def Node.IsPrintable : Node → Prop
  | .ident .. => True
  | .rgba .. => True
  | .unit value _ _ => Number.ReadsBack value
  | .string value _ => IsQuotable value
  | .binary _ left right _ => left.IsPrintable ∧ right.IsPrintable
  | .call name args _ =>
    if name = "url" then Node.AreUrlArguments args else Node.ArgumentsPrintable args
  | .ternary condition (.expression ⟨whenTrue, _⟩) (.expression ⟨whenFalse, _⟩) _ =>
    condition.IsPrintable ∧ Node.ListPrintable whenTrue ∧ Node.ListPrintable whenFalse
  | .object entries _ => Node.EntriesPrintable entries
  | _ => False

/-- Printable terms. -/
def Node.ListPrintable : List Node → Prop
  | [] => True
  | node :: rest => node.IsPrintable ∧ Node.ListPrintable rest

/-- Printable arguments, the last of which is not empty. -/
def Node.ArgumentsPrintable : List Node → Prop
  | [] => True
  | .expression ⟨terms, _⟩ :: rest =>
    (rest = [] → terms ≠ []) ∧ Node.ListPrintable terms ∧ Node.ArgumentsPrintable rest
  | _ :: _ => False

/-- Entries whose keys are names and whose values are printable. -/
def Node.EntriesPrintable : List (String × Node) → Prop
  | [] => True
  | (key, .expression ⟨terms, _⟩) :: rest =>
    Token.IsNameText key.toList ∧ Node.ListPrintable terms ∧ Node.EntriesPrintable rest
  | _ :: _ => False

end

end StyleSense
