/-!
Contract: the operators of value expressions.

Owns:
- `Operator` and its spelling;
- `Operator.read?`, which takes the longest operator at the start of a text;
- `Level`, how tightly a binary operator binds.

Does not own: operators that are spelled as words, which are names for the lexer.
-/

namespace StyleSense

/-- An operator sign. -/
inductive Operator where
  | ellipsis
  | equal
  | notEqual
  | atLeast
  | atMost
  | both
  | either
  | assignDefault
  | assignColon
  | plus
  | minus
  | times
  | slash
  | percent
  | less
  | greater
  | assign
  | bang
  | question
  | colon
  | dot
  | ampersand
  | tilde
deriving DecidableEq, Repr

namespace Operator

/-- How an operator is written. -/
def spelling : Operator → String
  | ellipsis => "..."
  | equal => "=="
  | notEqual => "!="
  | atLeast => ">="
  | atMost => "<="
  | both => "&&"
  | either => "||"
  | assignDefault => "?="
  | assignColon => ":="
  | plus => "+"
  | minus => "-"
  | times => "*"
  | slash => "/"
  | percent => "%"
  | less => "<"
  | greater => ">"
  | assign => "="
  | bang => "!"
  | question => "?"
  | colon => ":"
  | dot => "."
  | ampersand => "&"
  | tilde => "~"

/-- Every operator, the longer ones first. -/
def all : List Operator :=
  [ellipsis, equal, notEqual, atLeast, atMost, both, either, assignDefault, assignColon, plus,
    minus, times, slash, percent, less, greater, assign, bang, question, colon, dot, ampersand,
    tilde]

/-- The longest operator at the start of a text, and what follows it. -/
def read? (cs : List Char) : Option (Operator × List Char) :=
  (all.find? fun op => op.spelling.toList.isPrefixOf cs).map fun op =>
    (op, cs.drop op.spelling.toList.length)

theorem mem_all (op : Operator) : op ∈ all := by
  cases op <;> decide

theorem spelling_ne_nil (op : Operator) : op.spelling.toList ≠ [] := by
  cases op <;> decide

/-- Reading an operator takes at least one character. -/
theorem read?_length_lt
    {cs rest : List Char}
    {op : Operator}
    (found : read? cs = some (op, rest)) :
    rest.length < cs.length := by
  simp only [read?, Option.map_eq_some_iff, Prod.mk.injEq] at found
  obtain ⟨candidate, isFirst, rfl, rfl⟩ := found
  have spelled := List.find?_some isFirst
  obtain ⟨after, rfl⟩ := List.isPrefixOf_iff_prefix.mp spelled
  have := List.length_pos_iff.mpr (spelling_ne_nil candidate)
  simp only [List.drop_left, List.length_append]
  omega

/-- How tightly a binary operator binds, loosest first. -/
inductive Level where
  | logical
  | equality
  | relational
  | additive
  | multiplicative
deriving DecidableEq, Repr

/-- The rank of a level; a tighter one is greater. -/
def Level.rank : Level → Nat
  | .logical => 0
  | .equality => 1
  | .relational => 2
  | .additive => 3
  | .multiplicative => 4

/-- The level of a sign that can join two operands. -/
def level? : Operator → Option Level
  | both | either => some .logical
  | equal | notEqual => some .equality
  | less | greater | atMost | atLeast => some .relational
  | plus | minus => some .additive
  | times | slash | percent => some .multiplicative
  | _ => none

end Operator

end StyleSense
