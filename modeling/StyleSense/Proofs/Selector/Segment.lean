import Mathlib.Data.List.Chain
import StyleSense.Proofs.Statement.Words
import StyleSense.Statement.Selector

/-!
Contract: the segments of a selector spell its source.

Owns:
- `Segment.Spells`, the source of one segment: the text itself, or an interpolation with the braces
  around the tokens of its terms;
- `Segment.ListSpells`, the sources of some segments one after the other, and `Segment.Alternate`,
  that no two literal texts are next to each other;
- `readSegments_spells`: segments are read so.

Does not own: where the source stands (`StyleSense.Proofs.Selector.Source`).
-/

namespace StyleSense

open Text

/-- The segment is read from the source, which stands on the line from byte `offset` on. -/
inductive Segment.Spells (line offset : Nat) : Segment → List Char → Prop
  | literal {source : List Char}
      (nonempty : source ≠ [])
      (plain : '\x7b' ∉ source) :
      Spells line offset ⟨some (String.ofList source), line, []⟩ source
  | interpolation {inside : List Char} {tokens : List Token} {nodes : List Node}
      (closedOnce : '\x7d' ∉ inside)
      (hasTokens : tokenize inside line (offset + 1) = .ok tokens)
      (read : Expression.readTerms tokens = .ok nodes) :
      Spells line offset ⟨none, line, nodes⟩ ('\x7b' :: (inside ++ ['\x7d']))

/-- The segments are read from the source one after the other. -/
inductive Segment.ListSpells (line : Nat) : Nat → List Segment → List Char → Prop
  | nil (offset : Nat) : ListSpells line offset [] []
  | cons {offset : Nat} {first : Segment} {rest : List Segment} {source following : List Char}
      (here : first.Spells line offset source)
      (later : ListSpells line (offset + width source) rest following) :
      ListSpells line offset (first :: rest) (source ++ following)

/-- Of two segments next to each other, at least one is an interpolation. -/
def Segment.Alternate (segments : List Segment) : Prop :=
  segments.IsChain fun left right => left.text = none ∨ right.text = none

namespace Segment

variable {line offset : Nat} {source following : List Char} {rest : List Segment}

/-- A literal text in front of other segments. -/
theorem literal_listSpells
    (plain : '\x7b' ∉ source)
    (later : ListSpells line (offset + width source) rest following) :
    ListSpells line offset (literal source line ++ rest) (source ++ following) := by
  unfold literal
  split
  · rename_i empty
    obtain rfl : source = [] := List.isEmpty_iff.mp empty
    exact later
  · rename_i notEmpty
    exact .cons (.literal (by simpa using notEmpty) plain) later

/-- A literal text in front of an interpolation. -/
theorem literal_alternate
    {interpolation : Segment}
    (noText : interpolation.text = none)
    (alternate : Alternate rest) :
    Alternate (literal source line ++ interpolation :: rest) := by
  have others : Alternate (interpolation :: rest) :=
    List.isChain_cons.mpr ⟨fun _ _ => .inl noText, alternate⟩
  unfold literal
  split
  · exact others
  · exact List.isChain_cons_cons.mpr ⟨.inr noText, others⟩

theorem alternate_literal : Alternate (literal source line) := by
  unfold literal
  split
  · exact List.isChain_nil
  · exact List.isChain_singleton _

end Segment

theorem not_mem_takeWhile_ne
    (stop : Char)
    (text : List Char) :
    stop ∉ text.takeWhile (!· == stop) := by
  intro isIn
  simpa using List.mem_takeWhile_imp isIn

/-- The segments that are read from a text spell it, and literal texts among them are apart. -/
theorem readSegments_spells
    (text : List Char)
    (line offset : Nat) :
    Gives
      (fun segments => Segment.ListSpells line offset segments text ∧ Segment.Alternate segments)
      (readSegments text line offset) := by
  rw [readSegments]
  have plain := not_mem_takeWhile_ne '\x7b' text
  split
  · rename_i opened
    have whole := List.takeWhile_append_dropWhile (p := (!· == '\x7b')) (l := text)
    rw [opened, List.append_nil] at whole
    simp only [whole] at plain ⊢
    have nothing : Segment.ListSpells line (offset + width text) [] [] := .nil _
    have spells := Segment.literal_listSpells plain nothing
    rw [List.append_nil, List.append_nil] at spells
    exact .ok ⟨spells, Segment.alternate_literal⟩
  · rename_i rest opened
    have wholeText := eq_append_of_dropWhile_ne opened
    generalize text.takeWhile (!· == '\x7b') = literal at wholeText plain ⊢
    simp only
    split
    · exact fun _ given => nomatch given
    · rename_i following closed
      have wholeRest := eq_append_of_dropWhile_ne closed
      have closedOnce := not_mem_takeWhile_ne '\x7d' rest
      generalize rest.takeWhile (!· == '\x7d') = inside at wholeRest closedOnce ⊢
      have fewer : following.length < text.length := by
        rw [wholeText, wholeRest]
        simp only [List.length_append, List.length_cons]
        omega
      refine Gives.bind fun tokens hasTokens => Gives.bind fun nodes read =>
        Gives.bind fun segments readLater => .ok ?_
      -- What follows the closing brace is read from the byte after it.
      obtain ⟨later, alternate⟩ := readSegments_spells following _ _ segments readLater
      refine ⟨?_, Segment.literal_alternate rfl alternate⟩
      have parted : text = literal ++ (('\x7b' :: (inside ++ ['\x7d'])) ++ following) := by
        rw [wholeText, wholeRest]
        simp
      have wide : width ('\x7b' :: (inside ++ ['\x7d'])) = 1 + width inside + 1 := by
        rw [width_cons, width_append, ← Nat.add_assoc]
        rfl
      rw [parted]
      refine Segment.literal_listSpells plain (.cons (.interpolation closedOnce hasTokens read) ?_)
      rw [wide, ← Nat.add_assoc, ← Nat.add_assoc]
      exact later
termination_by text.length
decreasing_by assumption

end StyleSense
