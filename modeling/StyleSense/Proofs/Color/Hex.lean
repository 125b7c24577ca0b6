import StyleSense.Proofs.Color.Presentation

/-!
Contract: which texts are hexadecimal colors, and the one spelling of each.

Owns:
- `Hex.IsDigit` and `Hex.IsColorText`, the grammar of hexadecimal colors, and `Hex.Refusal`, why any
  other text is refused;
- `Hex.Bounded.read`, the reader computing on bytes, in which a result that is no byte is an outcome
  of its own;
- `Hex.read_outcome`: the texts of the grammar are read and no others, the refusals come in a fixed
  order, and no result is ever too large for a byte;
- `Hex.canonical`, a spelling in lower case without short digits and without a full alpha, and
  `Hex.hexText_canonical`: a color is written in the canonical spelling of the text it was read from.

Does not own: where such a text stands in a value (`StyleSense.Proofs.Token.Written`).
-/

namespace StyleSense.Hex

/-! ## Digits -/

/-- An ASCII hexadecimal digit of either case. -/
def IsDigit (c : Char) : Prop :=
  c ∈ "0123456789abcdefABCDEF".toList

instance : DecidablePred IsDigit := fun c => inferInstanceAs (Decidable (c ∈ _))

/-- A character with a value is a digit, and its value is written as the digit in lower case. -/
theorem isDigit_of_digit?
    {c : Char}
    {value : Nat}
    (read : digit? c = some value) :
    IsDigit c ∧ value < 16 ∧ digit value = c.toLower := by
  have each : ∀ code ∈ List.range 128, ∀ value ∈ digit? (Char.ofNat code),
      IsDigit (Char.ofNat code) ∧ value < 16 ∧ digit value = (Char.ofNat code).toLower := by
    decide +kernel
  have isAscii : c.toNat < 128 := by
    have below : ∀ {last : Char}, c ≤ last → c.toNat ≤ last.toNat := fun isBelow => isBelow
    unfold digit? at read
    split_ifs at read with isDecimal isLower isUpper
    · exact Nat.lt_of_le_of_lt (below isDecimal.2) (by decide)
    · exact Nat.lt_of_le_of_lt (below isLower.2) (by decide)
    · exact Nat.lt_of_le_of_lt (below isUpper.2) (by decide)
  have known := each c.toNat (List.mem_range.mpr isAscii)
  rw [Char.ofNat_toNat] at known
  exact known value read

theorem exists_digit?
    {c : Char}
    (isDigit : IsDigit c) :
    ∃ value, digit? c = some value := by
  have each : ∀ c ∈ "0123456789abcdefABCDEF".toList, (digit? c).isSome = true := by decide
  exact Option.isSome_iff_exists.mp (each c isDigit)

theorem digit?_eq_none
    {c : Char}
    (notDigit : ¬IsDigit c) :
    digit? c = none := by
  rw [Option.eq_none_iff_forall_ne_some]
  exact fun value read => notDigit (isDigit_of_digit? read).1

/-- The digits have these values. -/
abbrev Denote (cs : List Char) (values : List Nat) : Prop :=
  List.Forall₂ (fun c value => digit? c = some value) cs values

section Digits

variable {α : Type} {cs : List Char} {values : List Nat}

theorem exists_denote (areDigits : ∀ c ∈ cs, IsDigit c) : ∃ values, Denote cs values := by
  induction cs with
  | nil => exact ⟨[], .nil⟩
  | cons c cs inductionHypothesis =>
    obtain ⟨isDigit, others⟩ := List.forall_mem_cons.mp areDigits
    obtain ⟨value, read⟩ := exists_digit? isDigit
    obtain ⟨values, denote⟩ := inductionHypothesis others
    exact ⟨value :: values, .cons read denote⟩

theorem Denote.small (denote : Denote cs values) : ∀ value ∈ values, value < 16 := by
  induction denote with
  | nil => exact fun value isIn => absurd isIn List.not_mem_nil
  | cons read _ inductionHypothesis =>
    exact List.forall_mem_cons.mpr ⟨(isDigit_of_digit? read).2.1, inductionHypothesis⟩

theorem digits_of_denote (denote : Denote cs values) :
    (digits cs : Except (ColorError α) (List Nat)) = .ok values := by
  induction denote with
  | nil => rfl
  | cons read _ inductionHypothesis => simp only [digits, read, inductionHypothesis]

/-- The first character that is no digit is the reason for a refusal. -/
theorem digits_of_invalid
    {c : Char}
    {after : List Char}
    (areDigits : ∀ d ∈ cs, IsDigit d)
    (notDigit : ¬IsDigit c) :
    (digits (cs ++ c :: after) : Except (ColorError α) (List Nat)) = .error (.invalidHex c) := by
  induction cs with
  | nil => simp only [List.nil_append, digits, digit?_eq_none notDigit]
  | cons d cs inductionHypothesis =>
    obtain ⟨isDigit, others⟩ := List.forall_mem_cons.mp areDigits
    obtain ⟨value, read⟩ := exists_digit? isDigit
    simp only [List.cons_append, digits, read, inductionHypothesis others]

/-- Digits that are read are digits, each with its value. -/
theorem denote_of_digits
    (read : (digits cs : Except (ColorError α) (List Nat)) = .ok values) :
    Denote cs values := by
  induction cs generalizing values with
  | nil =>
    cases read
    exact .nil
  | cons c cs inductionHypothesis =>
    unfold digits at read
    split at read
    · cases read
    · rename_i value readFirst
      split at read
      · cases read
      · rename_i others readOthers
        cases read
        exact .cons readFirst (inductionHypothesis readOthers)

end Digits

/-- Items in one of the four numbers in which digits make up a color. -/
theorem shape_of_length
    {β : Type}
    {items : List β}
    (rightLength : items.length ∈ [3, 4, 6, 8]) :
    (∃ r g b, items = [r, g, b]) ∨ (∃ r g b a, items = [r, g, b, a]) ∨
      (∃ r1 r2 g1 g2 b1 b2, items = [r1, r2, g1, g2, b1, b2]) ∨
      ∃ r1 r2 g1 g2 b1 b2 a1 a2, items = [r1, r2, g1, g2, b1, b2, a1, a2] := by
  rcases items with _ | ⟨_, _ | ⟨_, _ | ⟨_, _ | ⟨_, _ | ⟨_, _ | ⟨_, _ | ⟨_, _ | ⟨_, _ | ⟨_, rest⟩⟩⟩⟩⟩⟩⟩⟩⟩
  all_goals simp at rightLength ⊢

theorem bytes?_isSome_iff (values : List Nat) :
    (bytes? values).isSome = true ↔ values.length ∈ [3, 4, 6, 8] := by
  constructor
  · unfold bytes?
    split <;> simp
  · intro rightLength
    rcases shape_of_length rightLength with ⟨_, _, _, rfl⟩ | ⟨_, _, _, _, rfl⟩ |
      ⟨_, _, _, _, _, _, rfl⟩ | ⟨_, _, _, _, _, _, _, _, rfl⟩
    all_goals rfl

/-- Digits stand for bytes. -/
theorem bytes?_le
    {values : List Nat}
    (small : ∀ value ∈ values, value < 16)
    {red green blue alpha : Nat}
    (isBytes : bytes? values = some (red, green, blue, alpha)) :
    red ≤ 255 ∧ green ≤ 255 ∧ blue ≤ 255 ∧ alpha ≤ 255 := by
  have rightLength := (bytes?_isSome_iff values).mp (by rw [isBytes]; rfl)
  rcases shape_of_length rightLength with ⟨_, _, _, rfl⟩ | ⟨_, _, _, _, rfl⟩ |
    ⟨_, _, _, _, _, _, rfl⟩ | ⟨_, _, _, _, _, _, _, _, rfl⟩
  all_goals
    simp only [List.forall_mem_cons] at small
    cases isBytes
    omega

/-! ## Grammar -/

/-- A hash sign and 3, 4, 6 or 8 digits. -/
def IsColorText (text : List Char) : Prop :=
  ∃ ds, text = '#' :: ds ∧ (∀ d ∈ ds, IsDigit d) ∧ ds.length ∈ [3, 4, 6, 8]

/-- Why a text is no color; of several reasons it is the first. -/
inductive Refusal {α : Type} : List Char → ColorError α → Prop where
  | empty : Refusal [] .empty
  | missingHash {c : Char} {cs : List Char} (notHash : c ≠ '#') : Refusal (c :: cs) .missingHash
  | invalidHex {before after : List Char} {c : Char}
      (areDigits : ∀ d ∈ before, IsDigit d)
      (notDigit : ¬IsDigit c) :
      Refusal ('#' :: (before ++ c :: after)) (.invalidHex c)
  | invalidLength {ds : List Char}
      (areDigits : ∀ d ∈ ds, IsDigit d)
      (wrongLength : ds.length ∉ [3, 4, 6, 8]) :
      Refusal ('#' :: ds) (.invalidLength ds.length)

theorem isColorText_or_refusal
    {α : Type}
    (text : List Char) :
    IsColorText text ∨ ∃ error : ColorError α, Refusal text error := by
  cases text with
  | nil => exact .inr ⟨_, .empty⟩
  | cons c cs =>
    by_cases isHash : c = '#'
    · subst isHash
      by_cases areDigits : ∀ d ∈ cs, IsDigit d
      · by_cases rightLength : cs.length ∈ [3, 4, 6, 8]
        · exact .inl ⟨cs, rfl, areDigits, rightLength⟩
        · exact .inr ⟨_, .invalidLength areDigits rightLength⟩
      · obtain ⟨d, isIn, notDigit⟩ := not_forall₂.mp areDigits
        have isSome : (cs.find? fun d => !decide (IsDigit d)).isSome = true :=
          List.find?_isSome.mpr ⟨d, isIn, by simpa using notDigit⟩
        obtain ⟨first, found⟩ := Option.isSome_iff_exists.mp isSome
        obtain ⟨isOther, before, after, rfl, digitsBefore⟩ := List.find?_eq_some_iff_append.mp found
        exact .inr ⟨_, .invalidHex (by simpa using digitsBefore) (by simpa using isOther)⟩
    · exact .inr ⟨_, .missingHash isHash⟩

section Reading

variable {α : Type} [Arithmetic α] {text : List Char}

theorem exists_read (isColor : IsColorText text) :
    ∃ color : Rgba α, read text = .ok color := by
  obtain ⟨ds, rfl, areDigits, rightLength⟩ := isColor
  obtain ⟨values, denote⟩ := exists_denote areDigits
  rw [denote.length_eq, ← bytes?_isSome_iff, Option.isSome_iff_exists] at rightLength
  obtain ⟨⟨red, green, blue, alpha⟩, isBytes⟩ := rightLength
  refine ⟨ofBytes red green blue alpha, ?_⟩
  simp only [read, if_true, digits_of_denote denote, isBytes]

theorem read_of_refusal
    {error : ColorError α}
    (refusal : Refusal text error) :
    (read text : Except (ColorError α) (Rgba α)) = .error error := by
  cases refusal with
  | empty => rfl
  | missingHash notHash => simp only [read, notHash, if_false]
  | invalidHex areDigits notDigit =>
    simp only [read, if_true, digits_of_invalid areDigits notDigit]
  | @invalidLength ds areDigits wrongLength =>
    obtain ⟨values, denote⟩ := exists_denote areDigits
    rw [denote.length_eq, ← bytes?_isSome_iff, Option.not_isSome_iff_eq_none] at wrongLength
    simp only [read, if_true, digits_of_denote denote, wrongLength, denote.length_eq]

theorem exists_read_iff (text : List Char) :
    (∃ color : Rgba α, read text = .ok color) ↔ IsColorText text := by
  refine ⟨fun ⟨color, isRead⟩ => ?_, exists_read⟩
  rcases @isColorText_or_refusal α text with isColor | ⟨error, refusal⟩
  · exact isColor
  · rw [read_of_refusal refusal] at isRead
    cases isRead

theorem read_eq_error_iff
    (text : List Char)
    (error : ColorError α) :
    (read text : Except (ColorError α) (Rgba α)) = .error error ↔ Refusal text error := by
  refine ⟨fun isRefused => ?_, read_of_refusal⟩
  rcases @isColorText_or_refusal α text with isColor | ⟨_, refusal⟩
  · obtain ⟨color, isRead⟩ := exists_read (α := α) isColor
    rw [isRead] at isRefused
    cases isRefused
  · rw [read_of_refusal refusal] at isRefused
    cases isRefused
    exact refusal

end Reading

/-! ## Short digits -/

/-- Everything twice. -/
def doubled {β : Type} (items : List β) : List β :=
  items.flatMap fun item => [item, item]

@[simp] theorem doubled_nil {β : Type} : doubled ([] : List β) = [] := rfl

@[simp] theorem doubled_cons
    {β : Type}
    (item : β)
    (items : List β) :
    doubled (item :: items) = item :: item :: doubled items := rfl

theorem digits_doubled
    {α : Type}
    (cs : List Char) :
    (digits (doubled cs) : Except (ColorError α) (List Nat)) = (digits cs).map doubled := by
  induction cs with
  | nil => rfl
  | cons c cs inductionHypothesis =>
    simp only [doubled_cons, digits]
    cases digit? c with
    | none => rfl
    | some value =>
      simp only [inductionHypothesis]
      cases (digits cs : Except (ColorError α) (List Nat)) <;> rfl

/-- Doubled digits stand for the same bytes. -/
theorem bytes?_doubled
    {values : List Nat}
    (isShort : values.length = 3 ∨ values.length = 4) :
    bytes? (doubled values) = bytes? values := by
  have joined : ∀ value : Nat, value * 16 + value = value * 17 := fun value => by omega
  rcases isShort with three | four
  · obtain ⟨r, g, b, rfl⟩ := List.length_eq_three.mp three
    simp only [doubled_cons, doubled_nil, bytes?, joined]
  · obtain ⟨r, g, b, a, rfl⟩ := List.length_eq_four.mp four
    simp only [doubled_cons, doubled_nil, bytes?, joined]

theorem read_doubled
    {α : Type}
    [Arithmetic α]
    {cs : List Char}
    (isShort : cs.length = 3 ∨ cs.length = 4) :
    (read ('#' :: doubled cs) : Except (ColorError α) (Rgba α)) = read ('#' :: cs) := by
  cases isRead : (digits cs : Except (ColorError α) (List Nat)) with
  | error error => simp only [read, if_true, digits_doubled, isRead, Except.map]
  | ok values =>
    have denote := denote_of_digits isRead
    rw [denote.length_eq] at isShort
    have isSome : (bytes? values).isSome = true := by
      rw [bytes?_isSome_iff]
      rcases isShort with three | four
      · simp [three]
      · simp [four]
    obtain ⟨⟨red, green, blue, alpha⟩, isBytes⟩ := Option.isSome_iff_exists.mp isSome
    simp only [read, if_true, digits_doubled, isRead, Except.map, bytes?_doubled isShort, isBytes]

/-! ## Computing on bytes -/

/-- A result that is no byte. -/
structure Overflow
deriving DecidableEq, Repr

namespace Bounded

/-- A number as a byte. -/
def byte (n : Nat) : Except Overflow UInt8 :=
  if n < UInt8.size then .ok (UInt8.ofNat n) else .error ⟨⟩

/-- The sum of two bytes. -/
def add (left right : UInt8) : Except Overflow UInt8 :=
  byte (left.toNat + right.toNat)

/-- The product of two bytes. -/
def mul (left right : UInt8) : Except Overflow UInt8 :=
  byte (left.toNat * right.toNat)

/-- The difference of two bytes; a negative one is no byte. -/
def sub (left right : UInt8) : Except Overflow UInt8 :=
  if right ≤ left then .ok (left - right) else .error ⟨⟩

/-- How far a character is above `first`, and `more`. -/
def above (first : UInt8) (more : UInt8) (c : Char) : Except Overflow (Option UInt8) := do
  let code ← byte c.toNat
  let distance ← sub code first
  let value ← add distance more
  return some value

/-- The value of a digit, as `Hex.digit?` has it. -/
def digit? (c : Char) : Except Overflow (Option UInt8) :=
  if '0' ≤ c ∧ c ≤ '9' then above 48 0 c
  else if 'a' ≤ c ∧ c ≤ 'f' then above 97 10 c
  else if 'A' ≤ c ∧ c ≤ 'F' then above 65 10 c
  else return none

/-- The values of a text of digits, as `Hex.digits` has them. -/
def digits {α : Type} : List Char → Except Overflow (Except (ColorError α) (List UInt8))
  | [] => return .ok []
  | c :: cs => do
    match ← digit? c with
    | none => return .error (.invalidHex c)
    | some value =>
      match ← digits cs with
      | .error error => return .error error
      | .ok values => return .ok (value :: values)

/-- A short digit written twice. -/
def twice (value : UInt8) : Except Overflow UInt8 :=
  mul value 17

/-- Two digits. -/
def joined (high low : UInt8) : Except Overflow UInt8 := do
  let shifted ← mul high 16
  add shifted low

/-- The four channel bytes, as `Hex.bytes?` has them. -/
def bytes? : List UInt8 → Except Overflow (Option (UInt8 × UInt8 × UInt8 × UInt8))
  | [r, g, b] => do
    return some (← twice r, ← twice g, ← twice b, 255)
  | [r, g, b, a] => do
    return some (← twice r, ← twice g, ← twice b, ← twice a)
  | [r1, r2, g1, g2, b1, b2] => do
    return some (← joined r1 r2, ← joined g1 g2, ← joined b1 b2, 255)
  | [r1, r2, g1, g2, b1, b2, a1, a2] => do
    return some (← joined r1 r2, ← joined g1 g2, ← joined b1 b2, ← joined a1 a2)
  | _ => return none

/-- Read a hexadecimal color, as `Hex.read` does. -/
def read {α : Type} [Arithmetic α] (text : List Char) :
    Except Overflow (Except (ColorError α) (Rgba α)) :=
  match text with
  | [] => return .error .empty
  | c :: cs =>
    if c = '#' then do
      match ← digits cs with
      | .error error => return .error error
      | .ok values =>
        match ← bytes? values with
        | some (red, green, blue, alpha) =>
          return .ok (ofBytes red.toNat green.toNat blue.toNat alpha.toNat)
        | none => return .error (.invalidLength values.length)
    else return .error .missingHash

theorem byte_of_lt
    {n : Nat}
    (fits : n < 256) :
    byte n = .ok (UInt8.ofNat n) :=
  if_pos fits

theorem toNat_ofNat
    {n : Nat}
    (fits : n < 256) :
    (UInt8.ofNat n).toNat = n :=
  UInt8.toNat_ofNat_of_lt fits

theorem above_eq
    {first more : UInt8}
    {c : Char}
    (isAbove : first.toNat ≤ c.toNat)
    (fits : c.toNat + more.toNat < 256) :
    above first more c = .ok (some (UInt8.ofNat (c.toNat - first.toNat + more.toNat))) := by
  have code : byte c.toNat = .ok (UInt8.ofNat c.toNat) := byte_of_lt (by omega)
  have same := @toNat_ofNat c.toNat (by omega)
  have le : first ≤ UInt8.ofNat c.toNat := by rw [UInt8.le_iff_toNat_le, same]; exact isAbove
  have distance : sub (UInt8.ofNat c.toNat) first = .ok (UInt8.ofNat c.toNat - first) := if_pos le
  have value : add (UInt8.ofNat c.toNat - first) more =
      .ok (UInt8.ofNat (c.toNat - first.toNat + more.toNat)) := by
    rw [add, UInt8.toNat_sub_of_le _ _ le, same]
    exact byte_of_lt (by omega)
  simp only [above, code, distance, value, bind, Except.bind, pure, Except.pure]

theorem digit?_eq (c : Char) : digit? c = .ok ((Hex.digit? c).map UInt8.ofNat) := by
  have within : ∀ {first last : Char}, first ≤ c ∧ c ≤ last →
      first.toNat ≤ c.toNat ∧ c.toNat ≤ last.toNat := fun bounds => bounds
  unfold digit? Hex.digit?
  split_ifs with isDecimal isLower isUpper
  · obtain ⟨low, high⟩ := within isDecimal
    exact above_eq low (Nat.lt_of_le_of_lt (Nat.add_le_add_right high _) (by decide))
  · obtain ⟨low, high⟩ := within isLower
    exact above_eq low (Nat.lt_of_le_of_lt (Nat.add_le_add_right high _) (by decide))
  · obtain ⟨low, high⟩ := within isUpper
    exact above_eq low (Nat.lt_of_le_of_lt (Nat.add_le_add_right high _) (by decide))
  · rfl

theorem digits_eq
    {α : Type}
    (cs : List Char) :
    (digits cs : Except Overflow (Except (ColorError α) (List UInt8))) =
      .ok ((Hex.digits cs).map (List.map UInt8.ofNat)) := by
  induction cs with
  | nil => rfl
  | cons c cs inductionHypothesis =>
    simp only [digits, Hex.digits, digit?_eq, inductionHypothesis, bind, Except.bind]
    cases Hex.digit? c with
    | none => rfl
    | some value => cases (Hex.digits cs : Except (ColorError α) (List Nat)) <;> rfl

theorem twice_eq
    {value : Nat}
    (small : value < 16) :
    twice (UInt8.ofNat value) = .ok (UInt8.ofNat (value * 17)) := by
  rw [twice, mul, toNat_ofNat (by omega)]
  exact byte_of_lt (show value * 17 < 256 by omega)

theorem joined_eq
    {high low : Nat}
    (smallHigh : high < 16)
    (smallLow : low < 16) :
    joined (UInt8.ofNat high) (UInt8.ofNat low) = .ok (UInt8.ofNat (high * 16 + low)) := by
  have shifted : mul (UInt8.ofNat high) 16 = .ok (UInt8.ofNat (high * 16)) := by
    rw [mul, toNat_ofNat (by omega)]
    exact byte_of_lt (show high * 16 < 256 by omega)
  have value : add (UInt8.ofNat (high * 16)) (UInt8.ofNat low) =
      .ok (UInt8.ofNat (high * 16 + low)) := by
    rw [add, toNat_ofNat (by omega), toNat_ofNat (by omega)]
    exact byte_of_lt (by omega)
  simp only [joined, shifted, value, bind, Except.bind]

/-- Four numbers as bytes. -/
def channels : Nat × Nat × Nat × Nat → UInt8 × UInt8 × UInt8 × UInt8
  | (red, green, blue, alpha) =>
    (UInt8.ofNat red, UInt8.ofNat green, UInt8.ofNat blue, UInt8.ofNat alpha)

theorem bytes?_of_length
    {values : List UInt8}
    (wrongLength : values.length ∉ [3, 4, 6, 8]) :
    bytes? values = .ok none := by
  unfold bytes?
  split
  · simp at wrongLength
  · simp at wrongLength
  · simp at wrongLength
  · simp at wrongLength
  · rfl

theorem bytes?_eq
    {values : List Nat}
    (small : ∀ value ∈ values, value < 16) :
    bytes? (values.map UInt8.ofNat) = .ok ((Hex.bytes? values).map channels) := by
  by_cases rightLength : values.length ∈ [3, 4, 6, 8]
  · rcases shape_of_length rightLength with ⟨_, _, _, rfl⟩ | ⟨_, _, _, _, rfl⟩ |
      ⟨_, _, _, _, _, _, rfl⟩ | ⟨_, _, _, _, _, _, _, _, rfl⟩
    all_goals
      simp only [List.forall_mem_cons] at small
      simp only [List.map_cons, List.map_nil, bytes?, Hex.bytes?, twice_eq, joined_eq, small, bind,
        Except.bind, pure, Except.pure]
      rfl
  · have nothing : Hex.bytes? values = none := by
      rwa [← Option.not_isSome_iff_eq_none, bytes?_isSome_iff]
    rw [nothing]
    exact bytes?_of_length (by rwa [List.length_map])

/-- No result is too large for a byte, and none is negative. -/
theorem read_eq
    {α : Type}
    [Arithmetic α]
    (text : List Char) :
    (read text : Except Overflow (Except (ColorError α) (Rgba α))) = .ok (Hex.read text) := by
  cases text with
  | nil => rfl
  | cons c cs =>
    unfold read Hex.read
    by_cases isHash : c = '#'
    · simp only [isHash, if_true]
      simp only [digits_eq, bind, Except.bind]
      cases isRead : (Hex.digits cs : Except (ColorError α) (List Nat)) with
      | error error => rfl
      | ok values =>
        have small := (denote_of_digits isRead).small
        simp only [Except.map, bytes?_eq small]
        cases isBytes : Hex.bytes? values with
        | none => simp only [Option.map_none, List.length_map, pure, Except.pure]
        | some parts =>
          obtain ⟨red, green, blue, alpha⟩ := parts
          obtain ⟨isRed, isGreen, isBlue, isAlpha⟩ := bytes?_le small isBytes
          simp only [Option.map_some, channels, pure, Except.pure,
            toNat_ofNat (Nat.lt_succ_of_le isRed), toNat_ofNat (Nat.lt_succ_of_le isGreen),
            toNat_ofNat (Nat.lt_succ_of_le isBlue), toNat_ofNat (Nat.lt_succ_of_le isAlpha)]
    · simp only [isHash, if_false, pure, Except.pure]

end Bounded

/-- Just the texts of the grammar are colors. Any other text is refused, an empty one first, then one
without a hash sign, then one with a character that is no digit, then one with a wrong number of
digits. No byte overflows on the way, and short digits stand for doubled ones. -/
theorem read_outcome {α : Type} [Arithmetic α] :
    (∀ text, (∃ color : Rgba α, read text = .ok color) ↔ IsColorText text) ∧
    (∀ text (error : ColorError α),
      (read text : Except (ColorError α) (Rgba α)) = .error error ↔ Refusal text error) ∧
    (∀ text, (Bounded.read text : Except Overflow (Except (ColorError α) (Rgba α))) =
      .ok (read text)) ∧
    ∀ cs, cs.length = 3 ∨ cs.length = 4 →
      (read ('#' :: cs) : Except (ColorError α) (Rgba α)) = read ('#' :: doubled cs) :=
  ⟨exists_read_iff, read_eq_error_iff, Bounded.read_eq, fun _ isShort => (read_doubled isShort).symm⟩

/-- A letter of another script comes before the wrong number of digits. -/
theorem read_outcome_first_reason :
    (read "#12é4".toList : Except (ColorError Float) (Rgba Float)) = .error (.invalidHex 'é') ∧
      ("12a".toList.length = 3 ∨ "12a".toList.length = 4) ∧
      (read "#12a".toList : Except (ColorError Float) (Rgba Float)) = read "#1122aa".toList := by
  obtain ⟨-, refused, -, short⟩ := @read_outcome Float _
  have reason : @Refusal Float ('#' :: ("12".toList ++ 'é' :: "4".toList)) (.invalidHex 'é') :=
    .invalidHex (by decide) (by decide)
  have isShort : "12a".toList.length = 3 ∨ "12a".toList.length = 4 := .inl rfl
  exact ⟨(refused _ _).mpr reason, isShort, short _ isShort⟩

/-! ## Canonical spelling -/

/-- Digits without those of a full alpha. -/
def withoutFullAlpha (ds : List Char) : List Char :=
  if ds.length = 8 ∧ ds.drop 6 = ['f', 'f'] then ds.take 6 else ds

/-- The text in lower case, with short digits doubled and a full alpha dropped. -/
def canonical : List Char → List Char
  | [] => []
  | hash :: cs =>
    let ds := cs.map Char.toLower
    hash :: withoutFullAlpha (if ds.length ≤ 4 then doubled ds else ds)

/-- The alpha byte that is written: none for an opaque color. -/
def writtenAlpha (alpha : Nat) : Option Nat :=
  if alpha = 255 then none else some alpha

/-- A full alpha is spelled in one way. -/
theorem digit_eq_f_iff
    {value : Nat}
    (small : value < 16) :
    digit value = 'f' ↔ value = 15 := by
  have each : ∀ value ∈ List.range 16, digit value = 'f' ↔ value = 15 := by decide
  exact each value (List.mem_range.mpr small)

theorem byte_joined
    {high low : Nat}
    (smallLow : low < 16) :
    byte (high * 16 + low) = [digit high, digit low] := by
  have quotient : (high * 16 + low) / 16 = high := by omega
  have rest : (high * 16 + low) % 16 = low := by omega
  rw [byte, quotient, rest]

/-- Digits in lower case are those of their values. -/
theorem Denote.map_toLower
    {cs : List Char}
    {values : List Nat}
    (denote : Denote cs values) :
    cs.map Char.toLower = values.map digit := by
  induction denote with
  | nil => rfl
  | cons read _ inductionHypothesis =>
    rw [List.map_cons, List.map_cons, inductionHypothesis, (isDigit_of_digit? read).2.2]

theorem canonical_doubled
    {cs : List Char}
    (isShort : cs.length = 3 ∨ cs.length = 4) :
    canonical ('#' :: doubled cs) = canonical ('#' :: cs) := by
  rcases isShort with three | four
  · obtain ⟨r, g, b, rfl⟩ := List.length_eq_three.mp three
    rfl
  · obtain ⟨r, g, b, a, rfl⟩ := List.length_eq_four.mp four
    rfl

/-- The canonical spelling of digits that are not short is what is written for their bytes. -/
theorem canonical_eq_write
    {cs : List Char}
    {values : List Nat}
    (denote : Denote cs values)
    (isLong : values.length = 6 ∨ values.length = 8)
    {red green blue alpha : Nat}
    (isBytes : bytes? values = some (red, green, blue, alpha)) :
    canonical ('#' :: cs) = write red green blue (writtenAlpha alpha) := by
  have small := denote.small
  have rightLength := (bytes?_isSome_iff values).mp (by rw [isBytes]; rfl)
  simp only [canonical, denote.map_toLower, List.length_map]
  rcases shape_of_length rightLength with ⟨_, _, _, rfl⟩ | ⟨_, _, _, _, rfl⟩ |
    ⟨_, _, _, _, _, _, rfl⟩ | ⟨_, _, _, _, _, _, a1, a2, rfl⟩
  · simp at isLong
  · simp at isLong
  · cases isBytes
    simp only [List.forall_mem_cons] at small
    simp [withoutFullAlpha, writtenAlpha, write, byte_joined, small]
  · cases isBytes
    simp only [List.forall_mem_cons] at small
    have isFull : a1 * 16 + a2 = 255 ↔ digit a1 = 'f' ∧ digit a2 = 'f' := by
      rw [digit_eq_f_iff (by omega), digit_eq_f_iff (by omega)]
      omega
    by_cases full : a1 * 16 + a2 = 255
    · have letters := isFull.mp full
      simp [withoutFullAlpha, writtenAlpha, write, byte_joined, small, full, letters]
    · have letters := mt isFull.mpr full
      simp [withoutFullAlpha, writtenAlpha, write, byte_joined, small, full, letters]

/-- A text that is read stands for four bytes, and its canonical spelling is what is written for
them. -/
theorem exists_bytes
    {α : Type}
    [Arithmetic α]
    {text : List Char}
    {color : Rgba α}
    (isRead : read text = .ok color) :
    ∃ red green blue alpha, red ≤ 255 ∧ green ≤ 255 ∧ blue ≤ 255 ∧ alpha ≤ 255 ∧
      color = ofBytes red green blue alpha ∧
      canonical text = write red green blue (writtenAlpha alpha) := by
  obtain ⟨ds, rfl, areDigits, rightLength⟩ := (exists_read_iff text).mp ⟨color, isRead⟩
  -- short digits are doubled first
  obtain ⟨long, sameText, sameColor, isDigits, isLong⟩ :
      ∃ long, canonical ('#' :: long) = canonical ('#' :: ds) ∧
        (read ('#' :: long) : Except (ColorError α) (Rgba α)) = .ok color ∧
        (∀ d ∈ long, IsDigit d) ∧ (long.length = 6 ∨ long.length = 8) := by
    have doubledDigits : ∀ d ∈ doubled ds, IsDigit d := by
      intro d isIn
      obtain ⟨item, isItem, isPair⟩ := List.mem_flatMap.mp isIn
      have same : d = item := by simpa using isPair
      exact same ▸ areDigits item isItem
    simp only [List.mem_cons, List.not_mem_nil, or_false] at rightLength
    rcases rightLength with three | four | six | eight
    · exact ⟨doubled ds, canonical_doubled (.inl three), (read_doubled (.inl three)).trans isRead,
        doubledDigits, .inl (by simp [doubled, List.length_flatMap, three])⟩
    · exact ⟨doubled ds, canonical_doubled (.inr four), (read_doubled (.inr four)).trans isRead,
        doubledDigits, .inr (by simp [doubled, List.length_flatMap, four])⟩
    · exact ⟨ds, rfl, isRead, areDigits, .inl six⟩
    · exact ⟨ds, rfl, isRead, areDigits, .inr eight⟩
  obtain ⟨values, denote⟩ := exists_denote isDigits
  rw [denote.length_eq] at isLong
  have isSome : (bytes? values).isSome = true := by
    rw [bytes?_isSome_iff]
    rcases isLong with six | eight
    · simp [six]
    · simp [eight]
  obtain ⟨⟨red, green, blue, alpha⟩, isBytes⟩ := Option.isSome_iff_exists.mp isSome
  obtain ⟨isRed, isGreen, isBlue, isAlpha⟩ := bytes?_le denote.small isBytes
  refine ⟨red, green, blue, alpha, isRed, isGreen, isBlue, isAlpha, ?_, ?_⟩
  · simp only [read, if_true, digits_of_denote denote, isBytes, Except.ok.injEq] at sameColor
    exact sameColor.symm
  · rw [← sameText]
    exact canonical_eq_write denote isLong isBytes

/-- A channel keeps its byte, and alpha its own through the division and the multiplication by 255;
only a full alpha counts as opaque. -/
theorem byte_kept
    {n : Nat}
    (isByte : n ≤ 255) :
    channelByte (Arithmetic.ofNat n : Float) = n ∧
      isOpaque (Arithmetic.ofNat n / 255.0 : Float) = decide (n = 255) ∧
      channelByte ((Arithmetic.ofNat n / 255.0 : Float) * 255.0) = n := by
  have each : ∀ n ∈ List.range 256, channelByte (Arithmetic.ofNat n : Float) = n ∧
      isOpaque (Arithmetic.ofNat n / 255.0 : Float) = decide (n = 255) ∧
      channelByte ((Arithmetic.ofNat n / 255.0 : Float) * 255.0) = n := by
    decide +kernel
  exact each n (List.mem_range.mpr (Nat.lt_succ_of_le isByte))

/-- Bytes are written as they are. -/
theorem toList_hexText_ofBytes
    {red green blue alpha : Nat}
    (isRed : red ≤ 255)
    (isGreen : green ≤ 255)
    (isBlue : blue ≤ 255)
    (isAlpha : alpha ≤ 255) :
    (ofBytes red green blue alpha : Rgba Float).hexText.toList =
      write red green blue (writtenAlpha alpha) := by
  obtain ⟨-, fullOnly, sameAlpha⟩ := byte_kept isAlpha
  simp only [Rgba.hexText, ofBytes, String.toList_ofList, (byte_kept isRed).1, (byte_kept isGreen).1,
    (byte_kept isBlue).1, fullOnly, sameAlpha, decide_eq_true_eq, writtenAlpha]

/-- What is written for a color that was read is the canonical spelling. -/
theorem toList_hexText
    {text : List Char}
    {color : Rgba Float}
    (isRead : read text = .ok color) :
    color.hexText.toList = canonical text := by
  obtain ⟨red, green, blue, alpha, isRed, isGreen, isBlue, isAlpha, rfl, spelled⟩ :=
    exists_bytes isRead
  rw [toList_hexText_ofBytes isRed isGreen isBlue isAlpha, spelled]

/-- The canonical spelling is read as the same color. -/
theorem read_canonical
    {text : List Char}
    {color : Rgba Float}
    (isRead : read text = .ok color) :
    read (canonical text) = .ok color := by
  obtain ⟨red, green, blue, alpha, isRed, isGreen, isBlue, isAlpha, rfl, spelled⟩ :=
    exists_bytes isRead
  have within : ∀ value ∈ writtenAlpha alpha, value ≤ 255 := by
    intro value isWritten
    unfold writtenAlpha at isWritten
    split at isWritten <;> cases isWritten
    exact isAlpha
  have same : (writtenAlpha alpha).getD 255 = alpha := by
    unfold writtenAlpha
    split
    · exact Eq.symm ‹_›
    · rfl
  rw [spelled, read_write isRed isGreen isBlue within, same]

/-- A color that was read is written in the canonical spelling of its text. That spelling is read as
the same color, has itself as its canonical spelling, and is shared by just the texts of that color. -/
theorem hexText_canonical
    {text : List Char}
    {color : Rgba Float}
    (isRead : read text = .ok color) :
    color.hexText.toList = canonical text ∧
      read (canonical text) = .ok color ∧
      canonical (canonical text) = canonical text ∧
      ∀ (other : List Char) (otherColor : Rgba Float), read other = .ok otherColor →
        (canonical text = canonical other ↔ color = otherColor) := by
  have again := read_canonical isRead
  refine ⟨toList_hexText isRead, again, ?_, fun other otherColor isOther => ⟨fun same => ?_, ?_⟩⟩
  · rw [← toList_hexText again, toList_hexText isRead]
  · rw [same, read_canonical isOther] at again
    exact (Except.ok.inj again).symm
  · rintro rfl
    rw [← toList_hexText isRead, toList_hexText isOther]

/-- Short digits in upper case, and the same color with its full alpha. -/
theorem hexText_canonical_full_alpha :
    let color : Rgba Float := ofBytes 255 170 136 255
    read "#FA8".toList = .ok color ∧ read "#ffAA88fF".toList = .ok color ∧
      color.hexText.toList = "#ffaa88".toList ∧
      canonical "#FA8".toList = canonical "#ffAA88fF".toList := by
  intro color
  have isRead : read "#FA8".toList = .ok color := rfl
  have isOther : read "#ffAA88fF".toList = .ok color := rfl
  obtain ⟨written, -, -, shared⟩ := hexText_canonical isRead
  exact ⟨isRead, isOther, written, (shared _ color isOther).mpr rfl⟩

end StyleSense.Hex
