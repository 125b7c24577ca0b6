import StyleSense.Color.Named
import StyleSense.Proofs.Color.Hex
import StyleSense.Proofs.Text.Bytes

/-!
Contract: a search among the color keywords finds just what the table has.

The search halves a range of entries that are in strictly increasing order. An entry that it finds is
one of the range in any order; that it misses none needs the order.

Owns:
- `search_sound` and `search_complete`, for every array of entries;
- `table_increasing` and `table_values`, what the table of keywords has to be like;
- `lookup_finds_table`: a name is looked up as if the table were read from its start to its end, and
  it is read as a color just when it is in the table.

Does not own: the places at which keywords stand in a document (`StyleSense.Proofs.Swatch.Place`).
-/

namespace StyleSense.Named

open Text

/-! ## Searching a range -/

section Search

variable {entries : Array (String × String)} {name value : String} {low high : Nat}

/-- The names of the entries are in strictly increasing order. -/
def Increasing (entries : Array (String × String)) : Prop :=
  entries.toList.Pairwise fun left right => left.1 < right.1

/-- What is found stands in the range, in whatever order the entries are. -/
theorem search_sound
    (found : search entries name low high = some value) :
    ∃ index, low ≤ index ∧ index < high ∧ entries[index]? = some (name, value) := by
  fun_induction search entries name low high with
  | case1 => cases found
  | case2 low high inside middle candidate isMiddle =>
    cases found
    exact ⟨middle, by omega, by omega, isMiddle⟩
  | case3 low high inside middle candidate read isMiddle other before inductionHypothesis =>
    obtain ⟨index, above, below, isEntry⟩ := inductionHypothesis found
    exact ⟨index, above, by omega, isEntry⟩
  | case4 low high inside middle candidate read isMiddle other notBefore inductionHypothesis =>
    obtain ⟨index, above, below, isEntry⟩ := inductionHypothesis found
    exact ⟨index, by omega, below, isEntry⟩
  | case5 => cases found

/-- In increasing order an entry with a smaller index has a smaller name. -/
theorem Increasing.lt
    (increasing : Increasing entries)
    {left right : String × String}
    {i j : Nat}
    (isLeft : entries[i]? = some left)
    (isRight : entries[j]? = some right)
    (before : i < j) :
    left.1 < right.1 := by
  obtain ⟨leftBound, rfl⟩ := Array.getElem?_eq_some_iff.mp isLeft
  obtain ⟨rightBound, rfl⟩ := Array.getElem?_eq_some_iff.mp isRight
  have ordered := List.pairwise_iff_getElem.mp increasing i j (by simpa using leftBound)
    (by simpa using rightBound) before
  simpa using ordered

/-- In increasing order no entry of the range is missed. -/
theorem search_complete
    (increasing : Increasing entries)
    (bounded : high ≤ entries.size)
    {index : Nat}
    (above : low ≤ index)
    (below : index < high)
    (isEntry : entries[index]? = some (name, value)) :
    search entries name low high = some value := by
  fun_induction search entries name low high with
  | case1 low high inside middle isNothing =>
    have beyond := Array.getElem?_eq_none_iff.mp isNothing
    omega
  | case2 low high inside middle candidate isMiddle =>
    -- two entries of one name are one entry
    rcases Nat.lt_trichotomy index middle with before | rfl | after
    · exact absurd (increasing.lt isEntry isMiddle before) (String.lt_irrefl name)
    · cases isMiddle.symm.trans isEntry
      rfl
    · exact absurd (increasing.lt isMiddle isEntry after) (String.lt_irrefl name)
  | case3 low high inside middle candidate read isMiddle other before inductionHypothesis =>
    refine inductionHypothesis (by omega) above ?_
    rcases Nat.lt_trichotomy index middle with isLeft | rfl | isRight
    · exact isLeft
    · cases isMiddle.symm.trans isEntry
      exact absurd rfl other
    · exact absurd (increasing.lt isMiddle isEntry isRight) (String.lt_asymm before)
  | case4 low high inside middle candidate read isMiddle other notBefore inductionHypothesis =>
    refine inductionHypothesis bounded ?_ below
    rcases Nat.lt_trichotomy index middle with isLeft | rfl | isRight
    · exact absurd (increasing.lt isEntry isMiddle isLeft) notBefore
    · cases isMiddle.symm.trans isEntry
      exact absurd rfl other
    · exact isRight
  | case5 low high outside => omega

end Search

/-! ## The table -/

/-- The keywords are in strictly increasing order, as their bytes are. -/
theorem table_increasing : Increasing table := by
  have steps : table.toList.IsChain fun left right => bytes left.1 < bytes right.1 := by
    decide +kernel
  have names : table.toList.IsChain fun left right => left.1 < right.1 :=
    steps.imp fun left right less => (lt_iff_bytes_lt left.1 right.1).mpr less
  exact List.isChain_iff_pairwise.mp names

/-- The code of a digit; the values are written in lower case. -/
def IsDigitCode (code : Nat) : Prop :=
  48 ≤ code ∧ code ≤ 57 ∨ 97 ≤ code ∧ code ≤ 102

instance : DecidablePred IsDigitCode := fun _ => inferInstanceAs (Decidable (_ ∨ _))

theorem IsDigitCode.isDigit : ∀ code < 128, IsDigitCode code → Hex.IsDigit (Char.ofNat code) := by
  decide +kernel

/-- The bytes of a value: a hash sign and six digits. -/
def isWritten : List UInt8 → Bool
  | [] => false
  | sign :: digits => sign == 35 && digits.length == 6 && digits.all fun b => IsDigitCode b.toNat

theorem isColorText_of_isWritten
    {text : String}
    (written : isWritten (bytes text) = true) :
    Hex.IsColorText text.toList := by
  have ascii := @toList_of_ascii text
  cases whole : bytes text with
  | nil =>
    rw [whole] at written
    cases written
  | cons sign digits =>
    rw [whole] at written ascii
    simp only [isWritten, Bool.and_eq_true, beq_iff_eq, List.all_eq_true, decide_eq_true_eq] at written
    obtain ⟨⟨rfl, length⟩, areDigits⟩ := written
    have small : ∀ b ∈ digits, b.toNat < 128 := by
      intro b isIn
      have isCode := areDigits b isIn
      unfold IsDigitCode at isCode
      omega
    refine ⟨digits.map fun b => Char.ofNat b.toNat, ?_, ?_, ?_⟩
    · exact ascii (List.forall_mem_cons.mpr ⟨by decide, small⟩)
    · exact List.forall_mem_map.mpr fun b isIn =>
        (areDigits b isIn).isDigit b.toNat (small b isIn)
    · simp [length]

/-- Every value is a hexadecimal color. -/
theorem table_values : ∀ entry ∈ table.toList, Hex.IsColorText entry.2.toList := by
  -- the bytes of a value are evaluated much faster than its characters
  have written : ∀ entry ∈ table.toList, isWritten (bytes entry.2) = true := by decide +kernel
  exact fun entry isEntry => isColorText_of_isWritten (written entry isEntry)

theorem lookup?_eq_some_iff (name value : String) :
    lookup? name = some value ↔ (name, value) ∈ table := by
  constructor
  · intro found
    obtain ⟨index, -, -, isEntry⟩ := search_sound found
    exact Array.mem_of_getElem? isEntry
  · intro isEntry
    obtain ⟨index, isIndex⟩ := Array.mem_iff_getElem?.mp isEntry
    obtain ⟨bounded, -⟩ := Array.getElem?_eq_some_iff.mp isIndex
    exact search_complete table_increasing (Nat.le_refl _) (Nat.zero_le _) bounded isIndex

theorem lookup?_eq_none_iff (name : String) :
    lookup? name = none ↔ ∀ value, (name, value) ∉ table := by
  simp only [Option.eq_none_iff_forall_ne_some, ne_eq, lookup?_eq_some_iff]

theorem isColor_iff (name : String) :
    isColor name = true ↔ ∃ value, (name, value) ∈ table := by
  rw [isColor, Option.isSome_iff_exists]
  exact exists_congr fun value => lookup?_eq_some_iff name value

/-- A name is looked up as if the table were read from its start to its end. -/
theorem lookup?_eq_find? (name : String) :
    lookup? name = (table.toList.find? fun entry => entry.1 = name).map Prod.snd := by
  cases first : table.toList.find? fun entry => entry.1 = name with
  | none =>
    rw [Option.map_none, lookup?_eq_none_iff]
    intro value isEntry
    have other := List.find?_eq_none.mp first _ (Array.mem_toList_iff.mpr isEntry)
    exact other (decide_eq_true rfl)
  | some entry =>
    obtain ⟨entryName, value⟩ := entry
    have sameName : entryName = name := by simpa using List.find?_some first
    subst sameName
    rw [Option.map_some, lookup?_eq_some_iff]
    exact Array.mem_toList_iff.mp (List.mem_of_find?_eq_some first)

/-! ## Colors of keywords -/

section Read

variable {α : Type} [Arithmetic α]

theorem read_of_mem
    {name value : String}
    (isEntry : (name, value) ∈ table) :
    (read name : Except (ColorError α) (Rgba α)) = Hex.read value.toList := by
  rw [read, (lookup?_eq_some_iff name value).mpr isEntry]

theorem read_of_not_mem
    {name : String}
    (missing : ∀ value, (name, value) ∉ table) :
    (read name : Except (ColorError α) (Rgba α)) = .error (.unknownName name) := by
  rw [read, (lookup?_eq_none_iff name).mpr missing]

theorem exists_read_of_mem
    {name value : String}
    (isEntry : (name, value) ∈ table) :
    ∃ color : Rgba α, read name = .ok color ∧ Hex.read value.toList = .ok color := by
  have isColorText := table_values (name, value) (Array.mem_toList_iff.mpr isEntry)
  obtain ⟨color, isRead⟩ := Hex.exists_read (α := α) isColorText
  exact ⟨color, (read_of_mem isEntry).trans isRead, isRead⟩

end Read

/-- The search finds just the table. A name has a value when the two are an entry of the table, which
is the value that a search from the start of the table comes to first. A name with an entry is read as
the color of its value, which is always one; any other name is refused as unknown, and nothing else is
wrong with a name. -/
theorem lookup_finds_table {α : Type} [Arithmetic α] (name : String) :
    (∀ value, lookup? name = some value ↔ (name, value) ∈ table) ∧
    lookup? name = (table.toList.find? fun entry => entry.1 = name).map Prod.snd ∧
    (isColor name = true ↔ ∃ value, (name, value) ∈ table) ∧
    ((∃ color : Rgba α, read name = .ok color) ↔ ∃ value, (name, value) ∈ table) ∧
    (∀ color : Rgba α, read name = .ok color ↔
      ∃ value, (name, value) ∈ table ∧ Hex.read value.toList = .ok color) ∧
    ∀ error : ColorError α, read name = .error error ↔
      error = .unknownName name ∧ ¬∃ value, (name, value) ∈ table := by
  refine ⟨lookup?_eq_some_iff name, lookup?_eq_find? name, isColor_iff name, ?_⟩
  by_cases isKeyword : ∃ value, (name, value) ∈ table
  · obtain ⟨value, isEntry⟩ := isKeyword
    obtain ⟨color, isRead, isValue⟩ := exists_read_of_mem (α := α) isEntry
    refine ⟨⟨fun _ => ⟨value, isEntry⟩, fun _ => ⟨color, isRead⟩⟩, fun other => ?_, fun error => ?_⟩
    · constructor
      · intro isOther
        exact ⟨value, isEntry, (read_of_mem isEntry).symm.trans isOther⟩
      · rintro ⟨value', isEntry', isValue'⟩
        exact (read_of_mem isEntry').trans isValue'
    · constructor
      · intro refused
        cases isRead.symm.trans refused
      · rintro ⟨-, missing⟩
        exact absurd ⟨value, isEntry⟩ missing
  · have refused := read_of_not_mem (α := α) (not_exists.mp isKeyword)
    refine ⟨⟨fun ⟨color, isRead⟩ => ?_, fun isKnown => absurd isKnown isKeyword⟩, fun color => ?_,
      fun error => ?_⟩
    · cases refused.symm.trans isRead
    · constructor
      · intro isRead
        cases refused.symm.trans isRead
      · rintro ⟨value, isEntry, -⟩
        exact absurd ⟨value, isEntry⟩ isKeyword
    · constructor
      · intro isError
        cases refused.symm.trans isError
        exact ⟨rfl, isKeyword⟩
      · rintro ⟨rfl, -⟩
        exact refused

end StyleSense.Named
