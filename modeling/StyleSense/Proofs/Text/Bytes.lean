import Mathlib.Data.String.Basic

/-!
Contract: the bytes of a text.

Owns:
- `bytes`, the UTF-8 encoding of a text;
- `lt_iff_bytes_lt`: texts are in the same order by their characters and by their bytes;
- `toList_of_ascii`: bytes below 128 are the characters of a text.

Does not own: offsets counted in bytes (`StyleSense.Text.Offset`).
-/

namespace StyleSense.Text

/-- The bytes of a text. -/
def bytes (text : String) : List UInt8 :=
  text.toByteArray.data.toList

theorem bytes_eq (text : String) : bytes text = text.toList.flatMap String.utf8EncodeChar := by
  rw [bytes, ← String.utf8Encode_toList, List.utf8Encode]
  simp

theorem bytes_append (left right : String) : bytes (left ++ right) = bytes left ++ bytes right := by
  rw [bytes, String.toByteArray_append, ByteArray.data_append, Array.toList_append]
  rfl

/-! ## Order -/

theorem ofNat_lt_ofNat_iff
    {left right : Nat}
    (smallLeft : left < 256)
    (smallRight : right < 256) :
    UInt8.ofNat left < UInt8.ofNat right ↔ left < right := by
  rw [UInt8.lt_iff_toNat_lt, UInt8.toNat_ofNat', UInt8.toNat_ofNat', Nat.mod_eq_of_lt smallLeft,
    Nat.mod_eq_of_lt smallRight]

theorem ofNat_eq_ofNat_iff
    {left right : Nat}
    (smallLeft : left < 256)
    (smallRight : right < 256) :
    UInt8.ofNat left = UInt8.ofNat right ↔ left = right := by
  rw [← UInt8.toNat_inj, UInt8.toNat_ofNat', UInt8.toNat_ofNat', Nat.mod_eq_of_lt smallLeft,
    Nat.mod_eq_of_lt smallRight]

/-- Of two characters the smaller one has the smaller bytes, whatever follows either. -/
theorem utf8EncodeChar_lt
    {c d : Char}
    (less : c < d)
    (cs ds : List UInt8) :
    String.utf8EncodeChar c ++ cs < String.utf8EncodeChar d ++ ds := by
  have bound : d.val.toNat < 0x110000 := by
    have valid := d.valid
    simp only [UInt32.isValidChar, Nat.isValidChar] at valid
    omega
  have lessCode : c.val.toNat < d.val.toNat := less
  unfold String.utf8EncodeChar
  generalize c.val.toNat = code at *
  generalize d.val.toNat = code' at *
  -- each group of six bits is cut off the one before it
  have groups : ∀ n : Nat, n / 4096 = n / 64 / 64 ∧ n / 262144 = n / 64 / 64 / 64 := by omega
  simp only [groups]
  split_ifs
  all_goals first
    | omega
    | simp (disch := omega) only [List.cons_append, List.nil_append, List.cons_lt_cons_iff,
        ofNat_lt_ofNat_iff, ofNat_eq_ofNat_iff]
      omega

theorem flatMap_utf8EncodeChar_lt
    {left right : List Char}
    (less : left < right) :
    left.flatMap String.utf8EncodeChar < right.flatMap String.utf8EncodeChar := by
  induction less with
  | nil =>
    rename_i d ds
    obtain ⟨first, others, whole⟩ := List.exists_cons_of_ne_nil (@String.utf8EncodeChar_ne_nil d)
    rw [List.flatMap_nil, List.flatMap_cons, whole]
    exact List.nil_lt_cons _ _
  | rel first => exact utf8EncodeChar_lt first _ _
  | cons later inductionHypothesis =>
    rw [List.flatMap_cons, List.flatMap_cons]
    exact List.append_left_lt inductionHypothesis

/-- Texts are in the order of their bytes. -/
theorem lt_iff_bytes_lt (left right : String) : left < right ↔ bytes left < bytes right := by
  rw [bytes_eq, bytes_eq]
  constructor
  · exact fun less => flatMap_utf8EncodeChar_lt less
  · intro less
    rcases lt_trichotomy left right with isLess | rfl | isGreater
    · exact isLess
    · exact absurd less (List.lt_irrefl _)
    · exact absurd less (List.lt_asymm (flatMap_utf8EncodeChar_lt isGreater))

/-! ## ASCII -/

theorem utf8EncodeChar_of_ascii
    {c : Char}
    (small : ∀ b ∈ String.utf8EncodeChar c, b < 128) :
    String.utf8EncodeChar c = [UInt8.ofNat c.toNat] ∧ c.toNat < 128 := by
  have smallNat : ∀ n : Nat, n < 256 → UInt8.ofNat n < 128 → n < 128 :=
    fun n fits less => (ofNat_lt_ofNat_iff fits (by decide)).mp less
  unfold String.utf8EncodeChar at small ⊢
  simp only at small ⊢
  split_ifs at small ⊢ with one two three
  · exact ⟨rfl, Nat.lt_succ_of_le one⟩
  all_goals
    -- the first byte of several is at least 192
    have first := smallNat _ (by omega) (small _ (List.mem_cons_self ..))
    omega

/-- The characters of a text whose bytes are all below 128. -/
theorem toList_of_ascii
    {text : String}
    (small : ∀ b ∈ bytes text, b < 128) :
    text.toList = (bytes text).map fun b => Char.ofNat b.toNat := by
  rw [bytes_eq] at small ⊢
  generalize text.toList = cs at small ⊢
  induction cs with
  | nil => rfl
  | cons c rest inductionHypothesis =>
    rw [List.flatMap_cons] at small ⊢
    obtain ⟨here, later⟩ := List.forall_mem_append.mp small
    obtain ⟨single, ascii⟩ := utf8EncodeChar_of_ascii here
    have same : (UInt8.ofNat c.toNat).toNat = c.toNat := by
      rw [UInt8.toNat_ofNat', Nat.mod_eq_of_lt (by omega)]
    rw [single, List.map_append, ← inductionHypothesis later, List.map_singleton, same,
      Char.ofNat_toNat, List.singleton_append]

end StyleSense.Text
