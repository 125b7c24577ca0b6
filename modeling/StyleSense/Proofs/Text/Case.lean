import StyleSense.Text.Case

/-!
Contract: a text in lower case has no ASCII capitals.

Owns:
- that `lowerChar` gives no ASCII capital, from `toLower_of_large`;
- `map_toLower_lowercase`, the same for a whole text.
-/

namespace StyleSense.Text

theorem toLower_of_large {c : Char} (large : 90 < c.toNat) : c.toLower = c := by
  have noCapital : ¬(c.val ≥ 'A'.val ∧ c.val ≤ 'Z'.val) := by
    rintro ⟨_, low⟩
    have : c.toNat ≤ 90 := low
    omega
  exact dif_neg noCapital

theorem toLower_toLower (c : Char) : c.toLower.toLower = c.toLower := by
  by_cases isCapital : c.val ≥ 'A'.val ∧ c.val ≤ 'Z'.val
  · apply toLower_of_large
    have high : 65 ≤ c.toNat := isCapital.1
    have low : c.toNat ≤ 90 := isCapital.2
    have small : c.toLower.toNat = c.toNat + 32 := by
      have moved : c.toLower.val = c.val + 32 := congrArg Char.val (dif_pos isCapital)
      have enough : c.val.toNat + 32 < 2 ^ 32 := by
        have : c.val.toNat ≤ 90 := low
        omega
      show c.toLower.val.toNat = c.val.toNat + 32
      rw [moved, UInt32.toNat_add]
      exact Nat.mod_eq_of_lt enough
    omega
  · have same : c.toLower = c := dif_neg isCapital
    rw [same, same]

/-- No capital above the ASCII block has a small form that is an ASCII capital. -/
theorem ninety_lt_of_mem_capitalRuns {run : CaseRun} (isRun : run ∈ capitalRuns) :
    90 < run.first + run.shift := by
  have each : ∀ run ∈ capitalRuns, 90 < run.first + run.shift := by decide +kernel
  exact each run isRun

theorem toLower_ofNat {code : Nat} (large : 90 < code) :
    (Char.ofNat code).toLower = Char.ofNat code := by
  by_cases valid : code.isValidChar
  · have same : (Char.ofNat code).toNat = code := by
      rw [Char.ofNat, dif_pos valid]
      rfl
    exact toLower_of_large (same.symm ▸ large)
  · rw [Char.ofNat, dif_neg valid]
    rfl

theorem toLower_of_mem_lowerChar {c d : Char} (isSmall : c ∈ lowerChar d) : c.toLower = c := by
  rw [lowerChar] at isSmall
  split at isSmall
  · rw [List.mem_singleton.1 isSmall, toLower_toLower]
  · rename_i notAscii
    split at isSmall
    · rcases List.mem_cons.1 isSmall with rfl | isSmall
      · rfl
      · rw [List.mem_singleton.1 isSmall]
        rfl
    · split at isSmall
      · rename_i run found
        have isCapital := List.find?_some found
        have high := ninety_lt_of_mem_capitalRuns (List.mem_of_find?_eq_some found)
        simp only [CaseRun.holds, Bool.and_eq_true, decide_eq_true_eq] at isCapital
        rw [List.mem_singleton.1 isSmall]
        exact toLower_ofNat (by omega)
      · rw [List.mem_singleton.1 isSmall]
        have large : 128 ≤ d.toNat := Nat.le_of_not_lt fun low => notAscii low
        exact toLower_of_large (by omega)

/-- Making ASCII letters small changes nothing in a text in lower case. -/
theorem map_toLower_lowercase (cs : List Char) :
    (lowercase cs).map Char.toLower = lowercase cs := by
  have unchanged : ∀ c ∈ lowercase cs, c.toLower = c := by
    intro c isIn
    rcases mem_lowercase isIn with rfl | rfl | ⟨d, _, isSmall⟩
    · rfl
    · rfl
    · exact toLower_of_mem_lowerChar isSmall
  rw [List.map_congr_left unchanged, List.map_id']

end StyleSense.Text
