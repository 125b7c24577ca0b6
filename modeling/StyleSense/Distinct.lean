/-!
Contract: keeping the first of several items that count as the same.

Owns: `keepFirst`, with the laws that say what it keeps.

Does not own: what counts as the same, which is a key of the caller.
-/

namespace StyleSense

/-- The items of a list whose key no earlier item has. -/
def keepFirst {α κ : Type} [DecidableEq κ] (key : α → κ) : List α → List α
  | [] => []
  | item :: rest => item :: (keepFirst key rest).filter fun other => key other ≠ key item

section Laws

variable {α κ : Type} [DecidableEq κ] (key : α → κ)

/-- What is kept stands in the same order as before. -/
theorem keepFirst_sublist (items : List α) :
    (keepFirst key items).Sublist items := by
  induction items with
  | nil => exact List.Sublist.slnil
  | cons item rest inductionHypothesis =>
    exact (List.filter_sublist.trans inductionHypothesis).cons_cons item

/-- No two items that are kept have the same key. -/
theorem pairwise_keepFirst (items : List α) :
    (keepFirst key items).Pairwise fun left right => key left ≠ key right := by
  induction items with
  | nil => exact List.Pairwise.nil
  | cons item rest inductionHypothesis =>
    refine List.Pairwise.cons ?_ (inductionHypothesis.filter _)
    intro other isKept
    have differs := (List.mem_filter.1 isKept).2
    exact fun same => (of_decide_eq_true differs) same.symm

/-- Every key of the list is the key of an item that is kept. -/
theorem exists_mem_keepFirst
    {items : List α}
    {item : α}
    (isItem : item ∈ items) :
    ∃ kept ∈ keepFirst key items, key kept = key item := by
  induction items with
  | nil => exact absurd isItem (List.not_mem_nil)
  | cons first rest inductionHypothesis =>
    by_cases same : key item = key first
    · exact ⟨first, List.mem_cons_self, same.symm⟩
    · have isLater : item ∈ rest := by
        rcases List.mem_cons.1 isItem with rfl | isLater
        · exact absurd rfl same
        · exact isLater
      obtain ⟨kept, isKept, sameKey⟩ := inductionHypothesis isLater
      refine ⟨kept, List.mem_cons_of_mem _ (List.mem_filter.2 ⟨isKept, ?_⟩), sameKey⟩
      simpa [sameKey] using same

/-- A list without equal keys is kept as it is. -/
theorem keepFirst_eq_self
    {items : List α}
    (nodup : (items.map key).Nodup) :
    keepFirst key items = items := by
  induction items with
  | nil => rfl
  | cons item rest inductionHypothesis =>
    obtain ⟨isNew, later⟩ := List.nodup_cons.mp nodup
    rw [keepFirst, inductionHypothesis later]
    congr 1
    rw [List.filter_eq_self]
    intro other isIn
    rw [decide_eq_true_eq]
    exact fun same => isNew (same ▸ List.mem_map_of_mem isIn)

/-- The keys of what is kept are those of the list. -/
theorem mem_map_keepFirst
    (items : List α)
    (present : κ) :
    present ∈ (keepFirst key items).map key ↔ present ∈ items.map key := by
  constructor
  · intro isKept
    exact ((keepFirst_sublist key items).map key).subset isKept
  · intro isKey
    obtain ⟨item, isItem, rfl⟩ := List.mem_map.1 isKey
    obtain ⟨kept, isKept, sameKey⟩ := exists_mem_keepFirst key isItem
    exact List.mem_map.2 ⟨kept, isKept, sameKey⟩

/-- Of a second list, only what has a new key is kept. -/
theorem keepFirst_append (left right : List α) :
    keepFirst key (left ++ right) =
      keepFirst key left ++ (keepFirst key right).filter fun item => key item ∉ left.map key := by
  induction left with
  | nil =>
    have isNew : ∀ item ∈ keepFirst key right, decide (key item ∉ ([] : List α).map key) = true := by
      simp
    rw [List.filter_eq_self.2 isNew]
    rfl
  | cons first rest inductionHypothesis =>
    rw [List.cons_append, keepFirst, keepFirst, inductionHypothesis, List.filter_append,
      List.filter_filter, List.cons_append]
    congr 2
    apply List.filter_congr
    intro item _
    simp [not_or]

/-- One more item is kept when its key is new. -/
theorem keepFirst_concat
    (items : List α)
    (item : α) :
    keepFirst key (items ++ [item]) =
      if key item ∈ (keepFirst key items).map key then keepFirst key items
      else keepFirst key items ++ [item] := by
  have single : keepFirst key [item] = [item] := rfl
  simp only [keepFirst_append, single, mem_map_keepFirst]
  split
  · rename_i known
    rw [List.filter_cons_of_neg (by simpa using known), List.filter_nil, List.append_nil]
  · rename_i isNew
    rw [List.filter_cons_of_pos (by simpa using isNew), List.filter_nil]

/-- What is kept for a key is the first item that has it. -/
theorem find?_keepFirst
    (items : List α)
    (present : κ) :
    (keepFirst key items).find? (fun item => key item = present) =
      items.find? fun item => key item = present := by
  induction items with
  | nil => rfl
  | cons item rest inductionHypothesis =>
    rw [keepFirst, List.find?_cons, List.find?_cons]
    by_cases isFirst : key item = present
    · simp only [isFirst, decide_true]
    · simp only [isFirst, decide_false]
      rw [List.find?_filter, ← inductionHypothesis]
      congr 1
      funext other
      by_cases same : key other = present
      · simp [same, Ne.symm isFirst]
      · simp [same]

/-- Keeping the first of equal keys and leaving items out by what their key tells are independent
of each other. -/
theorem keepFirst_filter
    {keeps : α → Bool}
    (determined : ∀ left right, key left = key right → keeps left = keeps right)
    (items : List α) :
    keepFirst key (items.filter keeps) = (keepFirst key items).filter keeps := by
  induction items with
  | nil => rfl
  | cons item rest inductionHypothesis =>
    rw [keepFirst, List.filter_cons, List.filter_cons]
    split
    · rw [keepFirst, inductionHypothesis, List.filter_filter, List.filter_filter]
      congr 1
      apply List.filter_congr
      intro other _
      exact Bool.and_comm _ _
    · -- what has the key of an item that is left out is left out as well
      rename_i leftOut
      rw [inductionHypothesis, List.filter_filter]
      apply List.filter_congr
      intro other _
      by_cases same : key other = key item
      · simp [determined other item same, leftOut]
      · simp [same]

variable {key}

/-- What is kept of two lists depends on what is kept of each. -/
theorem keepFirst_append_congr
    {left left' right right' : List α}
    (lefts : keepFirst key left = keepFirst key left')
    (rights : keepFirst key right = keepFirst key right') :
    keepFirst key (left ++ right) = keepFirst key (left' ++ right') := by
  have sameKeys : ∀ present, present ∈ left.map key ↔ present ∈ left'.map key := by
    intro present
    rw [← mem_map_keepFirst, lefts, mem_map_keepFirst]
  rw [keepFirst_append, keepFirst_append, lefts, rights]
  congr 1
  apply List.filter_congr
  intro item _
  simp only [sameKeys]

/-- A list without new keys adds nothing. -/
theorem keepFirst_append_of_subset
    {left right : List α}
    (known : right.map key ⊆ left.map key) :
    keepFirst key (left ++ right) = keepFirst key left := by
  rw [keepFirst_append, List.filter_eq_nil_iff.2, List.append_nil]
  intro item isKept
  have isKey := known (List.mem_map_of_mem ((keepFirst_sublist key right).subset isKept))
  simpa using isKey

end Laws

end StyleSense
