import Mathlib.Data.List.Induction
import StyleSense.Swatch.Colors

/-!
Contract: the entries that are made of a list of colors.

The colors are taken one after the other. One that cannot be computed changes nothing, and one whose
range starts where that of an earlier entry does changes nothing either.

Owns:
- `Document.entries_eq_foldl`: the entries are collected in one pass;
- `Document.entries_of_computed`: colors that cannot be computed have no part in the entries, and each
  place has the entry of the first computed color that is found there.

Does not own: the places at which the colors of a parsed text are found
(`StyleSense.Proofs.Swatch.Place`).
-/

namespace StyleSense

/-- The place at which a color is found. -/
abbrev Occurrence.start (document : Document) (occurrence : Occurrence) : Place :=
  (occurrence.range document).start

/-- The range and the color of an entry. -/
def ColorEntry.pair (entry : ColorEntry) : Span × Except (ColorError Float) (Rgba Float) :=
  (entry.range, .ok entry.color)

/-- The range of a color, and the color or the reason why it cannot be computed. -/
def Occurrence.pair (document : Document) (occurrence : Occurrence) :
    Span × Except (ColorError Float) (Rgba Float) :=
  (occurrence.range document, occurrence.color)

namespace Document

variable (document : Document)

/-- Take one more color into account. -/
def addOccurrence (entries : List ColorEntry) (occurrence : Occurrence) : List ColorEntry :=
  match occurrence.entry? document with
  | none => entries
  | some entry =>
    if entry.range.start ∈ entries.map (fun earlier => earlier.range.start) then entries
    else entries ++ [entry]

theorem entries_concat
    (occurrences : List Occurrence)
    (occurrence : Occurrence) :
    document.entries (occurrences ++ [occurrence]) =
      document.addOccurrence (document.entries occurrences) occurrence := by
  unfold entries addOccurrence
  rw [List.filterMap_append]
  cases isEntry : occurrence.entry? document with
  | none => simp [isEntry]
  | some entry => simp only [List.filterMap_cons, List.filterMap_nil, isEntry, keepFirst_concat]

/-- The entries are collected in one pass over the colors. -/
theorem entries_eq_foldl (occurrences : List Occurrence) :
    document.entries occurrences = occurrences.foldl document.addOccurrence [] := by
  induction occurrences using List.reverseRecOn with
  | nil => rfl
  | append_singleton occurrences occurrence inductionHypothesis =>
    rw [entries_concat, inductionHypothesis, List.foldl_append, List.foldl_cons, List.foldl_nil]

/-- A color that cannot be computed changes nothing. -/
theorem addOccurrence_of_error
    {occurrence : Occurrence}
    {reason : ColorError Float}
    (notComputed : occurrence.color = .error reason)
    (entries : List ColorEntry) :
    document.addOccurrence entries occurrence = entries := by
  simp only [addOccurrence, Occurrence.entry?, notComputed]

theorem entries_filter_isOk (occurrences : List Occurrence) :
    document.entries (occurrences.filter fun occurrence => occurrence.color.isOk) =
      document.entries occurrences := by
  rw [entries_eq_foldl, entries_eq_foldl, List.foldl_filter]
  congr 1
  funext entries occurrence
  cases color : occurrence.color with
  | ok _ => rfl
  | error reason => exact (document.addOccurrence_of_error color entries).symm

/-- Before places are compared, the entries have the ranges and colors of the computed colors. -/
theorem map_filterMap_entry? (occurrences : List Occurrence) :
    (occurrences.filterMap (Occurrence.entry? document)).map ColorEntry.pair =
      (occurrences.filter fun occurrence => occurrence.color.isOk).map (Occurrence.pair document) := by
  rw [List.map_filterMap, ← List.filterMap_eq_map, List.filterMap_filter]
  congr 1
  funext occurrence
  cases color : occurrence.color <;>
    simp [Occurrence.entry?, Occurrence.pair, ColorEntry.pair, color, Except.isOk, Except.toBool]

/-- Looking for a place among the computed colors is looking for it among the entries before places are
compared. -/
theorem find?_filterMap_entry?
    (occurrences : List Occurrence)
    (place : Place) :
    (occurrences.filterMap (Occurrence.entry? document)).find? (fun entry => entry.range.start = place) =
      ((occurrences.filter fun occurrence => occurrence.color.isOk).find?
        fun occurrence => occurrence.start document = place).bind (Occurrence.entry? document) := by
  rw [List.find?_filterMap, List.find?_filter]
  congr 2
  funext occurrence
  cases color : occurrence.color <;>
    simp [Occurrence.entry?, color, Except.isOk, Except.toBool]

/-- A computed color has an entry. -/
theorem exists_entry_of_isOk
    {occurrence : Occurrence}
    (isComputed : occurrence.color.isOk) :
    ∃ entry, occurrence.entry? document = some entry ∧ entry.pair = occurrence.pair document := by
  unfold Occurrence.entry? ColorEntry.pair Occurrence.pair
  cases color : occurrence.color with
  | ok value => exact ⟨⟨occurrence.range document, value⟩, rfl, rfl⟩
  | error reason => rw [color] at isComputed; cases isComputed

/-- Colors that cannot be computed have no part in the entries. The entries are computed colors in their
order, and each place at which a computed color is found has one entry, that of the first one. -/
theorem entries_of_computed (occurrences : List Occurrence) :
    let computed := occurrences.filter fun occurrence => occurrence.color.isOk
    document.entries occurrences = document.entries computed ∧
    ((document.entries occurrences).map ColorEntry.pair).Sublist
      (computed.map (Occurrence.pair document)) ∧
    (document.entries occurrences).Pairwise
      (fun left right => left.range.start ≠ right.range.start) ∧
    ∀ occurrence ∈ computed, ∃ first, ∃ entry ∈ document.entries occurrences,
      computed.find? (fun other => other.start document = occurrence.start document) = some first ∧
      entry.pair = first.pair document ∧ entry.range.start = occurrence.start document := by
  intro computed
  refine ⟨(document.entries_filter_isOk occurrences).symm, ?_, pairwise_keepFirst _ _,
    fun occurrence isOne => ?_⟩
  · rw [← map_filterMap_entry?]
    exact (keepFirst_sublist _ _).map _
  · obtain ⟨first, isFirst⟩ : ∃ first,
        computed.find? (fun other => other.start document = occurrence.start document) = some first :=
      Option.isSome_iff_exists.mp (List.find?_isSome.mpr ⟨occurrence, isOne, by simp⟩)
    obtain ⟨entry, isEntry, sameColor⟩ :=
      document.exists_entry_of_isOk (List.mem_filter.mp (List.mem_of_find?_eq_some isFirst)).2
    have kept : (document.entries occurrences).find?
        (fun entry => entry.range.start = occurrence.start document) = some entry := by
      rw [entries, find?_keepFirst, find?_filterMap_entry?]
      exact Option.bind_eq_some_iff.mpr ⟨first, isFirst, isEntry⟩
    have atPlace := List.find?_some kept
    exact ⟨first, entry, List.mem_of_find?_eq_some kept, isFirst, sameColor, of_decide_eq_true atPlace⟩

/-- A color that cannot be computed does not take the place of one that is found there after it; a third
one at that place is left out. -/
theorem entries_of_computed_after_failure :
    let document := Document.ofText "color rgb(1px, 0, 0) blue".toList
    let failed : Occurrence := ⟨.named, ⟨0, 21⟩, "blue", .error (.unsupportedUnit "px")⟩
    let blue : Occurrence := ⟨.named, ⟨0, 21⟩, "blue", .ok ⟨0.0, 0.0, 255.0, 1.0⟩⟩
    let green : Occurrence := ⟨.named, ⟨0, 3⟩, "blue", .ok ⟨0.0, 128.0, 0.0, 1.0⟩⟩
    ∃ entry ∈ document.entries [failed, blue, green],
      entry.range = .onLine 0 21 4 ∧ entry.color = ⟨0.0, 0.0, 255.0, 1.0⟩ := by
  intro document failed blue green
  have isGreen : green ∈ [failed, blue, green].filter fun occurrence => occurrence.color.isOk :=
    List.mem_cons_of_mem blue (List.mem_singleton_self green)
  obtain ⟨first, entry, isEntry, isFirst, same, _⟩ :=
    (document.entries_of_computed [failed, blue, green]).2.2.2 green isGreen
  have samePlace : blue.start document = green.start document := by decide
  have isBlue : [blue, green].find? (fun other => other.start document = green.start document) =
      some blue :=
    List.find?_cons_of_pos (decide_eq_true samePlace)
  obtain rfl : blue = first := Option.some.inj (isBlue.symm.trans isFirst)
  obtain ⟨range, color⟩ := Prod.mk.inj same
  have atBlue : blue.range document = .onLine 0 21 4 := by decide
  exact ⟨entry, isEntry, range.trans atBlue, Except.ok.inj color⟩

end Document

end StyleSense
