import Mathlib.Data.Finset.Dedup
import Mathlib.Data.Set.Card
import StyleSense.Watch.Tracker

/-!
Contract: a tracker knows the files that fail, and tells each of them when it is mended.

Owns:
- `Path.lastReport?`, the last report about a file;
- `Tracker.isFailing_record` and `Tracker.isFailing_update`, what one report and a list of reports
  do to what is known of a file;
- `Tracker.IsDistinct`, that no file is in the tracker twice, which every report keeps;
- `Tracker.update_append` and `Tracker.mended_update`, the files that are told as mended;
- `tracker_follows_reports`, the result for batches of any number and size.

Does not own: where the reports come from (`StyleSense.Watch.Report`).
-/

namespace StyleSense

theorem Path.same_iff
    {left right : Path} :
    left.same right = true ↔ left.components = right.components :=
  beq_iff_eq

theorem Path.same_comm (left right : Path) : left.same right = right.same left :=
  BEq.comm

/-- The last report about a file among reports, oldest first. -/
def Path.lastReport? (path : Path) (reports : List FileReport) : Option FileReport :=
  (reports.filter fun report => path.same report.path).getLast?

/-- Whether the last report about a file is a failure. -/
def Path.FailsLast (path : Path) (reports : List FileReport) : Prop :=
  ∃ report, path.lastReport? reports = some report ∧ report.isOk = false

namespace Tracker

/-! ## One report -/

variable (tracker : Tracker)

theorem isFailing_iff
    {path : Path} :
    tracker.isFailing path = true ↔ path.components ∈ tracker.failing.map Path.components := by
  simp only [isFailing, List.any_eq_true, List.mem_map, Path.same_iff]
  constructor
  · rintro ⟨other, isIn, same⟩
    exact ⟨other, isIn, same.symm⟩
  · rintro ⟨other, isIn, same⟩
    exact ⟨other, isIn, same.symm⟩

theorem isFailing_of_same
    {path other : Path}
    (same : path.same other = true) :
    tracker.isFailing path = tracker.isFailing other := by
  rw [Bool.eq_iff_iff, isFailing_iff, isFailing_iff, Path.same_iff.1 same]

theorem isFailing_erase (gone path : Path) :
    (tracker.erase gone).isFailing path = (!path.same gone && tracker.isFailing path) := by
  rw [Bool.eq_iff_iff, Bool.and_eq_true, isFailing_iff, isFailing_iff]
  simp only [erase, List.mem_map, List.mem_filter, Bool.not_eq_true', ← Bool.not_eq_true,
    Path.same_iff]
  grind

theorem isFailing_insert (added path : Path) :
    (tracker.insert added).isFailing path = (path.same added || tracker.isFailing path) := by
  unfold insert
  split
  · rename_i isThere
    cases same : path.same added with
    | true => rw [tracker.isFailing_of_same same, isThere, Bool.true_or]
    | false => rw [Bool.false_or]
  · rw [isFailing, isFailing, List.any_append, Bool.or_comm]
    simp

/-- One report decides about its own file and leaves the others. -/
theorem isFailing_record (report : FileReport) (path : Path) :
    (tracker.record report).1.isFailing path =
      if path.same report.path then !report.isOk else tracker.isFailing path := by
  unfold record
  split
  · rename_i isOk
    rw [isFailing_erase, isOk]
    cases path.same report.path <;> rfl
  · rename_i notOk
    rw [isFailing_insert, Bool.eq_false_iff.2 notOk]
    cases path.same report.path <;> rfl

/-- A file counts as mended when it failed and is reported to be fine. -/
theorem record_mended (report : FileReport) :
    (tracker.record report).2 = (report.isOk && tracker.isFailing report.path) := by
  unfold record
  split
  · rename_i isOk
    rw [isOk, Bool.true_and]
  · rename_i notOk
    rw [Bool.eq_false_iff.2 notOk, Bool.false_and]

/-! ## Lists of reports -/

theorem update_cons (report : FileReport) (rest : List FileReport) :
    tracker.update (report :: rest) =
      let later := (tracker.record report).1.update rest
      (later.1, if (tracker.record report).2 then report.path :: later.2 else later.2) :=
  rfl

/-- After reports a file fails when the last one about it says so; without any it is as before. -/
theorem isFailing_update (reports : List FileReport) (path : Path) :
    (tracker.update reports).1.isFailing path =
      match path.lastReport? reports with
      | some report => !report.isOk
      | none => tracker.isFailing path := by
  induction reports generalizing tracker with
  | nil => rfl
  | cons report rest inductionHypothesis =>
    rw [update_cons, inductionHypothesis, isFailing_record, Path.lastReport?, Path.lastReport?,
      List.filter_cons]
    cases path.same report.path with
    | false => rfl
    | true =>
      -- The first report counts only when no later one is about the file.
      rw [if_pos rfl, if_pos rfl, List.getLast?_cons]
      cases (rest.filter fun report => path.same report.path).getLast? <;> rfl

/-- Reports may come in two parts. -/
theorem update_append (first second : List FileReport) :
    tracker.update (first ++ second) =
      (((tracker.update first).1.update second).1,
        (tracker.update first).2 ++ ((tracker.update first).1.update second).2) := by
  induction first generalizing tracker with
  | nil => rfl
  | cons report rest inductionHypothesis =>
    rw [List.cons_append, update_cons, inductionHypothesis, update_cons]
    cases (tracker.record report).2 <;> rfl

/-- Whether reports are about different files. -/
def AreDistinct (reports : List FileReport) : Prop :=
  reports.Pairwise fun first second => first.path.same second.path = false

instance (reports : List FileReport) : Decidable (AreDistinct reports) :=
  inferInstanceAs (Decidable (List.Pairwise _ reports))

/-- A report leaves what is known of the files that the other reports are about. -/
theorem isFailing_record_of_distinct
    {report : FileReport}
    {rest : List FileReport}
    (distinct : AreDistinct (report :: rest))
    {other : FileReport}
    (isLater : other ∈ rest) :
    (tracker.record report).1.isFailing other.path = tracker.isFailing other.path := by
  have different := (List.pairwise_cons.1 distinct).1 other isLater
  rw [isFailing_record, Path.same_comm, different]
  rfl

/-- Reports about different files tell as mended, in their order, those that failed before and are
reported to be fine. -/
theorem mended_update
    {reports : List FileReport}
    (distinct : AreDistinct reports) :
    (tracker.update reports).2 =
      (reports.filter fun report => report.isOk && tracker.isFailing report.path).map
        FileReport.path := by
  induction reports generalizing tracker with
  | nil => rfl
  | cons report rest inductionHypothesis =>
    have others : (rest.filter fun other =>
          other.isOk && (tracker.record report).1.isFailing other.path) =
        rest.filter fun other => other.isOk && tracker.isFailing other.path := by
      apply List.filter_congr
      intro other isLater
      rw [tracker.isFailing_record_of_distinct distinct isLater]
    simp only [update_cons, record_mended, List.filter_cons,
      inductionHypothesis _ (List.pairwise_cons.1 distinct).2, others]
    split <;> rfl

/-- A report among reports about different files is the last one about its own. -/
theorem lastReport?_of_distinct
    {reports : List FileReport}
    (distinct : AreDistinct reports)
    {report : FileReport}
    (isIn : report ∈ reports) :
    report.path.lastReport? reports = some report := by
  induction reports with
  | nil => cases isIn
  | cons first rest inductionHypothesis =>
    obtain ⟨different, restDistinct⟩ := List.pairwise_cons.1 distinct
    rw [Path.lastReport?, List.filter_cons]
    rcases List.mem_cons.1 isIn with rfl | isLater
    · have noOther : (rest.filter fun other => report.path.same other.path) = [] := by
        apply List.filter_eq_nil_iff.2
        intro other isOther
        rw [different other isOther]
        exact Bool.false_ne_true
      rw [if_pos (Path.same_iff.2 rfl), noOther]
      rfl
    · rw [Path.same_comm, different report isLater, if_neg Bool.false_ne_true]
      exact inductionHypothesis restDistinct isLater

/-- What has been mended does not fail. -/
theorem not_isFailing_of_mended
    {reports : List FileReport}
    (distinct : AreDistinct reports)
    {path : Path}
    (isMended : path ∈ (tracker.update reports).2) :
    (tracker.update reports).1.isFailing path = false := by
  rw [tracker.mended_update distinct] at isMended
  obtain ⟨report, isChosen, rfl⟩ := List.mem_map.1 isMended
  obtain ⟨isIn, wasFailing⟩ := List.mem_filter.1 isChosen
  obtain ⟨isOk, _⟩ := (Bool.and_eq_true _ _).mp wasFailing
  rw [isFailing_update, lastReport?_of_distinct distinct isIn]
  simp [isOk]

/-! ## No file twice -/

/-- No file is in a tracker twice. -/
def IsDistinct (tracker : Tracker) : Prop :=
  (tracker.failing.map Path.components).Nodup

variable {tracker}

theorem IsDistinct.record
    (distinct : tracker.IsDistinct)
    (report : FileReport) :
    (tracker.record report).1.IsDistinct := by
  unfold Tracker.record
  split
  · exact distinct.sublist (List.filter_sublist.map _)
  · unfold Tracker.insert
    split
    · exact distinct
    · rename_i notThere
      rw [IsDistinct, List.map_append]
      apply distinct.append (List.nodup_singleton _)
      apply List.disjoint_singleton.2
      exact mt tracker.isFailing_iff.2 notThere

theorem IsDistinct.update
    (distinct : tracker.IsDistinct)
    (reports : List FileReport) :
    (tracker.update reports).1.IsDistinct := by
  induction reports generalizing tracker with
  | nil => exact distinct
  | cons report rest inductionHypothesis => exact inductionHypothesis (distinct.record report)

/-- The number of files in a tracker is that of the files which it says are failing. -/
theorem IsDistinct.count_eq
    (distinct : tracker.IsDistinct) :
    tracker.count =
      {parts | ∃ path, tracker.isFailing path = true ∧ path.components = parts}.ncard := by
  have sameSet : {parts | ∃ path, tracker.isFailing path = true ∧ path.components = parts} =
      ((tracker.failing.map Path.components).toFinset : Set (List Path.Component)) := by
    ext parts
    simp only [Set.mem_ofPred_eq, List.coe_toFinset, isFailing_iff]
    constructor
    · rintro ⟨path, isIn, rfl⟩
      exact isIn
    · intro isIn
      obtain ⟨path, isPath, rfl⟩ := List.mem_map.1 isIn
      exact ⟨path, isIn, rfl⟩
  rw [sameSet, Set.ncard_coe_finset, List.toFinset_card_of_nodup distinct, List.length_map, count]

/-! ## Batches -/

/-- The tracker after batches of reports, oldest first. -/
def afterBatches (batches : List (List FileReport)) : Tracker :=
  batches.foldl (fun tracker batch => (tracker.update batch).1) empty

/-- Where one batch ends and the next one starts makes no difference. -/
theorem afterBatches_eq (batches : List (List FileReport)) :
    afterBatches batches = (empty.update batches.flatten).1 := by
  have fromAny : ∀ tracker : Tracker,
      batches.foldl (fun tracker batch => (tracker.update batch).1) tracker =
        (tracker.update batches.flatten).1 := by
    induction batches with
    | nil => exact fun _ => rfl
    | cons batch rest inductionHypothesis =>
      intro tracker
      rw [List.foldl_cons, inductionHypothesis, List.flatten_cons, update_append]
  exact fromAny empty

theorem isFailing_afterBatches_iff
    (batches : List (List FileReport))
    (path : Path) :
    (afterBatches batches).isFailing path = true ↔ path.FailsLast batches.flatten := by
  rw [afterBatches_eq, isFailing_update, Path.FailsLast]
  cases path.lastReport? batches.flatten with
  | none => simp [empty, isFailing]
  | some report => simp

theorem isDistinct_afterBatches (batches : List (List FileReport)) :
    (afterBatches batches).IsDistinct := by
  have nothing : empty.IsDistinct := List.nodup_nil
  rw [afterBatches_eq]
  exact nothing.update batches.flatten

end Tracker

/-- After any batches a tracker knows just the files whose last report is a failure, and how many
they are. From there on, two batches tell as mended what they tell one after the other; and a batch
of reports about different files tells, in its order, the files that failed and are now reported to
be fine, none of which is known as failing afterwards. -/
theorem tracker_follows_reports (batches : List (List FileReport)) :
    let tracker := Tracker.afterBatches batches
    (∀ path, tracker.isFailing path = true ↔ path.FailsLast batches.flatten) ∧
      tracker.count =
        {parts | ∃ path : Path,
          path.FailsLast batches.flatten ∧ path.components = parts}.ncard ∧
      (∀ first second, (tracker.update (first ++ second)).2 =
        (tracker.update first).2 ++ ((tracker.update first).1.update second).2) ∧
      ∀ batch, Tracker.AreDistinct batch →
        (tracker.update batch).2 =
            (batch.filter fun report => report.isOk && tracker.isFailing report.path).map
              FileReport.path ∧
          ∀ path ∈ (tracker.update batch).2, (tracker.update batch).1.isFailing path = false := by
  intro tracker
  have knows := Tracker.isFailing_afterBatches_iff batches
  refine ⟨knows, ?_, ?_, ?_⟩
  · rw [(Tracker.isDistinct_afterBatches batches).count_eq]
    simp only [knows]
  · intro first second
    rw [tracker.update_append]
  · intro batch distinct
    exact ⟨tracker.mended_update distinct, fun path => tracker.not_isFailing_of_mended distinct⟩

/-- A file that fails, is missing from a batch, and is mended together with one that never failed. -/
theorem tracker_follows_reports_missing_file :
    let report (path : String) (error : Option String) : FileReport :=
      ⟨.ofString path, 0, 0, error⟩
    let batches := [[report "a.styl" (some "line 1"), report "b.styl" none],
      [report "b.styl" none]]
    let batch := [report "b.styl" none, report "./c.styl" none, report "a.styl" none]
    let tracker := Tracker.afterBatches batches
    Tracker.AreDistinct batch ∧
      tracker.isFailing (.ofString "a.styl") = true ∧
      (tracker.update batch).2 = [.ofString "a.styl"] ∧
      (tracker.update batch).1.isFailing (.ofString "a.styl") = false := by
  intro report batches batch tracker
  have distinct : Tracker.AreDistinct batch := by decide
  obtain ⟨knows, _, _, mends⟩ := tracker_follows_reports batches
  obtain ⟨mended, fine⟩ := mends batch distinct
  have isFailing : tracker.isFailing (.ofString "a.styl") = true :=
    (knows _).2 ⟨report "a.styl" (some "line 1"), by decide⟩
  have onlyThat : (tracker.update batch).2 = [.ofString "a.styl"] := by
    rw [mended]
    decide
  refine ⟨distinct, isFailing, onlyThat, fine _ ?_⟩
  rw [onlyThat]
  exact List.mem_singleton_self _

end StyleSense
