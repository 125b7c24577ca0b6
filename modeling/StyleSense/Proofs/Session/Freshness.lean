import Mathlib.Data.List.Infix
import Mathlib.Data.List.Pairwise
import Mathlib.Data.List.Perm.Subperm
import StyleSense.Session.Basic

/-!
Contract: swatches are those of the text that the editor has last sent.

A session is followed step by step. The editor tells of an event, time passes, or one of the tasks
whose time has come sends its swatches; a task that is replaced or dropped before that never runs.

Owns:
- `Moment`, what happens in one step, `Session.Step` and `Session.Run`;
- `Session.Fresh`, what a session and the moments that led to it have in common: a waiting task
  belongs to a document that is stored, keeps its text, and waits since its last open or change;
- `Session.Fresh.step`, that every step keeps this;
- `Session.swatches_current`, the result for every run of a session that has started;
- `Session.runDue_run`, that sending all swatches that are due is a run too.

Does not own: which swatches a text has (`StyleSense.Swatch.Decoration`).
-/

namespace StyleSense

/-! ## Runs -/

/-- Whether an event brings the text of a document. A list of changes without a change does not. -/
def Event.stores (uri : String) : Event → Bool
  | .opened other _ => other == uri
  | .changed other (_ :: _) => other == uri
  | _ => false

/-- What happens in one step of a session. -/
inductive Moment where
  | told (event : Event)
  | passed (elapsed : Nat)
  | sent (message : Message)

namespace Moment

/-- Whether the text of a document comes in. -/
def stores (uri : String) : Moment → Bool
  | told event => event.stores uri
  | _ => false

/-- Whether the swatches of a document are sent. -/
def sends (uri : String) : Moment → Bool
  | sent (.decorations other _) => other == uri
  | _ => false

/-- The time that passes. -/
def elapsed : Moment → Nat
  | passed elapsed => elapsed
  | _ => 0

end Moment

/-- The time that passes in some moments. -/
def timeIn : List Moment → Nat
  | [] => 0
  | moment :: rest => moment.elapsed + timeIn rest

/-- After every open and change of a document, `holds` is true of what has happened since. -/
def AfterStores (uri : String) (trace : List Moment) (holds : List Moment → Prop) : Prop :=
  ∀ before event later, trace = before ++ .told event :: later → event.stores uri = true → holds later

namespace Session

/-- A session after one of its waiting tasks has run. -/
def without (session : Session) (task : Scheduler.Task String (List Char)) : Session :=
  { session with
    scheduler := { session.scheduler with waiting := session.scheduler.waiting.erase task } }

/-- One step of a session. -/
inductive Step : Session → Moment → Session → Prop
  | tell (session : Session) (event : Event) :
      Step session (.told event) (session.notify event).1
  | pass (session : Session) (elapsed : Nat) :
      Step session (.passed elapsed) (session.advance elapsed)
  | send
      {session : Session}
      {task : Scheduler.Task String (List Char)}
      (waits : task ∈ session.scheduler.waiting)
      (isDue : session.scheduler.isDue task = true) :
      Step session (.sent (session.swatchMessage task.key task.payload)) (session.without task)

/-- The moments, oldest first, that lead from a session to another one. -/
inductive Run (first : Session) : List Moment → Session → Prop
  | none : Run first [] first
  | next
      {trace : List Moment}
      {session next : Session}
      {moment : Moment}
      (run : Run first trace session)
      (step : session.Step moment next) :
      Run first (trace ++ [moment]) next

end Session

/-! ## Traces -/

theorem split_of_concat
    {α : Type}
    {trace before later : List α}
    {moment other : α}
    (split : trace ++ [moment] = before ++ other :: later) :
    (later = [] ∧ other = moment) ∨
      ∃ rest, later = rest ++ [moment] ∧ trace = before ++ other :: rest := by
  rcases List.eq_nil_or_concat later with rfl | ⟨rest, last, rfl⟩
  · obtain ⟨_, same⟩ := List.append_inj' split rfl
    exact .inl ⟨rfl, (List.singleton_inj.mp same).symm⟩
  · rw [List.concat_eq_append, ← List.cons_append, ← List.append_assoc] at split
    obtain ⟨earlier, same⟩ := List.append_inj' split rfl
    exact .inr ⟨rest, by rw [List.concat_eq_append, same], earlier⟩

theorem timeIn_concat
    (moments : List Moment)
    (moment : Moment) :
    timeIn (moments ++ [moment]) = timeIn moments + moment.elapsed := by
  induction moments with
  | nil => simp [timeIn]
  | cons first rest inductionHypothesis =>
    rw [List.cons_append, timeIn, timeIn, inductionHypothesis, Nat.add_assoc]

/-- One more moment is one more in all that happened since, and starts anew when it is an open or a
change itself. -/
theorem AfterStores.concat
    {uri : String}
    {trace : List Moment}
    {moment : Moment}
    {holds : List Moment → Prop}
    (earlier : AfterStores uri trace fun later => holds (later ++ [moment]))
    (now : moment.stores uri = true → holds []) :
    AfterStores uri (trace ++ [moment]) holds := by
  intro before event later split stores
  rcases split_of_concat split with ⟨rfl, rfl⟩ | ⟨rest, rfl, earlierSplit⟩
  · exact now stores
  · exact earlier before event rest earlierSplit stores

theorem AfterStores.imp
    {uri : String}
    {trace : List Moment}
    {holds holds' : List Moment → Prop}
    (after : AfterStores uri trace holds)
    (weaker : ∀ later, holds later → holds' later) :
    AfterStores uri trace holds' :=
  fun before event later split stores => weaker later (after before event later split stores)

/-! ## Documents -/

namespace Session

theorem text?_store_self
    (session : Session)
    (uri : String)
    (text : List Char) :
    (session.store uri text).text? uri = some text := by
  have missing : (session.documents.filter fun entry => entry.1 ≠ uri).find?
      (fun entry => entry.1 = uri) = none := by
    simp
  simp only [text?, store, List.find?_append, missing]
  simp

theorem find?_filter_ne
    (documents : List (String × List Char))
    {uri other : String}
    (differs : other ≠ uri) :
    (documents.filter fun entry => entry.1 ≠ uri).find? (fun entry => entry.1 = other) =
      documents.find? fun entry => entry.1 = other := by
  rw [List.find?_filter]
  congr 1
  funext entry
  by_cases same : entry.1 = other
  · simp [same, differs]
  · simp [same]

theorem text?_store_of_ne
    (session : Session)
    {uri other : String}
    (differs : other ≠ uri)
    (text : List Char) :
    (session.store uri text).text? other = session.text? other := by
  have others := find?_filter_ne session.documents differs
  simp only [text?, store, List.find?_append, others]
  simp [Ne.symm differs]

theorem text?_forget_of_ne
    (session : Session)
    {uri other : String}
    (differs : other ≠ uri) :
    (session.forget uri).text? other = session.text? other := by
  simp only [text?, forget, find?_filter_ne session.documents differs]

/-! ## Events -/

/-- A running session takes in a text, forgets a document, or stays as it is. -/
theorem notify_cases
    {session : Session}
    (running : session.phase = .running)
    (event : Event) :
    (∃ uri text, (∀ other, event.stores other = (uri == other)) ∧
      (session.notify event).1 = (session.store uri text).scheduleSwatches uri text) ∨
    (∃ uri, (∀ other, event.stores other = false) ∧
      (session.notify event).1 = session.forget uri) ∨
    ((∀ other, event.stores other = false) ∧ (session.notify event).1 = session) := by
  rw [notify, if_pos running]
  cases event with
  | started => exact .inr (.inr ⟨fun _ => rfl, rfl⟩)
  | opened uri text => exact .inl ⟨uri, text, fun _ => rfl, rfl⟩
  | changed uri texts =>
    cases texts with
    | nil => exact .inr (.inr ⟨fun _ => rfl, rfl⟩)
    | cons text rest => exact .inl ⟨uri, text, fun _ => rfl, rfl⟩
  | closed uri => exact .inr (.inl ⟨uri, fun _ => rfl, rfl⟩)

/-- An event is not answered with swatches. -/
theorem notify_sends_no_swatches
    (session : Session)
    (event : Event)
    (uri : String)
    (swatches : List (UnitPlace × String)) :
    Message.decorations uri swatches ∉ (session.notify event).2 := by
  rw [notify]
  split
  · cases event with
    | changed uri texts =>
      cases texts with
      | nil => exact List.not_mem_nil
      | cons text rest => exact List.not_mem_nil
    | started => simp [handle]
    | opened uri text => exact List.not_mem_nil
    | closed uri => exact List.not_mem_nil
  · exact List.not_mem_nil

/-! ## What every step keeps -/

/-- A session that runs and sends swatches, and the moments that led to it. -/
structure Fresh (trace : List Moment) (session : Session) : Prop where
  running : session.phase = .running
  wanted : session.analyzer.settings.colors.decorations = true
  window : session.scheduler.delay = session.analyzer.settings.colors.debounce
  /-- No document has two waiting tasks. -/
  distinct : session.scheduler.waiting.Pairwise fun left right => left.key ≠ right.key
  /-- A waiting task keeps the text that is stored. -/
  current : ∀ task ∈ session.scheduler.waiting, session.text? task.key = some task.payload
  /-- A waiting task is not due before the window after each open and change has passed. -/
  quiet : ∀ task ∈ session.scheduler.waiting, AfterStores task.key trace fun later =>
    session.scheduler.now + session.scheduler.delay ≤ task.due + timeIn later
  /-- While a task waits, nothing was sent for its document since the last open or change. -/
  unsent : ∀ task ∈ session.scheduler.waiting, AfterStores task.key trace fun later =>
    (∀ moment ∈ later, moment.stores task.key = false) → later.countP (Moment.sends task.key) = 0
  /-- Up to the next open or change, swatches are sent at most once. -/
  once : ∀ uri, AfterStores uri trace fun later => ∀ burst, burst <+: later →
    (∀ moment ∈ burst, moment.stores uri = false) → burst.countP (Moment.sends uri) ≤ 1

variable {trace : List Moment} {session : Session}

namespace Fresh

/-- A session that has just started. -/
theorem start
    (running : session.phase = .running)
    (wanted : session.analyzer.settings.colors.decorations = true)
    (window : session.scheduler.delay = session.analyzer.settings.colors.debounce)
    (idle : session.scheduler.waiting = []) :
    session.Fresh [] := by
  have nothing : ∀ {task}, task ∈ session.scheduler.waiting → False := by
    intro task isIn
    rw [idle] at isIn
    exact List.not_mem_nil isIn
  refine ⟨running, wanted, window, ?_, ?_, ?_, ?_, ?_⟩
  · rw [idle]
    exact .nil
  · exact fun task waits => (nothing waits).elim
  · exact fun task waits => (nothing waits).elim
  · exact fun task waits => (nothing waits).elim
  · intro uri before event later split
    simp at split

/-- Swatches are still sent at most once after a moment that sends those of a waiting task, if it
sends any. -/
theorem once_concat
    (fresh : session.Fresh trace)
    {moment : Moment}
    (sentFor : ∀ uri, moment.sends uri = true → ∃ task ∈ session.scheduler.waiting, task.key = uri)
    (uri : String) :
    AfterStores uri (trace ++ [moment]) fun later => ∀ burst, burst <+: later →
      (∀ moment ∈ burst, moment.stores uri = false) → burst.countP (Moment.sends uri) ≤ 1 := by
  apply AfterStores.concat
  · intro before event later split stores burst isStart quiet
    rcases List.prefix_concat_iff.mp isStart with whole | isEarlier
    · rw [whole] at quiet
      have quietBefore : ∀ other ∈ later, other.stores uri = false :=
        fun other isIn => quiet other (List.mem_append_left _ isIn)
      rw [whole, List.countP_append, List.countP_singleton]
      by_cases sends : moment.sends uri = true
      · obtain ⟨task, waits, rfl⟩ := sentFor uri sends
        rw [fresh.unsent task waits before event later split stores quietBefore, if_pos sends]
      · rw [if_neg sends]
        exact fresh.once uri before event later split stores later (List.prefix_refl _) quietBefore
    · exact fresh.once uri before event later split stores burst isEarlier quiet
  · intro _ burst isStart _
    rw [List.prefix_nil.mp isStart]
    exact Nat.zero_le 1

/-- A task that goes on waiting is due no sooner after the windows that pass meanwhile. -/
theorem quiet_concat
    (fresh : session.Fresh trace)
    {moment : Moment}
    {task : Scheduler.Task String (List Char)}
    (waits : task ∈ session.scheduler.waiting)
    (notStored : moment.stores task.key = false) :
    AfterStores task.key (trace ++ [moment]) fun later =>
      session.scheduler.now + moment.elapsed + session.scheduler.delay ≤ task.due + timeIn later := by
  apply AfterStores.concat
  · refine (fresh.quiet task waits).imp ?_
    intro later enough
    rw [timeIn_concat]
    omega
  · intro stores
    rw [notStored] at stores
    cases stores

theorem unsent_concat
    (fresh : session.Fresh trace)
    {moment : Moment}
    {task : Scheduler.Task String (List Char)}
    (waits : task ∈ session.scheduler.waiting)
    (notStored : moment.stores task.key = false)
    (notSent : moment.sends task.key = false) :
    AfterStores task.key (trace ++ [moment]) fun later =>
      (∀ moment ∈ later, moment.stores task.key = false) →
        later.countP (Moment.sends task.key) = 0 := by
  apply AfterStores.concat
  · refine (fresh.unsent task waits).imp ?_
    intro later nothing quiet
    rw [List.countP_append, List.countP_singleton, notSent,
      nothing fun other isIn => quiet other (List.mem_append_left _ isIn)]
    rfl
  · intro stores
    rw [notStored] at stores
    cases stores

/-- A step that brings no text and lets some of the waiting tasks wait on. -/
theorem keep
    (fresh : session.Fresh trace)
    {moment : Moment}
    {next : Session}
    (running : next.phase = session.phase)
    (analyzer : next.analyzer = session.analyzer)
    (delay : next.scheduler.delay = session.scheduler.delay)
    (now : next.scheduler.now = session.scheduler.now + moment.elapsed)
    (fewer : next.scheduler.waiting.Sublist session.scheduler.waiting)
    (texts : ∀ task ∈ next.scheduler.waiting, next.text? task.key = session.text? task.key)
    (notStored : ∀ uri, moment.stores uri = false)
    (notSent : ∀ task ∈ next.scheduler.waiting, moment.sends task.key = false)
    (sentFor : ∀ uri, moment.sends uri = true → ∃ task ∈ session.scheduler.waiting, task.key = uri) :
    next.Fresh (trace ++ [moment]) where
  running := running.trans fresh.running
  wanted := by rw [analyzer, fresh.wanted]
  window := by rw [analyzer, delay, fresh.window]
  distinct := fresh.distinct.sublist fewer
  current task waits := by rw [texts task waits, fresh.current task (fewer.subset waits)]
  quiet task waits := by
    rw [now, delay]
    exact fresh.quiet_concat (fewer.subset waits) (notStored _)
  unsent task waits := fresh.unsent_concat (fewer.subset waits) (notStored _) (notSent task waits)
  once := fresh.once_concat sentFor

/-- A text comes in: the task that waits for its document is replaced. -/
theorem receive
    (fresh : session.Fresh trace)
    {event : Event}
    {uri : String}
    (stores : ∀ other, event.stores other = (uri == other))
    (text : List Char) :
    ((session.store uri text).scheduleSwatches uri text).Fresh (trace ++ [.told event]) := by
  have scheduled : (session.store uri text).scheduleSwatches uri text =
      { session.store uri text with scheduler := session.scheduler.schedule uri text } :=
    if_pos fresh.wanted
  let added : Scheduler.Task String (List Char) :=
    ⟨uri, session.scheduler.now + session.scheduler.delay, text⟩
  have waiting_cases : ∀ task ∈ (session.scheduler.schedule uri text).waiting,
      (task ∈ session.scheduler.waiting ∧ task.key ≠ uri) ∨ task = added := by
    intro task waits
    rcases List.mem_append.mp waits with isOld | isNew
    · obtain ⟨isOld, differs⟩ := List.mem_filter.mp isOld
      exact .inl ⟨isOld, of_decide_eq_true differs⟩
    · exact .inr (List.mem_singleton.mp isNew)
  have notStored : ∀ {other : String}, other ≠ uri → (Moment.told event).stores other = false := by
    intro other differs
    rw [Moment.stores, stores]
    exact beq_eq_false_iff_ne.mpr differs.symm
  have isStored : (Moment.told event).stores uri = true := by
    rw [Moment.stores, stores]
    exact beq_self_eq_true uri
  rw [scheduled]
  refine ⟨fresh.running, fresh.wanted, fresh.window, ?_, ?_, ?_, ?_, ?_⟩
  · refine List.pairwise_append.mpr ⟨fresh.distinct.filter _, List.pairwise_singleton .., ?_⟩
    intro task isOld other isNew
    rw [List.mem_singleton.mp isNew]
    exact of_decide_eq_true (List.mem_filter.mp isOld).2
  · intro task waits
    rcases waiting_cases task waits with ⟨isOld, differs⟩ | rfl
    · exact (text?_store_of_ne session differs text).trans (fresh.current task isOld)
    · exact text?_store_self session uri text
  · intro task waits
    rcases waiting_cases task waits with ⟨isOld, differs⟩ | rfl
    · exact fresh.quiet_concat isOld (notStored differs)
    · intro before event later split stores
      exact Nat.le_add_right ..
  · intro task waits
    rcases waiting_cases task waits with ⟨isOld, differs⟩ | rfl
    · exact fresh.unsent_concat isOld (notStored differs) rfl
    · apply AfterStores.concat
      · intro before event' later split stores quiet
        have := quiet _ (List.mem_append_right _ (List.mem_singleton_self _))
        rw [isStored] at this
        cases this
      · exact fun _ _ => rfl
  · apply fresh.once_concat
    intro other sends
    cases sends

theorem idle
    (fresh : session.Fresh trace)
    {event : Event}
    (silent : ∀ uri, event.stores uri = false) :
    session.Fresh (trace ++ [.told event]) := by
  apply fresh.keep
  · rfl
  · rfl
  · rfl
  · rfl
  · exact List.Sublist.refl _
  · exact fun _ _ => rfl
  · exact silent
  · exact fun _ _ => rfl
  · exact fun _ sends => by cases sends

theorem key_ne_of_mem_erase
    (fresh : session.Fresh trace)
    {task other : Scheduler.Task String (List Char)}
    (waits : task ∈ session.scheduler.waiting)
    (stillWaits : other ∈ session.scheduler.waiting.erase task) :
    other.key ≠ task.key := by
  have nodup : session.scheduler.waiting.Nodup :=
    fresh.distinct.imp fun differs same => differs (congrArg Scheduler.Task.key same)
  obtain ⟨isOther, waitsToo⟩ := nodup.mem_erase_iff.mp stillWaits
  have : Std.Symm fun left right : Scheduler.Task String (List Char) => left.key ≠ right.key :=
    ⟨fun _ _ => Ne.symm⟩
  exact fresh.distinct.forall waitsToo waits isOther

/-- Every step of a session keeps its swatches fresh. -/
theorem step
    (fresh : session.Fresh trace)
    {moment : Moment}
    {next : Session}
    (step : session.Step moment next) :
    next.Fresh (trace ++ [moment]) := by
  cases step with
  | tell event =>
    rcases notify_cases fresh.running event with ⟨uri, text, stores, same⟩ | ⟨uri, silent, same⟩ |
      ⟨silent, same⟩
    · rw [same]
      exact fresh.receive stores text
    · rw [same]
      apply fresh.keep
      · rfl
      · rfl
      · rfl
      · rfl
      · exact List.filter_sublist
      · intro task waits
        exact text?_forget_of_ne session (of_decide_eq_true (List.mem_filter.mp waits).2)
      · exact silent
      · exact fun _ _ => rfl
      · exact fun _ sends => by cases sends
    · rw [same]
      exact fresh.idle silent
  | pass elapsed =>
    apply fresh.keep
    · rfl
    · rfl
    · rfl
    · rfl
    · exact List.Sublist.refl _
    · exact fun _ _ => rfl
    · exact fun _ => rfl
    · exact fun _ _ => rfl
    · exact fun _ sends => by cases sends
  | @send task waits isDue =>
    apply fresh.keep
    · rfl
    · rfl
    · rfl
    · rfl
    · exact List.erase_sublist
    · exact fun _ _ => rfl
    · exact fun _ => rfl
    · intro other stillWaits
      exact beq_eq_false_iff_ne.mpr (fresh.key_ne_of_mem_erase waits stillWaits).symm
    · intro uri sends
      exact ⟨task, waits, eq_of_beq sends⟩

end Fresh

/-- The swatches of every run are fresh. -/
theorem Run.fresh
    {first : Session}
    (start : first.Fresh [])
    (run : first.Run trace session) :
    session.Fresh trace := by
  induction run with
  | none => exact start
  | next _ step inductionHypothesis => exact inductionHypothesis.step step

/-- At most one task waits for each document that is stored. -/
theorem Fresh.count_le
    (fresh : session.Fresh trace) :
    session.scheduler.count ≤ session.documents.length := by
  have nodup : (session.scheduler.waiting.map Scheduler.Task.key).Nodup :=
    List.pairwise_map.mpr fresh.distinct
  have stored : session.scheduler.waiting.map Scheduler.Task.key ⊆
      session.documents.map Prod.fst := by
    intro uri isKey
    obtain ⟨task, waits, rfl⟩ := List.mem_map.mp isKey
    obtain ⟨entry, isFound, _⟩ := Option.map_eq_some_iff.mp (fresh.current task waits)
    have isEntry := List.mem_of_find?_eq_some isFound
    have sameKey : entry.1 = task.key := by simpa using List.find?_some isFound
    rw [← sameKey]
    exact List.mem_map_of_mem isEntry
  have shorter := (List.subperm_of_subset nodup stored).length_le
  rw [List.length_map, List.length_map] at shorter
  exact shorter

/-- A session that has started with swatches is fresh. -/
theorem started_fresh
    (base : Settings)
    (files : FileSystem)
    (options : Option Json)
    (wanted : ((Session.new base).request files (.start options)).1.analyzer.settings.colors.decorations
      = true) :
    ((Session.new base).request files (.start options)).1.Fresh [] :=
  .start rfl wanted rfl rfl

/-- Swatches are never stale. In every run of a session that has started with swatches, what is sent
for a document are the swatches of the text that is stored then, at the places at which the editor
counts them, and the window has passed since every open and change of it; between two opens or changes
of a document its swatches are sent at most once; and no more tasks wait than documents are stored.
Nothing else sends swatches. -/
theorem swatches_current
    (base : Settings)
    (files : FileSystem)
    (options : Option Json)
    (wanted : ((Session.new base).request files (.start options)).1.analyzer.settings.colors.decorations
      = true)
    {trace : List Moment}
    {session : Session}
    (run : ((Session.new base).request files (.start options)).1.Run trace session) :
    (∀ uri swatches next, session.Step (.sent (.decorations uri swatches)) next →
      (∃ text, session.text? uri = some text ∧
        swatches = (session.analyzer.decorations (Sheet.ofText text)).map fun decoration =>
          ((Document.ofText text).unitPlace ⟨decoration.line, decoration.column⟩,
            decoration.background)) ∧
      AfterStores uri trace fun later =>
        session.analyzer.settings.colors.debounce ≤ timeIn later) ∧
    (∀ uri, AfterStores uri trace fun later => ∀ burst, burst <+: later →
      (∀ moment ∈ burst, moment.stores uri = false) → burst.countP (Moment.sends uri) ≤ 1) ∧
    session.scheduler.count ≤ session.documents.length ∧
    ∀ event uri swatches, Message.decorations uri swatches ∉ (session.notify event).2 := by
  have fresh := run.fresh (started_fresh base files options wanted)
  refine ⟨?_, fresh.once, fresh.count_le, session.notify_sends_no_swatches⟩
  intro uri swatches next step
  generalize isMessage : Moment.sent (.decorations uri swatches) = moment at step
  cases step with
  | tell event => cases isMessage
  | pass elapsed => cases isMessage
  | @send task waits isDue =>
    obtain ⟨rfl, sameSwatches⟩ := Message.decorations.inj (Moment.sent.inj isMessage)
    refine ⟨⟨task.payload, fresh.current task waits, sameSwatches⟩, ?_⟩
    refine (fresh.quiet task waits).imp ?_
    intro later enough
    have isOver : task.due ≤ session.scheduler.now := of_decide_eq_true isDue
    rw [← fresh.window]
    omega

/-- A document with a color is opened, and its swatch is sent when the window has passed. -/
theorem swatches_current_after_open :
    let text := "$a = 'é' red".toList
    let first := ((Session.new .default).request ⟨.directory [], []⟩ (.start none)).1
    let session := (first.notify (.opened "a.styl" text)).1.advance 400
    first.Run [.told (.opened "a.styl" text), .passed 400] session ∧
      session.text? "a.styl" = some text ∧
      ∃ swatches next, session.Step (.sent (.decorations "a.styl" swatches)) next ∧
        swatches = [(⟨0, 9⟩, "red")] := by
  intro text first session
  have run : first.Run [.told (.opened "a.styl" text), .passed 400] session :=
    (Run.none.next (.tell first _)).next (.pass _ 400)
  have waits : (⟨"a.styl", 400, text⟩ : Scheduler.Task String (List Char)) ∈
      session.scheduler.waiting := List.mem_cons_self
  obtain ⟨swatches, isMessage⟩ : ∃ swatches,
      session.swatchMessage "a.styl" text = .decorations "a.styl" swatches :=
    ⟨_, rfl⟩
  have step := Step.send waits rfl
  rw [isMessage] at step
  have stored : session.text? "a.styl" = some text := rfl
  obtain ⟨⟨text', isStored, areSwatches⟩, -⟩ :=
    (swatches_current .default ⟨.directory [], []⟩ none rfl run).1 _ _ _ step
  obtain rfl : text = text' := Option.some.inj (stored.symm.trans isStored)
  have red : ((session.analyzer.decorations (Sheet.ofText text)).map fun decoration =>
      ((Document.ofText text).unitPlace ⟨decoration.line, decoration.column⟩,
        decoration.background)) = [(⟨0, 9⟩, "red")] := by
    decide +kernel
  exact ⟨run, stored, swatches, _, step, areSwatches.trans red⟩

/-! ## Sending all that is due -/

/-- Tasks whose time has come can send their swatches one after the other. -/
theorem run_tasks
    {first : Session}
    (tasks : List (Scheduler.Task String (List Char)))
    (run : first.Run trace session)
    (waiting : tasks.Subperm session.scheduler.waiting)
    (areDue : ∀ task ∈ tasks, session.scheduler.isDue task = true) :
    first.Run
      (trace ++ tasks.map fun task => .sent (session.swatchMessage task.key task.payload))
      { session with
        scheduler := { session.scheduler with waiting := session.scheduler.waiting.diff tasks } } := by
  induction tasks generalizing trace session with
  | nil =>
    rw [List.map_nil, List.append_nil, List.diff_nil]
    exact run
  | cons task rest inductionHypothesis =>
    obtain ⟨isDue, othersDue⟩ := List.forall_mem_cons.mp areDue
    have waits : task ∈ session.scheduler.waiting := waiting.subset (List.mem_cons_self ..)
    have others : rest.Subperm (session.without task).scheduler.waiting := by
      have := waiting.erase task
      rwa [List.erase_cons_head] at this
    have more := inductionHypothesis (run.next (.send waits isDue)) others othersDue
    rw [List.append_assoc] at more
    rw [List.map_cons, List.diff_cons]
    exact more

theorem diff_filter
    {α : Type}
    [DecidableEq α]
    (test : α → Bool)
    (items : List α) :
    items.diff (items.filter test) = items.filter fun item => !test item := by
  induction items with
  | nil => rfl
  | cons item rest inductionHypothesis =>
    by_cases passes : test item = true
    · rw [List.filter_cons_of_pos passes, List.diff_cons, List.erase_cons_head, inductionHypothesis,
        List.filter_cons_of_neg (by simp [passes])]
    · have notIn : item ∉ rest.filter test := fun isIn => passes (List.mem_filter.mp isIn).2
      rw [List.filter_cons_of_neg passes, List.filter_cons_of_pos (by simpa using passes),
        List.cons_diff_of_not_mem notIn, inductionHypothesis]

/-- Sending all swatches whose time has come, the earliest first, is a run. -/
theorem runDue_run
    {first : Session}
    (run : first.Run trace session) :
    first.Run (trace ++ session.runDue.2.map .sent) session.runDue.1 := by
  let due := session.scheduler.waiting.filter session.scheduler.isDue
  let tasks := due.mergeSort fun left right => left.due ≤ right.due
  have sorted : tasks.Perm due := List.mergeSort_perm ..
  have rest : session.scheduler.waiting.diff tasks =
      session.scheduler.waiting.filter fun task => !session.scheduler.isDue task := by
    rw [sorted.diff_left, diff_filter]
  have areDue : ∀ task ∈ tasks, session.scheduler.isDue task = true :=
    fun task isIn => (List.mem_filter.mp (sorted.mem_iff.mp isIn)).2
  have sent := run_tasks tasks run (sorted.subperm.trans List.filter_sublist.subperm) areDue
  have split : session.scheduler.takeDue = (tasks,
      { session.scheduler with
        waiting := session.scheduler.waiting.filter fun task => !session.scheduler.isDue task }) := by
    rw [Scheduler.takeDue, List.partition_eq_filter_filter]
    rfl
  rw [rest] at sent
  rw [runDue, split, List.map_map]
  exact sent

end Session

end StyleSense
