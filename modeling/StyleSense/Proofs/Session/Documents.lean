import StyleSense.Proofs.Session.Freshness

/-!
Contract: the text of a document is what its notifications say, and no others.

Between two moments at which a document is opened or closed, only its own changes count. Each of them
is a list of texts of which the first is taken; an empty list leaves the text as it is.

Owns:
- `changesIn`, the changes of one document among some moments, and `afterChanges`, the text they
  leave;
- `Session.Step.text?_unbounded` and `Session.Run.text?_unbounded`, what a step and a run without an
  open or close of a document do with its text;
- `Session.text?_of_notifications`, the text of every document after every run;
- `Session.text?_request`, that questions change no text.

Does not own: the swatches that are sent for a text (`StyleSense.Proofs.Session.Freshness`).
-/

namespace StyleSense

/-! ## Changes of a document -/

namespace Moment

/-- Whether a document is opened or closed. -/
def bounds (uri : String) : Moment → Bool
  | told (.opened other _) => other == uri
  | told (.closed other) => other == uri
  | _ => false

/-- The texts that come in as a change of a document. -/
def change? (uri : String) : Moment → Option (List (List Char))
  | told (.changed other texts) => if other = uri then some texts else none
  | _ => none

end Moment

/-- The changes of a document, oldest first. -/
def changesIn (uri : String) (moments : List Moment) : List (List (List Char)) :=
  moments.filterMap (Moment.change? uri)

/-- The text that changes leave: the first text of each counts. -/
def afterChanges (served : Option (List Char)) (changes : List (List (List Char))) :
    Option (List Char) :=
  changes.foldl (fun served texts => texts.head?.or served) served

theorem changesIn_append
    (uri : String)
    (before later : List Moment) :
    changesIn uri (before ++ later) = changesIn uri before ++ changesIn uri later :=
  List.filterMap_append ..

theorem afterChanges_append
    (served : Option (List Char))
    (before later : List (List (List Char))) :
    afterChanges served (before ++ later) = afterChanges (afterChanges served before) later :=
  List.foldl_append ..

/-- When no change has two texts, the last text of all counts. -/
theorem afterChanges_of_single
    {changes : List (List (List Char))}
    (single : ∀ texts ∈ changes, texts.length ≤ 1)
    (served : Option (List Char)) :
    afterChanges served changes = changes.flatten.getLast?.or served := by
  induction changes generalizing served with
  | nil => rfl
  | cons texts rest inductionHypothesis =>
    obtain ⟨isSingle, others⟩ := List.forall_mem_cons.mp single
    have later := inductionHypothesis others (texts.head?.or served)
    match texts, isSingle with
    | [], _ => exact later
    | [text], _ =>
      rw [List.flatten_cons, List.getLast?_append, Option.or_assoc]
      exact later

namespace Session

variable {trace : List Moment} {first session next : Session}

/-! ## Steps -/

theorem text?_forget_self
    (session : Session)
    (uri : String) :
    (session.forget uri).text? uri = none := by
  simp [text?, forget]

@[simp]
theorem text?_scheduleSwatches
    (session : Session)
    (uri other : String)
    (text : List Char) :
    (session.scheduleSwatches uri text).text? other = session.text? other := by
  rw [scheduleSwatches]
  split <;> rfl

/-- A running session goes on running, whatever it is told. -/
theorem handle_phase
    (session : Session)
    (event : Event) :
    (session.handle event).1.phase = session.phase := by
  cases event with
  | started => rfl
  | opened uri text =>
    rw [handle, scheduleSwatches]
    split <;> rfl
  | changed uri texts =>
    cases texts with
    | nil => rfl
    | cons text rest =>
      rw [handle, scheduleSwatches]
      split <;> rfl
  | closed uri => rfl

theorem Step.running
    {moment : Moment}
    (step : session.Step moment next)
    (running : session.phase = .running) :
    next.phase = .running := by
  cases step with
  | tell event =>
    rw [notify, if_pos running, handle_phase]
    exact running
  | pass elapsed => exact running
  | send waits isDue => exact running

/-- A step that neither opens nor closes a document leaves the text that its changes leave. -/
theorem Step.text?_unbounded
    {moment : Moment}
    (step : session.Step moment next)
    (running : session.phase = .running)
    {uri : String}
    (unbounded : moment.bounds uri = false) :
    next.text? uri = afterChanges (session.text? uri) (changesIn uri [moment]) := by
  cases step with
  | pass elapsed => rfl
  | send waits isDue => rfl
  | tell event =>
    rw [notify, if_pos running]
    cases event with
    | started => rfl
    | opened other text =>
      have differs : uri ≠ other := Ne.symm (beq_eq_false_iff_ne.mp unbounded)
      rw [handle, text?_scheduleSwatches, text?_store_of_ne session differs]
      rfl
    | closed other =>
      have differs : uri ≠ other := Ne.symm (beq_eq_false_iff_ne.mp unbounded)
      rw [handle, text?_forget_of_ne session differs]
      rfl
    | changed other texts =>
      by_cases same : other = uri
      · subst same
        have isChange : changesIn other [.told (.changed other texts)] = [texts] := by
          simp [changesIn, Moment.change?]
        rw [isChange]
        cases texts with
        | nil => rfl
        | cons text rest =>
          rw [handle, text?_scheduleSwatches, text?_store_self]
          rfl
      · have noChange : changesIn uri [.told (.changed other texts)] = [] := by
          simp [changesIn, Moment.change?, same]
        rw [noChange]
        cases texts with
        | nil => rfl
        | cons text rest =>
          rw [handle, text?_scheduleSwatches, text?_store_of_ne session (Ne.symm same)]
          rfl

/-! ## Runs -/

theorem Run.running
    (run : first.Run trace session)
    (running : first.phase = .running) :
    session.phase = .running := by
  induction run with
  | none => exact running
  | next _ step inductionHypothesis => exact step.running inductionHypothesis

/-- A run that neither opens nor closes a document leaves the text that its changes leave. -/
theorem Run.text?_unbounded
    (run : first.Run trace session)
    (running : first.phase = .running)
    {uri : String}
    (unbounded : ∀ moment ∈ trace, moment.bounds uri = false) :
    session.text? uri = afterChanges (first.text? uri) (changesIn uri trace) := by
  induction run with
  | none => rfl
  | @next earlier session next moment run step inductionHypothesis =>
    have earlierUnbounded : ∀ other ∈ earlier, other.bounds uri = false :=
      fun other isIn => unbounded other (List.mem_append_left _ isIn)
    have nowUnbounded : moment.bounds uri = false :=
      unbounded moment (List.mem_append_right _ (List.mem_singleton_self _))
    rw [step.text?_unbounded (run.running running) nowUnbounded,
      inductionHypothesis earlierUnbounded, changesIn_append, afterChanges_append]

/-- What an event makes of a document is what its later changes start from, as long as nothing opens
or closes it. -/
theorem Run.text?_since
    (run : first.Run trace session)
    (running : first.phase = .running)
    {before later : List Moment}
    {event : Event}
    (split : trace = before ++ .told event :: later)
    {uri : String}
    {served : Option (List Char)}
    (serves : ∀ session : Session, (session.handle event).1.text? uri = served)
    (unbounded : ∀ moment ∈ later, moment.bounds uri = false) :
    session.text? uri = afterChanges served (changesIn uri later) := by
  induction run generalizing later with
  | none => simp at split
  | @next earlier session next moment run step inductionHypothesis =>
    rcases split_of_concat split with ⟨rfl, rfl⟩ | ⟨rest, rfl, earlierSplit⟩
    · cases step with
      | tell =>
        rw [notify, if_pos (run.running running)]
        exact serves session
    · have restUnbounded : ∀ other ∈ rest, other.bounds uri = false :=
        fun other isIn => unbounded other (List.mem_append_left _ isIn)
      have nowUnbounded : moment.bounds uri = false :=
        unbounded moment (List.mem_append_right _ (List.mem_singleton_self _))
      rw [step.text?_unbounded (run.running running) nowUnbounded,
        inductionHypothesis earlierSplit restUnbounded, changesIn_append, afterChanges_append]

/-! ## Documents -/

/-- A question changes no text, and neither does the end of a session. -/
theorem text?_request
    (session : Session)
    (files : FileSystem)
    (request : Request)
    (uri : String) :
    (session.request files request).1.text? uri = session.text? uri := by
  cases isPhase : session.phase <;> cases request <;>
    simp [Session.request, isPhase, start, text?]

/-- For every run of a running session and every document: since the last time it was opened, its
text is the one it was opened with, replaced by the first text of every later change that has one;
since the last time it was closed, it has a text only if such a change came in; and as long as it is
neither opened nor closed, nothing but its changes replaces the text it had. -/
theorem text?_of_notifications
    (running : first.phase = .running)
    (run : first.Run trace session)
    (uri : String) :
    (∀ before text later, trace = before ++ .told (.opened uri text) :: later →
      (∀ moment ∈ later, moment.bounds uri = false) →
      session.text? uri = afterChanges (some text) (changesIn uri later)) ∧
    (∀ before later, trace = before ++ .told (.closed uri) :: later →
      (∀ moment ∈ later, moment.bounds uri = false) →
      session.text? uri = afterChanges none (changesIn uri later)) ∧
    ((∀ moment ∈ trace, moment.bounds uri = false) →
      session.text? uri = afterChanges (first.text? uri) (changesIn uri trace)) := by
  refine ⟨?_, ?_, run.text?_unbounded running⟩
  · intro before text later split unbounded
    have serves (session : Session) : (session.handle (.opened uri text)).1.text? uri = some text := by
      rw [handle, text?_scheduleSwatches, text?_store_self]
    exact run.text?_since running split serves unbounded
  · intro before later split unbounded
    have serves (session : Session) : (session.handle (.closed uri)).1.text? uri = none :=
      session.text?_forget_self uri
    exact run.text?_since running split serves unbounded

/-- Two documents are opened, one of them is changed and the other one closed. -/
theorem text?_of_notifications_for_two :
    let first := ((Session.new .default).request ⟨.directory [], []⟩ (.start none)).1
    let trace : List Moment := [.told (.opened "a.styl" ['1']), .told (.opened "b.styl" ['x']),
      .told (.changed "a.styl" []), .told (.changed "a.styl" [['2'], ['3']]), .told (.closed "b.styl")]
    ∃ session, first.phase = .running ∧ first.Run trace session ∧
      session.text? "a.styl" = some ['2'] ∧ session.text? "b.styl" = none := by
  intro first trace
  have opened : first.Run (trace.take 2) _ := (Run.none.next (.tell first _)).next (.tell _ _)
  have run : first.Run trace _ :=
    ((opened.next (.tell _ _)).next (.tell _ _)).next (.tell _ _)
  have running : first.phase = .running := rfl
  have texts := text?_of_notifications running run
  refine ⟨_, rfl, run, ?_, ?_⟩
  · exact (texts "a.styl").1 [] ['1'] _ rfl (by decide)
  · exact (texts "b.styl").2.1 (trace.take 4) [] rfl (by decide)

/-- Of two texts in one change the first one stays, and a change brings back a document that was
closed. -/
theorem later_text_of_change_ignored :
    let first := ((Session.new .default).request ⟨.directory [], []⟩ (.start none)).1
    (∃ session, first.Run
      [.told (.opened "a.styl" []), .told (.changed "a.styl" [['1'], ['2']])] session ∧
      session.text? "a.styl" = some ['1']) ∧
    ∃ session, first.Run
      [.told (.opened "a.styl" []), .told (.closed "a.styl"), .told (.changed "a.styl" [['1']])]
        session ∧
      session.text? "a.styl" = some ['1'] := by
  intro first
  have opened : first.Run [.told (.opened "a.styl" [])] _ := Run.none.next (.tell first _)
  exact ⟨⟨_, opened.next (.tell _ _), by decide⟩,
    ⟨_, (opened.next (.tell _ _)).next (.tell _ _), by decide⟩⟩

end Session

end StyleSense
