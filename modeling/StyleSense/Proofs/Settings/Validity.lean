import StyleSense.Command.Run
import StyleSense.Session.Wire

/-!
Contract: which settings in effect are valid.

Settings are checked when they are read, from a file and from the options of an editor. What a
command line changes afterwards is not checked again; of that only a limit of zero swatches is not
valid.

Owns:
- `Settings.isValid_iff` and that everything that is read is valid;
- `Settings.faults_override`, the faults that a command line brings in;
- `Session.Reaches`, all that can happen to a session, and that its settings stay valid;
- `settings_in_effect`.

Does not own: which file is read (`StyleSense.Proofs.Settings.Nearest`).
-/

namespace StyleSense

/-! ## Settings that are read -/

namespace Settings

variable {settings loaded : Settings}

theorem extensionFaults_eq_nil_iff (extensions : List String) (index : Nat) :
    extensionFaults index extensions = [] ↔ ∀ extension ∈ extensions, isExtension extension := by
  induction extensions generalizing index with
  | nil => simp [extensionFaults]
  | cons extension rest inductionHypothesis =>
    rw [extensionFaults, List.append_eq_nil_iff, inductionHypothesis, List.forall_mem_cons]
    simp

/-- Limits are positive, and extensions are written without their dots. -/
theorem isValid_iff (settings : Settings) :
    settings.isValid = true ↔
      settings.colors.maxDecorations ≠ 0 ∧ settings.watch.debounce ≠ 0 ∧
        settings.watch.extensions ≠ [] ∧
        ∀ extension ∈ settings.watch.extensions, isExtension extension := by
  rw [isValid, List.isEmpty_iff, faults]
  simp [extensionFaults_eq_nil_iff]

theorem isValid_default : Settings.default.isValid = true := by
  decide

theorem isValid_of_check (checked : settings.check = .ok loaded) : loaded.isValid = true := by
  rw [check] at checked
  split at checked
  · cases checked
    assumption
  · cases checked

/-- What an editor sends is checked. -/
theorem isValid_of_ofOptions
    {options : Option Json}
    (accepted : ofOptions options = .ok loaded) :
    loaded.isValid = true := by
  unfold ofOptions at accepted
  split at accepted
  · cases accepted
    exact isValid_default
  · cases accepted
    exact isValid_default
  · split at accepted
    · cases accepted
    · exact isValid_of_check accepted

/-- A command line spoils valid settings only by a limit of zero swatches. -/
theorem faults_override (valid : settings.isValid = true) (overrides : Overrides) :
    (settings.override overrides).faults =
      if overrides.maxDecorations = some 0 then [.noDecorations] else [] := by
  obtain ⟨limit, debounce, nonempty, areExtensions⟩ := (isValid_iff settings).1 valid
  have limits : overrides.maxDecorations.getD settings.colors.maxDecorations = 0 ↔
      overrides.maxDecorations = some 0 := by
    cases overrides.maxDecorations with
    | none => simpa using limit
    | some most => simp
  have unchanged : extensionFaults 0 settings.watch.extensions = [] :=
    (extensionFaults_eq_nil_iff _ _).2 areExtensions
  rw [faults, override]
  simp [limits, debounce, nonempty, unchanged]

end Settings

namespace FileSystem

variable {files : FileSystem} {loaded : Settings}

/-- What a file holds is checked. -/
theorem isValid_of_readSettings
    {path : Path}
    (accepted : files.readSettings path = .ok loaded) :
    loaded.isValid = true := by
  rw [readSettings] at accepted
  split at accepted
  · cases accepted
  · split at accepted
    · cases accepted
    · exact Settings.isValid_of_check accepted

theorem isValid_of_loadSettings
    {environment : Environment}
    {named : Option Path}
    (accepted : files.loadSettings environment named = .ok loaded) :
    loaded.isValid = true := by
  rw [loadSettings] at accepted
  split at accepted
  · cases accepted
    exact Settings.isValid_default
  · exact isValid_of_readSettings accepted

theorem settings_of_analyzer
    {analyzer : Analyzer}
    (built : files.analyzer loaded = .ok analyzer) :
    analyzer.settings = loaded := by
  rw [FileSystem.analyzer] at built
  split at built
  · cases built
    rfl
  · rename_i path _
    cases read : files.readSchema path with
    | error fault =>
      rw [read] at built
      cases built
    | ok schema =>
      rw [read] at built
      cases built
      rfl

end FileSystem

/-! ## Sessions -/

namespace Session

/-- The settings of a session and those that hold when the editor sends none are valid. -/
structure IsSound (session : Session) : Prop where
  base : session.base.isValid = true
  current : session.analyzer.settings.isValid = true

/-- All that can happen to a session: the editor calls, time passes, swatches are sent. -/
inductive Reaches (first : Session) : Session → Prop
  | here : Reaches first first
  | call {session : Session} (reached : Reaches first session) (files : FileSystem) (call : Call) :
      Reaches first (session.receive files call).1
  | wait {session : Session} (reached : Reaches first session) (elapsed : Nat) :
      Reaches first (session.advance elapsed)
  | send {session : Session} (reached : Reaches first session) :
      Reaches first session.runDue.1

variable {session : Session}

theorem new_isSound {base : Settings} (valid : base.isValid = true) : (new base).IsSound :=
  ⟨valid, Settings.isValid_default⟩

/-- Settings come from the editor, and are checked then, or are those of the session. -/
theorem IsSound.isValid_of_settingsFor
    {options : Option Json}
    {settings : Settings}
    (sound : session.IsSound)
    (accepted : session.settingsFor options = .ok settings) :
    settings.isValid = true := by
  unfold settingsFor at accepted
  split at accepted
  · cases accepted
    exact sound.base
  · cases accepted
    exact sound.base
  · exact Settings.isValid_of_ofOptions accepted

theorem IsSound.start
    (sound : session.IsSound)
    (files : FileSystem)
    (options : Option Json) :
    (session.start files options).1.IsSound := by
  refine ⟨sound.base, ?_⟩
  have chosen analyzer (built : session.analyzerFor files options = .ok analyzer) :
      analyzer.settings.isValid = true := by
    rw [analyzerFor] at built
    split at built
    · cases built
    · rename_i settings accepted
      cases fresh : files.analyzer settings with
      | error fault =>
        rw [fresh] at built
        cases built
      | ok other =>
        rw [fresh] at built
        cases built
        rw [FileSystem.settings_of_analyzer fresh]
        exact sound.isValid_of_settingsFor accepted
  rw [Session.start]
  cases built : session.analyzerFor files options with
  | error text => exact Settings.isValid_default
  | ok analyzer => exact chosen analyzer built

/-- Only the start of a session sets its analyzer. -/
theorem IsSound.request
    (sound : session.IsSound)
    (files : FileSystem)
    (request : Request) :
    (session.request files request).1.IsSound := by
  unfold Session.request
  split
  · exact sound.start files _
  · exact sound
  · exact sound
  · exact ⟨sound.base, sound.current⟩
  · exact sound
  · exact sound

/-- Events concern documents only. -/
theorem IsSound.notify (sound : session.IsSound) (event : Event) :
    (session.notify event).1.IsSound := by
  have stored uri text : ((session.store uri text).scheduleSwatches uri text).IsSound := by
    rw [scheduleSwatches]
    split <;> exact ⟨sound.base, sound.current⟩
  rw [Session.notify]
  split
  · cases event with
    | started => exact sound
    | opened uri text => exact stored uri text
    | changed uri texts =>
      cases texts with
      | nil => exact sound
      | cons text rest => exact stored uri text
    | closed uri => exact ⟨sound.base, sound.current⟩
  · exact sound

theorem receive_request (session : Session) (files : FileSystem) (id : Json) (request : Request) :
    (session.receive files (.request id request)).1 = (session.request files request).1 := by
  rw [Session.receive]
  split <;> simp_all

/-- No call leads to settings that are not valid. -/
theorem IsSound.receive
    (sound : session.IsSound)
    (files : FileSystem)
    (call : Call) :
    (session.receive files call).1.IsSound := by
  cases call with
  | request id request =>
    rw [receive_request]
    exact sound.request files request
  | event event => exact sound.notify event
  | exit => exact sound
  | unknown id code text => exact sound
  | ignored => exact sound

/-- The settings of a session are always valid. -/
theorem Reaches.isSound
    {first : Session}
    (reached : first.Reaches session)
    (sound : first.IsSound) :
    session.IsSound := by
  induction reached with
  | here => exact sound
  | call reached files call inductionHypothesis => exact inductionHypothesis.receive files call
  | wait reached elapsed inductionHypothesis =>
    exact ⟨inductionHypothesis.base, inductionHypothesis.current⟩
  | send reached inductionHypothesis =>
    exact ⟨inductionHypothesis.base, inductionHypothesis.current⟩

end Session

/-! ## What a command line asks for -/

namespace Invocation

variable {invocation : Invocation} {files : FileSystem} {environment : Environment}
  {settings : Settings}

theorem overrides_maxDecorations_iff (command : Command) :
    command.overrides.maxDecorations = some 0 ↔
      ∃ arguments, command = .decorations arguments (some 0) := by
  cases command with
  | decorations arguments most => simp [Command.overrides]
  | complete file line column separator => cases separator <;> simp [Command.overrides]
  | _ => simp [Command.overrides]

/-- Settings in effect are valid unless a command line asks for a limit of zero swatches. -/
theorem isValid_settings_iff (accepted : invocation.settings files environment = .ok settings) :
    settings.isValid = true ↔
      ∀ arguments, invocation.command ≠ .decorations arguments (some 0) := by
  cases load : files.loadSettings environment invocation.settingsFile with
  | error error =>
    rw [Invocation.settings, load] at accepted
    cases accepted
  | ok loaded =>
    rw [Invocation.settings, load] at accepted
    cases accepted
    rw [Settings.isValid, List.isEmpty_iff,
      Settings.faults_override (FileSystem.isValid_of_loadSettings load),
      ← not_exists, ← overrides_maxDecorations_iff]
    simp

end Invocation

/-- Settings in effect are valid: those that an analyzer is built from for a command, those that an
editor sends, and those of a session. Only a command line can spoil them, by asking for a limit of
zero swatches, and this is then all that is wrong with them. -/
theorem settings_in_effect (files : FileSystem) (environment : Environment) :
    (∀ named loaded, files.loadSettings environment named = .ok loaded →
      ∀ overrides : Overrides, (loaded.override overrides).faults =
        if overrides.maxDecorations = some 0 then [.noDecorations] else []) ∧
    (∀ (invocation : Invocation) settings, invocation.settings files environment = .ok settings →
      (∀ analyzer, files.analyzer settings = .ok analyzer →
        (analyzer.settings.isValid = true ↔
          ∀ arguments, invocation.command ≠ .decorations arguments (some 0))) ∧
      (invocation.command = .serve → ∀ session, (Session.new settings).Reaches session →
        session.base.isValid = true ∧ session.analyzer.settings.isValid = true)) ∧
    ∀ options settings, Settings.ofOptions options = .ok settings → settings.isValid = true := by
  refine ⟨?_, ?_, fun options settings => Settings.isValid_of_ofOptions⟩
  · intro named loaded load
    exact Settings.faults_override (FileSystem.isValid_of_loadSettings load)
  · intro invocation settings accepted
    have valid := Invocation.isValid_settings_iff accepted
    refine ⟨fun analyzer built => ?_, fun serves session reached => ?_⟩
    · rw [FileSystem.settings_of_analyzer built]
      exact valid
    · have sound := reached.isSound (Session.new_isSound (valid.2 (by simp [serves])))
      exact ⟨sound.base, sound.current⟩

/-- Where there is no settings file, an analyzer for zero swatches is built from settings that are
not valid, and a session that has started has the defaults. -/
theorem settings_in_effect_of_defaults :
    let without : Invocation := ⟨none, none, .decorations [] (some 0)⟩
    let serve : Invocation := ⟨none, none, .serve⟩
    let settings := Settings.default.override { maxDecorations := some 0 }
    without.settings .empty ⟨none, none⟩ = .ok settings ∧
      FileSystem.empty.analyzer settings = .ok ⟨settings, .bundled⟩ ∧
      settings.isValid = false ∧
      serve.settings .empty ⟨none, none⟩ = .ok .default ∧
      ((Session.new .default).receive .empty (.request .null (.start none))).1.analyzer.settings.isValid
        = true := by
  intro without serve settings
  have spoiled : without.settings .empty ⟨none, none⟩ = .ok settings := rfl
  have kept : serve.settings .empty ⟨none, none⟩ = .ok .default := rfl
  have built : FileSystem.empty.analyzer settings = .ok ⟨settings, .bundled⟩ := rfl
  have effect := (settings_in_effect .empty ⟨none, none⟩).2.1
  have notValid : settings.isValid = false := by
    rw [← Bool.not_eq_true, ((effect without settings spoiled).1 _ built)]
    simp [without]
  have started : (Session.new .default).Reaches
      ((Session.new .default).receive .empty (.request .null (.start none))).1 :=
    .call .here .empty (.request .null (.start none))
  exact ⟨spoiled, built, notValid, kept, ((effect serve _ kept).2 rfl _ started).2⟩

end StyleSense
