import ContractScript.Proofs.ArgumentLists
import ContractScript.Proofs.Sessions

/-!
# What is logged never reaches the result

Two sessions of one command are compared, each in its own environment and with everything
logged or not. If both environments are valid, they differ in the settings of the log and
in nothing else, and of the records of the work each writes those that its level admits.
If an environment is not valid, its session ends before the work.

The level of a session is stated by names: it is `debug` if everything is logged, else the
one that the environment names, else the one from the start.
-/

namespace ContractScript

namespace Log

/-- What is admitted at one level and at a higher one is what is admitted at the higher one. -/
theorem Level.le_trans {low middle high : Level} (first : low ≤ middle) (second : middle ≤ high) :
    low ≤ high :=
  Nat.le_trans first second

namespace Environment

/-- An environment leads to one level at most. -/
theorem LeadsTo.unique {environment : Environment} {before level other : Level}
    (leads : environment.LeadsTo before level) (leadsToo : environment.LeadsTo before other) :
    level = other := by
  obtain ⟨given, _⟩ := environment
  cases given with
  | none => exact Eq.trans leads (Eq.symm leadsToo)
  | some text => exact Level.Named.unique leads leadsToo

/-- An environment leads to one choice at most. -/
theorem LeadsToChoice.unique {environment : Environment} {before shown other : Bool}
    (leads : environment.LeadsToChoice before shown)
    (leadsToo : environment.LeadsToChoice before other) : shown = other := by
  obtain ⟨_, given⟩ := environment
  cases given with
  | none => exact Eq.trans leads (Eq.symm leadsToo)
  | some text =>
    have read := (choice?_eq_some_iff text shown).mpr leads
    rw [(choice?_eq_some_iff text other).mpr leadsToo] at read
    exact Option.some.inj read.symm

end Environment

namespace Settings

/-- A valid environment is read to its end, and both settings are those that it leads to.
Of the three outcomes of reading, two are refusals, and each would contradict one of the
variables. -/
theorem configure_of_valid (settings : Settings) {environment : Environment}
    (valid : environment.Valid) :
    ∃ level shown, environment.LeadsTo settings.level level ∧
      environment.LeadsToChoice settings.timestamps shown ∧
      settings.configure environment = (⟨level, shown⟩, none) := by
  obtain ⟨accepted, meaningful⟩ := valid
  rcases settings.configure_cases environment with
    ⟨text, given, unnamed, _⟩ | ⟨level, leads, ⟨text, given, meaningless, _⟩ | read⟩
  · obtain ⟨level, named⟩ := accepted text given
    exact absurd named (unnamed level)
  · obtain ⟨shown, member⟩ := meaningful text given
    exact absurd member (meaningless shown)
  · obtain ⟨shown, leadsToo, outcome⟩ := read
    exact ⟨level, shown, leads, leadsToo, outcome⟩

/-- An environment that is not valid is refused: if it were read to its end, each of its
variables would have led to a setting. -/
theorem configure_of_not_valid (settings : Settings) {environment : Environment}
    (invalid : ¬environment.Valid) :
    ∃ read fault, settings.configure environment = (read, some fault) := by
  rcases settings.configure_cases environment with
    ⟨_, _, _, refused⟩ | ⟨level, leads, ⟨_, _, _, refused⟩ | ⟨shown, leadsToo, _⟩⟩
  · exact ⟨_, _, refused⟩
  · exact ⟨_, _, refused⟩
  · refine absurd ⟨?_, ?_⟩ invalid
    · intro text given
      exact ⟨level, by simpa [Environment.LeadsTo, given] using leads⟩
    · intro text given
      exact ⟨shown, by simpa [Environment.LeadsToChoice, given] using leadsToo⟩

end Settings

end Log

namespace CommandLine

/-- The level from which a request is logged in an environment. -/
def Request.LogsFrom (request : Request) (environment : Log.Environment) (level : Log.Level) :
    Prop :=
  if request.verbose then level = .debug else environment.LeadsTo .info level

/-- A request is logged from one level at most. -/
theorem Request.LogsFrom.unique {request : Request} {environment : Log.Environment}
    {level other : Log.Level} (logs : request.LogsFrom environment level)
    (logsToo : request.LogsFrom environment other) : level = other := by
  obtain ⟨verbose, _⟩ := request
  cases verbose with
  | true => exact Eq.trans logs (Eq.symm logsToo)
  | false => exact Log.Environment.LeadsTo.unique logs logsToo

/-- What a command comes to whatever is logged: an exit code, a text to print, and all the
records of its work. -/
def Command.outcome (command : Command) : Nat × String × List Log.Record :=
  match command.execute.result with
  | .ok text => (0, Text.trimmedRight text ++ "\n", command.execute.records)
  | .error fault => (1, "", command.execute.records ++ [⟨.error, fault.message⟩])

/-- In a valid environment, a request is answered with what its command comes to; only the
settings of the log are those of the request and the environment. The level is `debug` if
everything is logged; the choice about the point of time is the environment's in any
case. -/
theorem Request.respond_of_valid (request : Request) {environment : Log.Environment}
    (valid : environment.Valid) :
    ∃ level shown, request.LogsFrom environment level ∧ environment.LeadsToChoice true shown ∧
      request.respond environment = .admitting ⟨level, shown⟩ request.command.outcome.1
        request.command.outcome.2.1 request.command.outcome.2.2 := by
  obtain ⟨level, shown, leads, leadsToo, configured⟩ :=
    Log.Settings.initial.configure_of_valid valid
  have answered : request.respond environment =
      .admitting (request.settings ⟨level, shown⟩) request.command.outcome.1
        request.command.outcome.2.1 request.command.outcome.2.2 := by
    simp only [respond, configured, Command.outcome]
    cases request.command.execute.result <;> rfl
  rw [answered]
  cases verbose : request.verbose with
  | true =>
    refine ⟨.debug, shown, ?_, leadsToo, ?_⟩
    · simp [LogsFrom, verbose]
    · simp [settings, verbose]
  | false =>
    refine ⟨level, shown, ?_, leadsToo, ?_⟩
    · simp only [LogsFrom, verbose]
      exact leads
    · simp [settings, verbose]

/-- In an environment that is not valid, nothing is printed, and the exit code is one of its
own. -/
theorem Request.respond_of_not_valid (request : Request) {environment : Log.Environment}
    (invalid : ¬environment.Valid) :
    (request.respond environment).exitCode = 2 ∧ (request.respond environment).output = "" := by
  obtain ⟨read, fault, refused⟩ := Log.Settings.initial.configure_of_not_valid invalid
  simp [respond, refused, Response.admitting]

/-- Of the same records, those that are admitted at a higher level are those that are
admitted at a lower one and reach the higher one as well. Whether entries show the point
of time has to be the same, because an entry holds this choice. -/
theorem Response.entries_admitting_of_le {level other : Log.Level} (higher : level ≤ other)
    (shown : Bool) (exitCode : Nat) (output : String) (records : List Log.Record) :
    (admitting ⟨other, shown⟩ exitCode output records).ending.journal.entries =
      (admitting ⟨level, shown⟩ exitCode output records).ending.journal.entries.filter
        fun entry => other ≤ entry.record.level := by
  have both (record : Log.Record) :
      (decide (other ≤ record.level) && decide (level ≤ record.level)) =
        decide (other ≤ record.level) := by
    by_cases reaches : other ≤ record.level
    · simp [reaches, Log.Level.le_trans higher reaches]
    · simp [reaches]
  simp only [ending, admitting, Log.Settings.admits, List.filter_map, List.filter_filter,
    Function.comp_def, both]

/-- The session of an argument list ends with the response to it. -/
theorem session?_eq (arguments : List String) (environment : Log.Environment) :
    session? arguments environment = (respond? arguments environment).map Response.ending := by
  unfold session? respond?
  cases Demand.ofArguments? arguments with
  | none => rfl
  | some demand =>
    cases demand with
    | version => rfl
    | request request => exact congrArg some (request.session_eq environment)

/-- Of the records of a response, those are written that its settings admit, in a valid
environment and in any other. -/
theorem exists_admitting {arguments : List String} {environment : Log.Environment}
    {response : Response} (answered : respond? arguments environment = some response) :
    ∃ settings exitCode output records, response = .admitting settings exitCode output records := by
  unfold respond? at answered
  split at answered
  · cases answered
  · cases answered
    exact ⟨_, _, _, _, rfl⟩
  next request _ =>
    cases answered
    by_cases valid : environment.Valid
    · obtain ⟨level, shown, _, _, answered⟩ := request.respond_of_valid valid
      exact ⟨_, _, _, _, answered⟩
    · obtain ⟨read, fault, refused⟩ := Log.Settings.initial.configure_of_not_valid valid
      exact ⟨read, 2, "", [⟨.error, fault.message⟩], by simp only [Request.respond, refused]⟩

/-- What is logged never reaches the result. Let two argument lists be read as the same
command, with everything logged or not, and let both be answered in valid environments.
Their sessions end with the same exit code and the same printed text. If both show the
point of time or both do not, the session with the higher level has exactly those entries
of the other one that reach its level, in their order. An environment that is not valid
leads to an exit code of its own and prints nothing, also if everything is logged. The
flag for that, in front of a request without it, changes nothing else about the request.
The program writes the entries of these sessions.

Both sessions are responses to what one command comes to, under settings of their own. So
exit code and text agree at once, and the entries are the same records under two filters,
of which the higher one implies the other. -/
theorem log_settings_never_reach_result :
    (∀ arguments others request other environment otherEnvironment,
      Demand.ofArguments? arguments = some (.request request) →
      Demand.ofArguments? others = some (.request other) →
      request.command = other.command →
      environment.Valid → otherEnvironment.Valid →
      ∃ ending otherEnding,
        session? arguments environment = some ending ∧
        session? others otherEnvironment = some otherEnding ∧
        ending.exitCode = otherEnding.exitCode ∧ ending.output = otherEnding.output ∧
        ∀ level otherLevel shown,
          request.LogsFrom environment level → other.LogsFrom otherEnvironment otherLevel →
          environment.LeadsToChoice true shown → otherEnvironment.LeadsToChoice true shown →
          level ≤ otherLevel →
          otherEnding.journal.entries =
            ending.journal.entries.filter fun entry => otherLevel ≤ entry.record.level) ∧
    (∀ arguments request environment,
      Demand.ofArguments? arguments = some (.request request) → ¬environment.Valid →
      ∃ ending, session? arguments environment = some ending ∧
        ending.exitCode = 2 ∧ ending.output = "") ∧
    (∀ arguments command,
      Demand.ofArguments? arguments = some (.request ⟨false, command⟩) →
      Demand.ofArguments? ("-v" :: arguments) = some (.request ⟨true, command⟩)) ∧
    (∀ arguments environment,
      session? arguments environment = (respond? arguments environment).map Response.ending ∧
      ∀ response, respond? arguments environment = some response → ∀ now coloured,
        response.logText now coloured =
          String.join (response.ending.journal.entries.map fun entry =>
            entry.text now coloured)) := by
  refine ⟨?_, ?_, ?_, ?_⟩
  · intro arguments others request other environment otherEnvironment read readToo same valid
      validToo
    obtain ⟨level, shown, logs, leads, answered⟩ := request.respond_of_valid valid
    obtain ⟨otherLevel, otherShown, logsToo, leadsToo, answeredToo⟩ :=
      other.respond_of_valid validToo
    refine ⟨(request.respond environment).ending, (other.respond otherEnvironment).ending,
      ?_, ?_, ?_, ?_, ?_⟩
    · simp only [session?, read, Request.session_eq]
    · simp only [session?, readToo, Request.session_eq]
    · rw [answered, answeredToo, same]
      rfl
    · rw [answered, answeredToo, same]
      rfl
    · intro given otherGiven chosen logsGiven logsOther leadsChosen leadsOther higher
      cases logs.unique logsGiven
      cases logsToo.unique logsOther
      cases leads.unique leadsChosen
      cases leadsToo.unique leadsOther
      rw [answered, answeredToo, same]
      exact Response.entries_admitting_of_le higher _ _ _ _
  · intro arguments request environment read invalid
    refine ⟨(request.respond environment).ending, ?_, request.respond_of_not_valid invalid⟩
    simp only [session?, read, Request.session_eq]
  · intro arguments command read
    have flag : leadingForm.token 0 "-v" = .flags [.verbose] := by decide
    rw [Demand.ofArguments?, Demand.readFrom, flag]
    exact Demand.readFrom_true read
  · intro arguments environment
    refine ⟨session?_eq arguments environment, ?_⟩
    intro response answered now coloured
    obtain ⟨settings, exitCode, output, records, rfl⟩ := exists_admitting answered
    exact Response.logText_admitting settings exitCode output records now coloured

/-- An invocation without arguments, once with everything logged and once from the level that
the environment names: the record of the assembler is the one that is dropped. Logging everything
does not mend an environment whose level is unknown. -/
theorem log_settings_of_loud_and_named :
    let arguments := ["invoke", "0101010101010101010101010101010101010101", "mint"]
    let named : Log.Environment := ⟨some "INFO", some "0"⟩
    ∃ ending otherEnding refused,
      session? ("-v" :: arguments) ⟨none, some "false"⟩ = some ending ∧
      session? arguments named = some otherEnding ∧
      ending.exitCode = otherEnding.exitCode ∧ ending.output = otherEnding.output ∧
      otherEnding.journal.entries =
        ending.journal.entries.filter (fun entry => Log.Level.info ≤ entry.record.level) ∧
      (ending.journal.entries.map fun entry => entry.record.level) = [.debug, .info] ∧
      session? ("-v" :: arguments) ⟨some "loud", none⟩ = some refused ∧
      refused.exitCode = 2 ∧ refused.output = "" := by
  intro arguments named
  obtain ⟨same, invalid, flag, _⟩ := log_settings_never_reach_result
  have read : Demand.ofArguments? arguments = some (.request ⟨false,
      .invoke "0101010101010101010101010101010101010101" "mint" [] .call true false⟩) := by
    decide +kernel
  have hides : "false" ∈ Log.choiceTexts false ∧ "0" ∈ Log.choiceTexts false := by decide
  have level : Log.Level.info.Named "INFO" := ⟨"info", by decide, by decide +kernel⟩
  have accepted : named.LevelAccepted := by
    rintro _ ⟨⟩
    exact ⟨.info, level⟩
  obtain ⟨ending, otherEnding, session, otherSession, exitCodes, outputs, logs⟩ :=
    same _ _ _ _ ⟨none, some "false"⟩ named (flag arguments _ read) read rfl
      ⟨nofun, fun _ given => ⟨false, Option.some.inj given ▸ hides.1⟩⟩
      ⟨accepted, fun _ given => ⟨false, Option.some.inj given ▸ hides.2⟩⟩
  have entries := logs .debug .info false rfl level hides.1 hides.2 (by decide)
  have unnamed : ¬Log.Environment.Valid ⟨some "loud", none⟩ := by
    rintro ⟨accepted, _⟩
    obtain ⟨level, named⟩ := accepted "loud" rfl
    rw [Log.Level.named_iff] at named
    revert named
    cases level <;> decide +kernel
  obtain ⟨refused, refusal, exitCode, output⟩ := invalid _ _ _ (flag arguments _ read) unnamed
  have levels : (session? ("-v" :: arguments) ⟨none, some "false"⟩).map (fun ending =>
      ending.journal.entries.map fun entry => entry.record.level) = some [.debug, .info] := by
    decide +kernel
  rw [session] at levels
  exact ⟨ending, otherEnding, refused, session, otherSession, exitCodes, outputs, entries,
    Option.some.inj levels, refusal, exitCode, output⟩

end CommandLine

end ContractScript
