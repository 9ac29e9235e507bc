import ContractScript.CommandLine.Session
import ContractScript.Proofs.InPlace
import ContractScript.Proofs.ListedCommands
import ContractScript.Proofs.LogSettings

/-!
# Sessions end with responses

A response looks as if all records were collected first and written at the end, by the
settings that hold then. In a session they come in one by one, some of them in the middle
of assembling. Both come to the same: once the work has begun, no record is written by other
settings than the last ones, and the work gives its result and its records whatever the
journal is.
-/

namespace ContractScript.CommandLine

namespace Session

/-- Work behind other work goes on with its value and from the journal it left, unless the
first was stopped; then the fault and that journal are what the whole ends with. -/
theorem run_bind {α β : Type} (first : Session α) (second : α → Session β)
    (journal : Log.Journal) :
    (do let value ← first; second value : Session β).run journal =
      match first.run journal with
      | (.ok value, after) => (second value).run after
      | (.error fault, after) => (.error fault, after) := by
  unfold run
  rw [run_bind_state]
  rcases (ExceptT.run first).run journal with ⟨_ | _, after⟩ <;> rfl

/-- A value that is checked leaves the journal alone, and if the check fails, the work on it is
not begun. -/
theorem run_checked {α β : Type} (checked : Except CommandError α) (work : α → Session β)
    (journal : Log.Journal) :
    (do let value ← checked; work value : Session β).run journal =
      match checked with
      | .ok value => (work value).run journal
      | .error fault => (.error fault, journal) := by
  cases checked <;> rfl

/-- Assembling an operation gives its emission and lets its records come in, whatever the
journal holds. The assembler starts on an empty script, so that the bytes it returns are
those the operation adds. -/
theorem run_assemble (operation : Operation) (journal : Log.Journal) :
    (assemble operation).run journal = (match operation.emission.failure with
      | some cause => .error (.script cause)
      | none => .ok operation.emission.bytes, journal.noteAll operation.records) := by
  have performed := (⟨[], journal⟩ : Assembler).perform_eq operation
  cases failure : operation.emission.failure with
  | some cause =>
    rw [failure] at performed
    simp only [run, assemble, ExceptT.run, StateT.run, performed]
  | none =>
    rw [failure] at performed
    simp only [run, assemble, ExceptT.run, StateT.run, performed, List.nil_append]

end Session

/-- An operation that is stopped leaves its fault alone: the records of assembling come in
only when an invocation is complete, and those of a success are not reached. -/
theorem assembled_stopped {operation : Operation} {cause : ScriptError}
    (failure : operation.emission.failure = some cause) (listed : Bool)
    (success : List UInt8 → List Log.Record) :
    assembled operation listed success = ⟨[], .error (.script cause)⟩ := by
  simp [assembled, Builder.perform, failure]

/-- An operation that comes to its end leaves its records, then those of its success, and the
text of what it adds. -/
theorem assembled_complete {operation : Operation} (failure : operation.emission.failure = none)
    (listed : Bool) (success : List UInt8 → List Log.Record) :
    assembled operation listed success =
      ⟨operation.records ++ success operation.emission.bytes,
        scriptText operation.emission.bytes listed⟩ := by
  simp [assembled, Builder.perform, Builder.empty, Builder.size, Operation.records, failure]

/-- Assembling a script, letting the records of its success come in, and printing it,
gives what the response computes, if the notes are the records of the success.

The operation is stopped, and then neither side notes anything or prints, or it is
complete: then the records of assembling come first and those of the success behind them,
and printing leaves the journal alone whether the listing has a fault or not. -/
theorem run_assembled (operation : Operation) (listed : Bool)
    (success : List UInt8 → List Log.Record) (noted : List UInt8 → Session Unit)
    (notes : ∀ script journal,
      (noted script).run journal = (.ok (), journal.noteAll (success script)))
    (journal : Log.Journal) :
    (do
      let script ← Session.assemble operation
      noted script
      scriptText script listed : Session String).run journal =
      ((assembled operation listed success).result,
        journal.noteAll (assembled operation listed success).records) := by
  rw [Session.run_bind, Session.run_assemble]
  cases failure : operation.emission.failure with
  | some cause =>
    rw [assembled_stopped failure, Operation.records, failure]
  | none =>
    rw [assembled_complete failure, Log.Journal.noteAll_append]
    simp only [Session.run_bind, notes]
    cases scriptText operation.emission.bytes listed <;> rfl

/-- The work of a command gives its result, and its records come in one after the other.

Each command first checks its texts, and a check that fails ends both sides with the same
fault and no record: the hash and then the parameters for an invocation, the script for a
listing. Behind the checks an invocation and a service call are assembled and printed,
with one more record for the former, and a listing has no records. -/
theorem Command.run_work (command : Command) (journal : Log.Journal) :
    command.work.run journal =
      (command.execute.result, journal.noteAll command.execute.records) := by
  cases command with
  | invoke hash operation parameters mode withArguments listed =>
    rw [work, execute, invocationValues, Session.run_checked]
    cases hexBytes hash with
    | error fault => rfl
    | ok bytes =>
      simp only [Session.run_checked]
      cases parameters.mapM parameterOfText with
      | error fault => rfl
      | ok values =>
        exact run_assembled _ listed
          (fun script => [assembledRecord operation parameters.length script])
          (fun script => Session.note (assembledRecord operation parameters.length script))
          (fun _ _ => rfl) journal
  | serviceCall name hashed listed =>
    exact run_assembled (.serviceCall name hashed) listed (fun _ => []) (fun _ => return)
      (fun _ _ => rfl) journal
  | disassemble script =>
    rw [work, execute, Session.run_checked]
    cases hexBytes script with
    | error fault => rfl
    | ok bytes => cases ContractScript.disassemble bytes <;> rfl

/-- How a session of this response ends: its records are the entries of the journal. -/
def Response.ending (response : Response) : Ending :=
  ⟨response.exitCode, response.output, ⟨response.settings,
    response.records.map fun record => ⟨record, response.settings.timestamps⟩⟩⟩

/-- Records that come in to an empty journal end up as those of a response: the ones the
level admits, in order, each with the timestamps that are in force. -/
theorem Response.ending_admitting (settings : Log.Settings) (exitCode : Nat) (output : String)
    (records : List Log.Record) :
    (admitting settings exitCode output records).ending =
      ⟨exitCode, output, (⟨settings, []⟩ : Log.Journal).noteAll records⟩ := by
  rw [Log.Journal.noteAll_eq, List.nil_append]
  rfl

/-- What is written for a response is what is written for the entries of its session.
Every record of the response was admitted by its settings, so that writing it by these
settings is writing its text. -/
theorem Response.logText_admitting (settings : Log.Settings) (exitCode : Nat) (output : String)
    (records : List Log.Record) (now : Timestamp) (coloured : Bool) :
    let response := admitting settings exitCode output records
    response.logText now coloured =
      String.join (response.ending.journal.entries.map fun entry => entry.text now coloured) := by
  intro response
  rw [logText, ending, List.map_map]
  congr 1
  apply List.map_congr_left
  intro record member
  obtain ⟨_, admitted⟩ := List.mem_filter.mp member
  exact (settings.write_eq_text now coloured record).trans (if_pos (of_decide_eq_true admitted))

/-- A session ends with the response of its request.

The environment is read first. If it is bad, the session ends there with the settings that
were set up to then. Otherwise the flag for more records sets the level before the work
begins, the work gives its result and its records, and a fault adds its own record behind
them; each of these is what the response is defined to be. -/
theorem Request.session_eq (request : Request) (environment : Log.Environment) :
    request.session environment = (request.respond environment).ending := by
  rw [session, respond]
  rcases configured : Log.Settings.initial.configure environment with ⟨settings, _ | fault⟩
  · have begun : (if request.verbose then
          (Log.Journal.start.act (.configure environment)).act (.setLevel .debug)
        else Log.Journal.start.act (.configure environment)) = ⟨request.settings settings, []⟩ := by
      cases verbose : request.verbose <;>
        simp [Log.Journal.start, Log.Journal.act, Log.Settings.after, configured, Request.settings,
          verbose]
    simp only [begun, Command.run_work]
    cases request.command.execute.result with
    | ok text => rw [Response.ending_admitting]
    | error fault =>
      rw [Response.ending_admitting, Log.Journal.noteAll_append]
      rfl
  · have begun : Log.Journal.start.act (.configure environment) = ⟨settings, []⟩ := by
      simp [Log.Journal.start, Log.Journal.act, Log.Settings.after, configured]
    simp only [begun, Response.ending_admitting]
    rfl

end ContractScript.CommandLine
