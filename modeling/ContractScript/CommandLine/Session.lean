import ContractScript.Assembler
import ContractScript.CommandLine.Execution

/-!
# Sessions

A session is a command at work, with the journal of the log beside it. Records come in
when they arise, in the middle of the work, and are written or not by the settings of
that moment; a fault ends the work and leaves what was written.

A session begins with settings that nothing has changed. The environment is read first;
if it is refused, the session ends before any work, with what was read up to there in
force. Logging everything is switched on after that, and only then the work begins.

Responses are what sessions come to, seen from outside.
-/

namespace ContractScript.CommandLine

/-- Work with a journal beside it. A fault stops it and undoes nothing. -/
abbrev Session := ExceptT CommandError (StateM Log.Journal)

namespace Session

/-- Let work go on with a journal. -/
def run {α : Type} (work : Session α) (journal : Log.Journal) :
    Except CommandError α × Log.Journal :=
  (ExceptT.run work).run journal

/-- Let a record come in. -/
def note (record : Log.Record) : Session Unit :=
  modify fun journal => journal.note record

/-- Assemble a script by one operation on an empty one, with the journal as it stands. -/
def assemble (operation : Operation) : Session (List UInt8) := fun journal =>
  let (failure, after) := (⟨[], journal⟩ : Assembler).perform operation
  (match failure with
    | some cause => .error (.script cause)
    | none => .ok after.script, after.journal)

end Session

/-- Do the work of a command. -/
def Command.work : Command → Session String
  | invoke hash operation parameters mode withArguments listed => do
    let bytes ← hexBytes hash
    let values ← (parameters.mapM parameterOfText : Except CommandError _)
    let script ← Session.assemble
      (.invocation bytes operation (if withArguments then some values else none) mode)
    Session.note (assembledRecord operation parameters.length script)
    scriptText script listed
  | serviceCall name hashed listed => do
    let script ← Session.assemble (.serviceCall name hashed)
    scriptText script listed
  | disassemble script => do
    let bytes ← hexBytes script
    let lines ← (ContractScript.disassemble bytes).mapError CommandError.script
    return lines

/-- How a session ends: its exit code, what it prints, and the journal of its log. -/
structure Ending where
  exitCode : Nat
  output : String
  journal : Log.Journal

/-- The session of a request in an environment. -/
def Request.session (request : Request) (environment : Log.Environment) : Ending :=
  let configured := Log.Journal.start.act (.configure environment)
  match (Log.Settings.initial.configure environment).2 with
  | some fault => ⟨2, "", configured.note ⟨.error, fault.message⟩⟩
  | none =>
    let begun := if request.verbose then configured.act (.setLevel .debug) else configured
    match request.command.work.run begun with
    | (.ok text, journal) => ⟨0, Text.trimmedRight text ++ "\n", journal⟩
    | (.error fault, journal) => ⟨1, "", journal.note ⟨.error, fault.message⟩⟩

/-- The session of an argument list in an environment; none if the arguments are refused. The
version is printed before the environment is looked at. -/
def session? (arguments : List String) (environment : Log.Environment) : Option Ending :=
  match Demand.ofArguments? arguments with
  | none => none
  | some .version => some ⟨0, versionText ++ "\n", .start⟩
  | some (.request request) => some (request.session environment)

end ContractScript.CommandLine
