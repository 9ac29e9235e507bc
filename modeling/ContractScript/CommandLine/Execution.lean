import ContractScript.Builder
import ContractScript.CommandLine.ParameterText
import ContractScript.CommandLine.Request
import ContractScript.Listing
import ContractScript.Log.Settings

/-!
# Executing commands

Executing a command yields the text to be printed or a fault, and all log records
that arise on the way, whatever their level. An assembled script is printed in
hexadecimal, with its listing behind it if that is asked for. The texts of an
invocation are read before anything is assembled: first the hash, then the
parameters in their order.

A response adds the log settings, which decide only which records are written: an
environment that is refused, a fault of the command and success end with different
exit codes. Printed text ends with a single line feed.
-/

namespace ContractScript.CommandLine

/-- The records of a command, and its text or its fault. -/
structure Execution where
  records : List Log.Record
  result : Except CommandError String

/-- The text of a script, with its listing behind it if that is asked for. -/
def scriptText (script : List UInt8) (listed : Bool) : Except CommandError String :=
  if listed then
    ((disassemble script).mapError .script).map fun lines => Hex.encode script ++ "\n" ++ lines
  else .ok (Hex.encode script)

/-- Do one operation on an empty script and print it, with a record for its success. -/
def assembled (operation : Operation) (listed : Bool)
    (success : List UInt8 → List Log.Record) : Execution :=
  let step := Builder.empty.perform operation
  match step.failure with
  | some cause => ⟨step.records, .error (.script cause)⟩
  | none => ⟨step.records ++ success step.builder.contents,
      scriptText step.builder.contents listed⟩

/-- The record of an assembled invocation. -/
def assembledRecord (operation : String) (parameters : Nat) (script : List UInt8) : Log.Record :=
  ⟨.info, "assembled '" ++ operation ++ "' with " ++ Decimal.natural parameters ++
    " argument(s) into " ++ Decimal.natural script.length ++ " bytes"⟩

/-- The hash and the parameters that the texts of an invocation stand for. -/
def invocationValues (hash : String) (parameters : List String) :
    Except CommandError (List UInt8 × List Parameter) := do
  let bytes ← hexBytes hash
  let values ← parameters.mapM parameterOfText
  return (bytes, values)

/-- Execute a command. -/
def Command.execute : Command → Execution
  | invoke hash operation parameters mode withArguments listed =>
    match invocationValues hash parameters with
    | .error fault => ⟨[], .error fault⟩
    | .ok (bytes, values) =>
      assembled (.invocation bytes operation (if withArguments then some values else none) mode)
        listed fun script => [assembledRecord operation parameters.length script]
  | serviceCall name hashed listed => assembled (.serviceCall name hashed) listed fun _ => []
  | disassemble script =>
    ⟨[], (hexBytes script).bind fun bytes => (ContractScript.disassemble bytes).mapError .script⟩

/-- How the program ends: its exit code, what it prints, and the records it writes. -/
structure Response where
  exitCode : Nat
  output : String
  /-- The records that the settings admit, in their order. -/
  records : List Log.Record
  /-- The settings in force when the records are written. -/
  settings : Log.Settings

namespace Response

/-- A response that writes those of some records that the settings admit. -/
def admitting (settings : Log.Settings) (exitCode : Nat) (output : String)
    (records : List Log.Record) : Response :=
  ⟨exitCode, output, records.filter fun record => settings.admits record.level, settings⟩

/-- The lines written to the log if all records are written at one point of time. -/
def logText (response : Response) (now : Timestamp) (coloured : Bool) : String :=
  String.join (response.records.map (response.settings.write now coloured))

end Response

/-- The settings of a request: logging everything outweighs the environment. -/
def Request.settings (request : Request) (configured : Log.Settings) : Log.Settings :=
  if request.verbose then { configured with level := .debug } else configured

/-- Answer a request in an environment. -/
def Request.respond (request : Request) (environment : Log.Environment) : Response :=
  match Log.Settings.initial.configure environment with
  | (settings, some fault) => .admitting settings 2 "" [⟨.error, fault.message⟩]
  | (configured, none) =>
    let settings := request.settings configured
    let execution := request.command.execute
    match execution.result with
    | .ok text => .admitting settings 0 (Text.trimmedRight text ++ "\n") execution.records
    | .error fault =>
      .admitting settings 1 "" (execution.records ++ [⟨.error, fault.message⟩])

/-- The name and the version of the program. -/
def versionText : String := "neo-script 0.1.0"

/-- Answer an argument list in an environment; nothing if the arguments are refused. -/
def respond? (arguments : List String) (environment : Log.Environment) : Option Response :=
  match Demand.ofArguments? arguments with
  | none => none
  | some .version => some (.admitting .initial 0 (versionText ++ "\n") [])
  | some (.request request) => some (request.respond environment)

end ContractScript.CommandLine
