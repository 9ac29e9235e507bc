import ContractScript.CommandLine.Arguments
import ContractScript.Opcode

/-!
# Commands and requests

There are three commands: assemble the invocation of a contract, assemble the call
of a service, and list a script. A request is a command and whether to log
everything. The verbose flag may stand in front of the name of the command or
behind it, once on either side; a request for the version is answered as soon as
it is read, and only in front of a command. Every other argument list asks for
nothing that can be answered.
-/

namespace ContractScript.CommandLine

/-- A command with the texts it was given. -/
inductive Command
  /-- Assemble the invocation of `operation`; without arguments nothing is written. -/
  | invoke (hash operation : String) (parameters : List String) (mode : CallMode)
      (withArguments listed : Bool)
  | serviceCall (name : String) (hashed listed : Bool)
  | disassemble (script : String)
  deriving DecidableEq

/-- A command and whether everything is logged. -/
structure Request where
  verbose : Bool
  command : Command
  deriving DecidableEq

/-- What an argument list asks for. -/
inductive Demand
  | version
  | request (request : Request)
  deriving DecidableEq

/-- The names of the commands. -/
inductive CommandName
  | invoke | serviceCall | disassemble

namespace CommandName

/-- The command that an argument names. -/
def ofText? : String → Option CommandName
  | "invoke" => some invoke
  | "syscall" => some serviceCall
  | "disasm" => some disassemble
  | _ => none

/-- What the arguments of a command may be. -/
def form : CommandName → Form
  | invoke => ⟨[.verbose, .help, .tailCall, .withoutArguments, .listed], 2, true⟩
  | serviceCall => ⟨[.verbose, .help, .hashed, .listed], 1, false⟩
  | disassemble => ⟨[.verbose, .help], 1, false⟩

/-- The command that flags and values make, if there are as many values as needed. An
invocation without arguments has no parameters. -/
def command? : CommandName → Arguments → Option Command
  | invoke, ⟨flags, hash :: operation :: parameters⟩ =>
    if .withoutArguments ∈ flags ∧ parameters ≠ [] then none
    else some (.invoke hash operation parameters
      (if .tailCall ∈ flags then .tailCall else .call)
      (!decide (.withoutArguments ∈ flags)) (decide (.listed ∈ flags)))
  | serviceCall, ⟨flags, [name]⟩ =>
    some (.serviceCall name (decide (.hashed ∈ flags)) (decide (.listed ∈ flags)))
  | disassemble, ⟨_, [script]⟩ => some (.disassemble script)
  | _, _ => none

end CommandName

/-- What may stand in front of the name of a command. -/
def leadingForm : Form :=
  ⟨[.verbose, .help, .version], 0, false⟩

/-- The outcome of the flags of one argument in front of a command. -/
inductive Leading
  | proceed (verbose : Bool)
  | version
  | refused

/-- Read the flags of one argument in front of a command, in their order. -/
def leading (verbose : Bool) : List Flag → Leading
  | [] => .proceed verbose
  | .version :: _ => .version
  | .verbose :: others => if verbose then .refused else leading true others
  | _ :: _ => .refused

namespace Demand

/-- The demand of an argument list behind leading flags. -/
def readFrom (verbose : Bool) : List String → Option Demand
  | [] => none
  | argument :: rest =>
    match leadingForm.token 0 argument with
    | .flags given =>
      match leading verbose given with
      | .proceed verbose => readFrom verbose rest
      | .version => some .version
      | .refused => none
    | .value => do
      let name ← CommandName.ofText? argument
      let arguments ← name.form.read rest
      let command ← name.command? arguments
      return .request ⟨verbose || decide (.verbose ∈ arguments.flags), command⟩
    | .refused behind =>
      match leading verbose behind with
      | .version => some .version
      | .proceed _ | .refused => none
    | .valuesOnly => none

/-- The demand of an argument list, if it asks for something that can be answered. -/
def ofArguments? (arguments : List String) : Option Demand :=
  readFrom false arguments

end Demand

end ContractScript.CommandLine
