import ContractScript.Parameter
import ContractScript.ScriptError

/-!
# Faults of a command

A command fails over one of its texts, which the message quotes as it was given,
or over the script it works on.
-/

namespace ContractScript.CommandLine

/-- The reason why a command failed. -/
inductive CommandError
  /-- A parameter has no colon between its kind and its value. -/
  | malformedParameter (argument : String)
  | unknownKind (unknown : Parameter.UnknownKind)
  /-- Parameters of this kind have no text. -/
  | unsupportedKind (kind : Parameter.Kind)
  | invalidValue (kind : Parameter.Kind) (value : String)
  | invalidHex (value : String)
  | script (cause : ScriptError)
  deriving DecidableEq

/-- The text shown for a fault of a command. -/
def CommandError.message : CommandError → String
  | malformedParameter argument => "parameter '" ++ argument ++ "' must be written as type:value"
  | unknownKind unknown => unknown.message
  | unsupportedKind kind =>
    "parameter type " ++ kind.name ++ " cannot be given on the command line"
  | invalidValue kind value => "invalid " ++ kind.name ++ " value '" ++ value ++ "'"
  | invalidHex value => "invalid hex '" ++ value ++ "'"
  | script cause => cause.message

/-- The bytes of a text in hexadecimal, which may begin with `0x`. -/
def hexBytes (value : String) : Except CommandError (List UInt8) :=
  match Hex.ofText? value with
  | some bytes => .ok bytes
  | none => .error (.invalidHex value)

end ContractScript.CommandLine
