import ContractScript.CommandLine.Execution
import Std.Time.DateTime.Timestamp

/-!
# The program

Reads the arguments, the two log variables and the clock, and writes the answer.
Records go to standard error, each with the point of time at which it is written,
and the printed text to standard output. Records are coloured unless the terminal
is unknown or dumb or colours are switched off by `NO_COLOR`.
-/

namespace ContractScript.CommandLine

/-- The text shown for arguments that are refused. -/
def usage : String :=
  "usage: neo-script [-v] invoke SCRIPT_HASH OPERATION [PARAM...] " ++
    "[--tail-call] [--no-args] [--disasm]\n" ++
  "       neo-script [-v] syscall API [--compress] [--disasm]\n" ++
  "       neo-script [-v] disasm SCRIPT\n" ++
  "       neo-script -V\n"

/-- The point of time that the clock shows. -/
def clock : IO Timestamp := do
  let now ← Std.Time.Timestamp.now
  let milliseconds := now.toMillisecondsSinceUnixEpoch.val
  return .ofClock (milliseconds / 1000) (milliseconds % 1000 * 1000000).toNat

/-- Whether log lines are coloured. -/
def wantsColour : IO Bool := do
  let refused ← IO.getEnv "NO_COLOR"
  match ← IO.getEnv "TERM" with
  | none | some "dumb" => return false
  | some _ => return refused.isNone

end ContractScript.CommandLine

open ContractScript.CommandLine in
/-- Answer the arguments of the program. -/
def main (arguments : List String) : IO UInt32 := do
  let environment : ContractScript.Log.Environment :=
    ⟨← IO.getEnv ContractScript.Log.levelVariable, ← IO.getEnv ContractScript.Log.timestampVariable⟩
  match respond? arguments environment with
  | none =>
    IO.eprint usage
    return 2
  | some response =>
    let coloured ← wantsColour
    for record in response.records do
      IO.eprint (response.settings.write (← clock) coloured record)
    IO.print response.output
    return UInt32.ofNat response.exitCode
