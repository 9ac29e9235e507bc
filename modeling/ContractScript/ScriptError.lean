import ContractScript.Hex
import ContractScript.Opcode

/-!
# Faults of assembling and reading a script

One constructor for each cause, with what the message reports about it. Lengths
are counted in bytes. `shift` moves the place that a reading fault names when the
script is read as the tail of a longer one; the other faults name no place.
-/

namespace ContractScript

/-- The reason why an operation or a reading stopped. -/
inductive ScriptError
  /-- A parameter was declared but never given a value. -/
  | valueMissing
  | notAJump (opcode : Opcode)
  | identifierLength (expected actual : Nat)
  | serviceNameTooLong (length : Nat)
  | serviceNameEmpty
  | payloadTooLong (length : Nat)
  | unknownOpcode (byte : UInt8) (offset : Nat)
  /-- The instruction that starts at `offset` is cut off by the end of the script. -/
  | unexpectedEnd (offset : Nat)
  deriving DecidableEq

namespace ScriptError

/-- The text shown for a fault. -/
def message : ScriptError → String
  | valueMissing => "operand data is empty"
  | notAJump opcode => "invalid jump opcode " ++ opcode.mnemonic
  | identifierLength expected actual =>
    "invalid identifier length: expected " ++ Decimal.natural expected ++ " bytes, got " ++
      Decimal.natural actual
  | serviceNameTooLong length => "syscall name is too long: " ++ Decimal.natural length ++ " bytes"
  | serviceNameEmpty => "syscall name is empty"
  | payloadTooLong length =>
    "operand of " ++ Decimal.natural length ++ " bytes exceeds the PUSHDATA4 limit"
  | unknownOpcode byte offset =>
    "unknown opcode 0x" ++ Hex.encode [byte] ++ " at offset " ++ Decimal.natural offset
  | unexpectedEnd offset => "unexpected end of script at offset " ++ Decimal.natural offset

/-- The place in the script that a reading fault names. -/
def offset? : ScriptError → Option Nat
  | unknownOpcode _ offset | unexpectedEnd offset => some offset
  | _ => none

/-- The same fault when the script starts `distance` bytes later. -/
def shift (distance : Nat) : ScriptError → ScriptError
  | unknownOpcode byte offset => unknownOpcode byte (distance + offset)
  | unexpectedEnd offset => unexpectedEnd (distance + offset)
  | other => other

end ScriptError

end ContractScript
