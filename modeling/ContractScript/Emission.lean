import ContractScript.Identifier
import ContractScript.Instruction
import ContractScript.SignedBytes
import ContractScript.Text

/-!
# Bytes emitted up to a first failure

An emission is what one piece of work adds to a script: the bytes written, and the
fault that stopped it, if one did. Joining two emissions runs the second only if
the first was not stopped, and bytes written before a fault stay. Emissions know
nothing of the script they are added to, so they are the same wherever they are
added; joining them is associative, with the empty emission on either side.

The pushes of single values are here: payloads in the shortest form, truth values
and integers. Minus one and the numbers from zero to sixteen have opcodes of their
own; any other integer is pushed as its shortest signed bytes.
-/

namespace ContractScript

/-- Bytes to be added to a script, and the fault behind which nothing was added. -/
structure Emission where
  bytes : List UInt8
  failure : Option ScriptError
  deriving DecidableEq

namespace Emission

/-- Add nothing. -/
def nothing : Emission :=
  ⟨[], none⟩

/-- Stop before anything is added. -/
def failed (failure : ScriptError) : Emission :=
  ⟨[], some failure⟩

/-- Add one instruction. -/
def instruction (instruction : Instruction) : Emission :=
  ⟨instruction.encode, none⟩

/-- Add a single opcode. -/
def opcode (opcode : Opcode) : Emission :=
  instruction ⟨opcode, []⟩

/-- Add one piece and then another, unless the first was stopped. -/
def andThen (first second : Emission) : Emission :=
  match first.failure with
  | some _ => first
  | none => ⟨first.bytes ++ second.bytes, second.failure⟩

/-- Push a payload in its shortest form. -/
def pushData (data : List UInt8) : Emission :=
  match Instruction.pushing? data with
  | some push => instruction push
  | none => failed (.payloadTooLong data.length)

/-- Push the UTF-8 bytes of a text. -/
def pushText (text : String) : Emission :=
  pushData (Text.utf8 text)

/-- Push a truth value: the number one, or the empty payload. -/
def pushBoolean (value : Bool) : Emission :=
  opcode (if value then .pushNumber 0 else .pushBytes 0)

/-- Push an integer of any size. -/
def pushInteger (number : Int) : Emission :=
  if number = -1 then opcode .pushMinusOne
  else if number = 0 then opcode (.pushBytes 0)
  else if small : 1 ≤ number ∧ number ≤ 16 then
    opcode (.pushNumber ⟨(number - 1).toNat, by omega⟩)
  else pushData (SignedBytes.encode number)

/-- Push the bytes of an identifier, which have to be as many as its width. -/
def pushIdentifier (width : Nat) (data : List UInt8) : Emission :=
  match Identifier.ofBytes width data with
  | .ok identifier => pushData identifier.bytes
  | .error failure => failed failure

/-- Jump over a signed distance; the opcode has to be a jump. -/
def jump (opcode : Opcode) (distance : Int16) : Emission :=
  match opcode with
  | .jump kind => instruction (.jumping kind distance)
  | other => failed (.notAJump other)

/-- Enter another contract. -/
def contractCall (contract : Hash160) (mode : CallMode) : Emission :=
  instruction ⟨.contractCall mode, contract.bytes⟩

/-- Adding nothing first changes nothing. -/
@[simp] theorem nothing_andThen (emission : Emission) : nothing.andThen emission = emission := by
  simp [nothing, andThen]

/-- Adding nothing afterwards changes nothing. -/
@[simp] theorem andThen_nothing (emission : Emission) : emission.andThen nothing = emission := by
  obtain ⟨bytes, failure⟩ := emission
  cases failure <;> simp [nothing, andThen]

/-- Work in three pieces can be joined from either end. -/
theorem andThen_assoc (first second third : Emission) :
    (first.andThen second).andThen third = first.andThen (second.andThen third) := by
  obtain ⟨firstBytes, firstFailure⟩ := first
  obtain ⟨secondBytes, secondFailure⟩ := second
  cases firstFailure with
  | some _ => simp [andThen]
  | none => cases secondFailure <;> simp [andThen]

end Emission

end ContractScript
