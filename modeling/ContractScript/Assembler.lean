import ContractScript.Builder
import ContractScript.Log.Journal

/-!
# Assembling in place

An assembler is a script that grows, and the journal of the log beside it. Work on it
goes on step by step: bytes are put behind those that stand, a fault stops the work at
its place, and what was written before the fault stays. How many bytes an invocation
has added is measured on the script itself, in front of the work and behind it, and the
record about it is written or not by the settings of that moment.

The emission of an operation is what this work comes to, seen from outside.
-/

namespace ContractScript

/-- A script that grows, and the journal beside it. -/
structure Assembler where
  script : List UInt8
  journal : Log.Journal

/-- Work on an assembler. A fault stops it and undoes nothing. -/
abbrev Assembling := ExceptT ScriptError (StateM Assembler)

/-- The record of an invocation that has added so many bytes. -/
def invocationRecord (contract : Hash160) (operation : String) (arguments added : Nat) :
    Log.Record :=
  ⟨.debug, "assembled invocation: contract=" ++ contract.text ++ " operation=" ++ operation ++
    " args=" ++ Decimal.natural arguments ++ " bytes=" ++ Decimal.natural added⟩

namespace Assembling

/-- Put bytes behind those that stand. -/
def append (bytes : List UInt8) : Assembling Unit :=
  modify fun assembler => { assembler with script := assembler.script ++ bytes }

/-- The number of bytes that stand. -/
def size : Assembling Nat := do
  return (← get).script.length

/-- Let a record come in. -/
def note (record : Log.Record) : Assembling Unit :=
  modify fun assembler => { assembler with journal := assembler.journal.note record }

/-- Write an opcode alone. -/
def opcode (code : Opcode) : Assembling Unit :=
  append [code.byte]

/-- Write an opcode and an operand behind it. -/
def instruction (code : Opcode) (operand : List UInt8) : Assembling Unit := do
  opcode code
  append operand

/-- Write a jump over a signed distance, if the opcode is one. -/
def jump (code : Opcode) (distance : Int16) : Assembling Unit :=
  if code.isJump then instruction code (LittleEndian.bytes 2 distance.toBitVec.toNat)
  else throw (.notAJump code)

/-- Write the call of a contract. -/
def contractCall (contract : Hash160) (mode : CallMode) : Assembling Unit :=
  instruction (.contractCall mode) contract.bytes

/-- Announce a payload of that length: by the length itself in place of an opcode, or by an
opcode and the narrowest length field. -/
def announce (length : Nat) : Assembling Unit :=
  if length < 76 then append [UInt8.ofNat length]
  else match LengthField.narrowest? length with
    | some field => instruction (.pushCounted field) (LittleEndian.bytes field.width length)
    | none => throw (.payloadTooLong length)

/-- Push a payload. -/
def pushData (data : List UInt8) : Assembling Unit := do
  announce data.length
  append data

/-- Push the UTF-8 bytes of a text. -/
def pushText (text : String) : Assembling Unit :=
  pushData (Text.utf8 text)

/-- The opcode that pushes the number one, as a byte. -/
def oneByte : UInt8 := 0x51

/-- The opcode that pushes the empty payload, as a byte. -/
def emptyByte : UInt8 := 0x00

/-- Push a truth value. -/
def pushBoolean (value : Bool) : Assembling Unit :=
  append [if value then oneByte else emptyByte]

/-- Push an integer. The opcodes of the numbers from one to sixteen follow one another. -/
def pushInteger (number : Int) : Assembling Unit :=
  if number = -1 then opcode .pushMinusOne
  else if number = 0 then append [emptyByte]
  else if 1 ≤ number ∧ number ≤ 16 then append [oneByte + UInt8.ofInt (number - 1)]
  else pushData (SignedBytes.encode number)

/-- Push the bytes of an identifier, if they are as many as its width. -/
def pushIdentifier (width : Nat) (data : List UInt8) : Assembling Unit := do
  let identifier ← Identifier.ofBytes width data
  pushData identifier.bytes

/-- Pack as many items from the stack as given into an array. -/
def pack (count : Nat) : Assembling Unit := do
  pushInteger count
  opcode (.plain .pack)

mutual

/-- Push one parameter. -/
def pushParameter : Parameter → Assembling Unit
  | .signature data | .byteArray data | .publicKey data => pushData data
  | .boolean value => pushBoolean value
  | .integer value => pushInteger value.toInt
  | .hash160 data => pushIdentifier 20 data
  | .hash256 data => pushIdentifier 32 data
  | .string text => pushText text
  | .array elements => do
    pushLastToFirst elements
    pack elements.length
  | .unset _ => throw .valueMissing

/-- Push a list of parameters, the last one first. -/
def pushLastToFirst : List Parameter → Assembling Unit
  | [] => return
  | first :: later => do
    pushLastToFirst later
    pushParameter first

end

/-- Write the arguments, the name and the call of an operation of a contract. -/
def enter (contract : Hash160) (operation : String) (arguments : List Parameter)
    (mode : CallMode) : Assembling Unit := do
  pushLastToFirst arguments
  pack arguments.length
  pushText operation
  contractCall contract mode

/-- Enter a contract, and let the record of it come in. The contract is checked before
anything is written. -/
def invocation (hash : List UInt8) (operation : String) (arguments : List Parameter)
    (mode : CallMode) : Assembling Unit := do
  let contract ← Identifier.ofBytes 20 hash
  let before ← size
  enter contract operation arguments mode
  let after ← size
  note (invocationRecord contract operation arguments.length (after - before))

/-- The bytes that stand for the name of a service in its call. -/
def serviceName (name : String) (hashed : Bool) : Except ScriptError (List UInt8) :=
  if name.isEmpty then .error .serviceNameEmpty
  else if hashed then .ok (serviceIdentifier name)
  else if longestServiceName < (Text.utf8 name).length then
    .error (.serviceNameTooLong (Text.utf8 name).length)
  else .ok (Text.utf8 name)

/-- Write the call of a service, behind a byte with the length of its name. -/
def serviceCall (name : String) (hashed : Bool) : Assembling Unit := do
  let bytes ← serviceName name hashed
  instruction .serviceCall (UInt8.ofNat bytes.length :: bytes)

end Assembling

/-- The work of an operation. -/
def Operation.work : Operation → Assembling Unit
  | opcode code => Assembling.opcode code
  | instruction whole => Assembling.instruction whole.opcode whole.operand
  | jump code distance => Assembling.jump code distance
  | contractCall contract mode => Assembling.contractCall contract mode
  | pushData data => Assembling.pushData data
  | pushText text => Assembling.pushText text
  | pushBoolean value => Assembling.pushBoolean value
  | pushInt64 number => Assembling.pushInteger number.toInt
  | pushInteger number => Assembling.pushInteger number
  | pushParameter parameter => Assembling.pushParameter parameter
  | invocation _ _ none _ => return
  | invocation hash name (some arguments) mode => Assembling.invocation hash name arguments mode
  | serviceCall name hashed => Assembling.serviceCall name hashed

namespace Assembler

/-- Nothing was written, neither to the script nor to the journal. -/
def fresh (settings : Log.Settings) : Assembler :=
  ⟨[], ⟨settings, []⟩⟩

/-- Let work go on: the fault that stopped it, if one did, and the assembler behind it. -/
def run (assembler : Assembler) (work : Assembling Unit) : Option ScriptError × Assembler :=
  match (ExceptT.run work).run assembler with
  | (.ok (), after) => (none, after)
  | (.error fault, after) => (some fault, after)

/-- Do one operation. -/
def perform (assembler : Assembler) (operation : Operation) : Option ScriptError × Assembler :=
  assembler.run operation.work

/-- Do operations in order; one that fails does not stop the others. -/
def performAll (assembler : Assembler) :
    List Operation → List (Option ScriptError) × Assembler
  | [] => ([], assembler)
  | operation :: later =>
    let (fault, after) := assembler.perform operation
    let (faults, last) := after.performAll later
    (fault :: faults, last)

end Assembler

end ContractScript
