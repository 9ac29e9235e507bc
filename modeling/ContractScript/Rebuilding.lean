import ContractScript.Builder
import ContractScript.Cursor

/-!
# Rebuilding a decoded script

Every instruction of a script can be added again by the operation that its meaning
suggests: jumps by their distance, calls of contracts by the identifier, pushes of
data by the payload alone, and all others as they stand. A push may come back
shorter, because the payload is written with the narrowest length. `rebuild` does so
with all instructions of a script, and stops where one of the operations fails.
-/

namespace ContractScript

/-- The operation that adds the meaning of an instruction again. -/
def Instruction.operation (instruction : Instruction) : Except ScriptError Operation :=
  match instruction.opcode, instruction.jumpDistance? with
  | .contractCall mode, _ =>
    (Identifier.ofBytes 20 instruction.operand).map fun contract => .contractCall contract mode
  | opcode, some distance => .ok (.jump opcode distance)
  | _, none =>
    match instruction.pushData? with
    | some data => .ok (.pushData data)
    | none => .ok (.instruction instruction)

/-- The operations that add a list of instructions again. -/
def operationsOf (instructions : List Instruction) : Except ScriptError (List Operation) :=
  instructions.mapM Instruction.operation

/-- A push is written with the narrowest length that holds its payload. -/
def Instruction.Narrowest (instruction : Instruction) : Prop :=
  ∀ data, instruction.pushData? = some data → Instruction.pushing? data = some instruction

/-- The shortest payload that needs a length field of this width. -/
def LengthField.least : LengthField → Nat
  | one => 76
  | two => one.limit
  | four => two.limit

/-- A push uses a wider length than its payload needs. -/
def Instruction.Widened (instruction : Instruction) : Prop :=
  ∃ field data, instruction.opcode = .pushCounted field ∧
    instruction.pushData? = some data ∧ data.length < field.least

/-- Two instructions push the same payload and jump over the same distance, and they are
the same where they push no payload. -/
def Instruction.SameMeaning (first second : Instruction) : Prop :=
  first.pushData? = second.pushData? ∧ first.jumpDistance? = second.jumpDistance? ∧
    (first.pushData? = none → first = second)

/-- Do operations in order, up to the first one that fails. -/
def Builder.performToEnd (builder : Builder) : List Operation → Except ScriptError Builder
  | [] => .ok builder
  | operation :: later =>
    let step := builder.perform operation
    match step.failure with
    | some fault => .error fault
    | none => step.builder.performToEnd later

/-- The script of the operations that add the meaning of a script again. -/
def rebuild (script : List UInt8) : Except ScriptError (List UInt8) :=
  (decode script).bind fun items =>
    (operationsOf (items.map Located.toInstruction)).bind fun operations =>
      (Builder.empty.performToEnd operations).map Builder.contents

end ContractScript
