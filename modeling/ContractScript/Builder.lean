import ContractScript.Invocation
import ContractScript.Log.Record

/-!
# Building a script

A builder holds the script written so far. Every operation adds its emission at
the end and changes nothing that is there; an operation that fails leaves what it
had added. A successful invocation with arguments also leaves a log record, which
reports how many bytes it added.
-/

namespace ContractScript

/-- One addition to a script. -/
inductive Operation
  /-- An opcode alone, whatever operand it announces. -/
  | opcode (opcode : Opcode)
  /-- An opcode and an operand, which is not checked. -/
  | instruction (instruction : Instruction)
  | jump (opcode : Opcode) (distance : Int16)
  | contractCall (contract : Hash160) (mode : CallMode)
  | pushData (data : List UInt8)
  | pushText (text : String)
  | pushBoolean (value : Bool)
  | pushInt64 (number : Int64)
  | pushInteger (number : Int)
  | pushParameter (parameter : Parameter)
  | invocation (hash : List UInt8) (operation : String) (arguments : Option (List Parameter))
      (mode : CallMode)
  | serviceCall (name : String) (hashed : Bool)

namespace Operation

/-- What an operation adds to a script. -/
def emission : Operation → Emission
  | opcode code => .opcode code
  | instruction whole => .instruction whole
  | jump code distance => .jump code distance
  | contractCall contract mode => .contractCall contract mode
  | pushData data => .pushData data
  | pushText text => .pushText text
  | pushBoolean value => .pushBoolean value
  | pushInt64 number => .pushInteger number.toInt
  | pushInteger number => .pushInteger number
  | pushParameter parameter => .pushParameter parameter
  | invocation hash name arguments mode => .invocation hash name arguments mode
  | serviceCall name hashed => .serviceCall name hashed

/-- An operation that adds whole instructions only: opcodes alone announce no operand,
and operands fit their opcodes. -/
def Aligned : Operation → Prop
  | opcode code => code.layout = .bare
  | instruction whole => whole.WellFormed
  | _ => True

/-- The record that a successful operation leaves after adding some bytes. -/
def record? (added : Nat) : Operation → Option Log.Record
  | invocation hash name (some arguments) _ =>
    some ⟨.debug, "assembled invocation: contract=" ++ Hex.encode hash ++ " operation=" ++ name ++
      " args=" ++ Decimal.natural arguments.length ++ " bytes=" ++ Decimal.natural added⟩
  | _ => none

end Operation

/-- The script written so far. -/
structure Builder where
  contents : List UInt8
  deriving DecidableEq

/-- The outcome of one operation. -/
structure Step where
  builder : Builder
  failure : Option ScriptError
  records : List Log.Record

namespace Builder

/-- The builder of an empty script. -/
def empty : Builder :=
  ⟨[]⟩

/-- The number of bytes written so far. -/
def size (builder : Builder) : Nat :=
  builder.contents.length

/-- Nothing was written so far. -/
def isEmpty (builder : Builder) : Bool :=
  builder.contents.isEmpty

/-- Do one operation. -/
def perform (builder : Builder) (operation : Operation) : Step :=
  let emission := operation.emission
  let after : Builder := ⟨builder.contents ++ emission.bytes⟩
  { builder := after
    failure := emission.failure
    records := match emission.failure with
      | some _ => []
      | none => (operation.record? (after.size - builder.size)).toList }

/-- Do operations in order; one that fails does not stop the others. -/
def performAll (builder : Builder) (operations : List Operation) : Builder :=
  operations.foldl (fun current operation => (current.perform operation).builder) builder

end Builder

end ContractScript
