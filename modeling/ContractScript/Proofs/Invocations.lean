import ContractScript.Proofs.Parameters

/-!
# What an invocation writes

An invocation with arguments is one row: the packed arguments, the push of the
operation's name and the call. It is written to its end exactly when the contract has
the width of an identifier, the arguments can be packed and the name can be pushed.

Everything before the call only pushes and packs. Payloads are operands of those
instructions, so no byte of an argument or of a name is ever read as an opcode that
hands control over, whatever the bytes are.
-/

namespace ContractScript

/-- Opcodes that leave the row of instructions: jumps, and calls of contracts and
services. -/
def Opcode.transfersControl : Opcode → Bool
  | jump _ | contractCall _ | serviceCall => true
  | _ => false

/-- The instruction that enters a contract. -/
def Instruction.calling (mode : CallMode) (contract : List UInt8) : Instruction :=
  ⟨.contractCall mode, contract⟩

/-- Pushing and packing hand no control over: of the opcodes that do, none is a push or
the packing. -/
theorem Instruction.Builds.stays {instruction : Instruction} (builds : instruction.Builds) :
    instruction.opcode.transfersControl = false := by
  obtain ⟨opcode, operand⟩ := instruction
  rcases builds.2 with pushes | packs
  · cases opcode with
    | jump kind | contractCall mode | serviceCall => cases pushes
    | _ => rfl
  · have plain : opcode = .plain .pack := packs
    subst plain
    rfl

/-- Entering a contract is well formed for identifiers only. -/
theorem Instruction.wellFormed_calling {contract : List UInt8} (mode : CallMode)
    (exactly : contract.length = 20) : (calling mode contract).WellFormed :=
  exactly

namespace Emission

/-- An invocation of a contract of the right width packs, pushes and calls. -/
theorem invocation_exact {contract : List UInt8} (exactly : contract.length = 20)
    (operation : String) (arguments : List Parameter) (mode : CallMode) :
    invocation contract operation (some arguments) mode =
      ((packed arguments).andThen (pushText operation)).andThen
        (row [.calling mode contract]) := by
  have call : contractCall ⟨contract, exactly⟩ mode = row [.calling mode contract] :=
    instruction_eq_row _
  simp [invocation, Identifier.ofBytes, exactly, call]

/-- An invocation of a contract of another width is stopped before anything is added. -/
theorem invocation_inexact {contract : List UInt8} (other : contract.length ≠ 20)
    (operation : String) (arguments : List Parameter) (mode : CallMode) :
    invocation contract operation (some arguments) mode =
      failed (.identifierLength 20 contract.length) := by
  simp [invocation, Identifier.ofBytes, other]

/-- An invocation with arguments succeeds exactly for a contract of the right width,
arguments that can be packed and a name that can be pushed.

For a contract of the right width the work is joined of these parts and the call, which
cannot fail, so each part has to succeed by itself. A contract of another width is refused
at once. -/
theorem invocation_succeeds_iff (contract : List UInt8) (operation : String)
    (arguments : List Parameter) (mode : CallMode) :
    (invocation contract operation (some arguments) mode).failure = none ↔
      contract.length = 20 ∧ Parameter.Encodable (.array arguments) ∧
        (Text.utf8 operation).length < Parameter.payloadLimit := by
  by_cases exactly : contract.length = 20
  · have call : (row [.calling mode contract]).failure = none := rfl
    rw [invocation_exact exactly, failure_andThen_eq_none_iff, failure_andThen_eq_none_iff,
      pushText, (pushData_pushes _).succeeds_iff, ← pushParameter_array]
    constructor
    · rintro ⟨⟨pushed, named⟩, _⟩
      exact ⟨exactly, Parameter.encodable_of_succeeds _ pushed, named⟩
    · rintro ⟨_, encodable, named⟩
      obtain ⟨_, _, _, _, pushed⟩ := Parameter.exists_row _ encodable
      exact ⟨⟨by rw [pushed]; rfl, named⟩, call⟩
  · simp [invocation_inexact exactly, failed, exactly]

/-- The parts of a successful invocation: the row of the argument array, the push of the
name, and the call. Success gives back the conditions of all parts, and under them each
part is a row. -/
theorem invocation_row {contract : List UInt8} {operation : String}
    {arguments : List Parameter} {mode : CallMode}
    (succeeded : (invocation contract operation (some arguments) mode).failure = none) :
    contract.length = 20 ∧
    ∃ items pushed name,
      Parameter.items? arguments = some items ∧
      (Item.array items).pushes? = some pushed ∧
      (Item.bytes (Text.utf8 operation)).push? = some name ∧
      invocation contract operation (some arguments) mode =
        row (pushed ++ [name] ++ [.calling mode contract]) := by
  obtain ⟨exactly, encodable, short⟩ :=
    (invocation_succeeds_iff contract operation arguments mode).mp succeeded
  obtain ⟨item, pushed, meant, written, emitted⟩ := Parameter.exists_row _ encodable
  obtain ⟨items, elements, rfl⟩ := Option.map_eq_some_iff.mp meant
  obtain ⟨name, chosen, named⟩ := (pushData_pushes _).exists_push short
  refine ⟨exactly, items, pushed, name, elements, written, chosen, ?_⟩
  rw [invocation_exact exactly, ← pushParameter_array, emitted, pushText, named,
    row_andThen_row, row_andThen_row]

end Emission

/-- The instructions before the call build the argument array and the name on top of it.
They were replayed on an empty stack, so nothing else is there. -/
theorem Item.replay?_array_name {items : List Item} {pushed : List Instruction}
    {data : List UInt8} {name : Instruction} (written : (array items).pushes? = some pushed)
    (chosen : (bytes data).push? = some name) :
    replay? (pushed ++ [name]) [] = some [.bytes data, .array items] := by
  rw [replay?_append, replay?_pushes? (.array items) written, Option.bind_some]
  simp [act?_push chosen]

/-- Before the call of an invocation every instruction pushes or packs. -/
theorem Item.builds_array_name {items : List Item} {pushed : List Instruction}
    {data : List UInt8} {name : Instruction} (written : (array items).pushes? = some pushed)
    (chosen : (bytes data).push? = some name) :
    ∀ instruction ∈ pushed ++ [name], instruction.Builds := by
  obtain ⟨wellFormed, pushes, _⟩ := push?_spec chosen
  refine List.forall_mem_append.mpr ⟨builds_pushes? (.array items) written, ?_⟩
  simpa using ⟨wellFormed, .inl pushes⟩

/-- All instructions of an invocation are well formed, the call included. -/
theorem Item.wellFormed_invocation {items : List Item} {pushed : List Instruction}
    {data : List UInt8} {name : Instruction} {contract : List UInt8}
    (written : (array items).pushes? = some pushed) (chosen : (bytes data).push? = some name)
    (mode : CallMode) (exactly : contract.length = 20) :
    ∀ instruction ∈ pushed ++ [name] ++ [.calling mode contract], instruction.WellFormed := by
  have builds := builds_array_name written chosen
  refine List.forall_mem_append.mpr ⟨fun instruction member => (builds instruction member).1, ?_⟩
  simpa using Instruction.wellFormed_calling mode exactly

/-- Invoking an operation of a contract with encodable arguments, as many as an array can
hold, succeeds in every state of a builder. What it adds can be read to its end. The last
instruction enters the contract in the wanted mode and takes the last 21 bytes, and no
other instruction hands control over. Replaying those before it on an empty stack leaves
exactly the array of the arguments' items and, above it, the name of the operation.

The bytes that are added are a row, and rows of well-formed instructions are read back as
they were written. So everything else is said of the row: its last instruction is the
call, and the others only push and pack. -/
theorem invocation_decodes (builder : Builder) (contract : List UInt8) (operation : String)
    (arguments : List Parameter) (mode : CallMode) (exactly : contract.length = 20)
    (short : (Text.utf8 operation).length < Parameter.payloadLimit)
    (encodable : Parameter.EncodableAll arguments)
    (packable : Parameter.Packable arguments.length) :
    (builder.perform (.invocation contract operation (some arguments) mode)).failure = none ∧
    ∃ script items before call,
      (builder.perform (.invocation contract operation (some arguments) mode)).builder.contents =
        builder.contents ++ script ∧
      Parameter.items? arguments = some items ∧
      decode script = .ok (before ++ [call]) ∧
      call.opcode = .contractCall mode ∧
      call.operand = contract ∧
      call.size = 21 ∧
      call.offset + call.size = script.length ∧
      (∀ instruction ∈ before, instruction.opcode.transfersControl = false) ∧
      replay? (before.map Located.toInstruction) [] =
        some [.bytes (Text.utf8 operation), .array items] := by
  have succeeded :
      (Emission.invocation contract operation (some arguments) mode).failure = none :=
    (Emission.invocation_succeeds_iff _ _ _ _).mpr ⟨exactly, ⟨packable, encodable⟩, short⟩
  refine ⟨succeeded, ?_⟩
  obtain ⟨_, items, pushed, name, meant, written, chosen, emitted⟩ :=
    Emission.invocation_row succeeded
  have builds := Item.builds_array_name written chosen
  have wellFormed := Item.wellFormed_invocation written chosen mode exactly
  have size : (Instruction.calling mode contract).size = 21 := by
    rw [Instruction.size, Instruction.calling, exactly]
  refine ⟨assemble (pushed ++ [name] ++ [.calling mode contract]), items,
    locate 0 (pushed ++ [name]),
    ⟨.calling mode contract, (assemble (pushed ++ [name])).length⟩, ?_, meant, ?_, rfl, rfl,
    size, ?_, ?_, ?_⟩
  · exact congrArg (fun emission => builder.contents ++ emission.bytes) emitted
  · rw [decode_assemble wellFormed, locate_append, Nat.zero_add]
    rfl
  · simp [Nat.add_assoc]
  · intro instruction member
    have member : instruction.toInstruction ∈
        (locate 0 (pushed ++ [name])).map Located.toInstruction :=
      List.mem_map_of_mem member
    rw [map_locate] at member
    exact (builds _ member).stays
  · rw [map_locate]
    exact Item.replay?_array_name written chosen

/-- A name, an argument and a contract whose bytes are those of call opcodes. They are
payload and operand there, and the only call is the last instruction. -/
theorem invocation_with_call_bytes :
    ∃ script before call,
      ((⟨[0x61]⟩ : Builder).perform (.invocation (List.replicate 20 0x67) "g"
        (some [.byteArray [0x67, 0x68]]) .tailCall)).builder.contents = [0x61] ++ script ∧
      decode script = .ok (before ++ [call]) ∧
      call.opcode = .contractCall .tailCall ∧
      (∀ instruction ∈ before, instruction.opcode.transfersControl = false) ∧
      replay? (before.map Located.toInstruction) [] =
        some [.bytes [0x67], .array [.bytes [0x67, 0x68]]] := by
  obtain ⟨_, script, items, before, call, contents, meant, decoded, opcode, _, _, _, stays,
    replayed⟩ := invocation_decodes ⟨[0x61]⟩ (List.replicate 20 0x67) "g"
      [.byteArray [0x67, 0x68]] .tailCall (by decide) (by decide +kernel) (by decide +kernel)
      (Parameter.packable_of_lt (by decide))
  cases meant
  exact ⟨script, before, call, contents, decoded, opcode, stays, replayed⟩

end ContractScript
