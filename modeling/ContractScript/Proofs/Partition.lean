import ContractScript.Proofs.Appending
import Mathlib.Algebra.GroupWithZero.Nat
import Mathlib.Logic.ExistsUnique

/-!
# Every script is a row and a remainder

Any byte string is a row of well-formed instructions in front of a remainder, from
which no further instruction can be split off: nothing at all, or bytes at whose head
reading meets a fault. The two parts determine what reading yields. The instructions
are those of the row, and the fault, if there is one, is the remainder's own, found
where the row ends.

Writing the instructions that were read therefore gives the script up to the place of
the fault. A script can be read to its end exactly when it is a row, and then it is
one row only.
-/

namespace ContractScript

/-- An operand is what its layout says, a length standing in front of the bytes that
it counts. -/
def Layout.Describes : Layout → List UInt8 → Prop
  | bare, operand => operand = []
  | payload count, operand => operand.length = count
  | counted field, operand => ∃ length data : List UInt8, operand = length ++ data ∧
      length.length = field.width ∧ LittleEndian.value length = data.length
  | jumpDistance, operand => operand.length = 2
  | scriptHash, operand => operand.length = 20
  | serviceName, operand => ∃ (length : UInt8) (name : List UInt8),
      operand = length :: name ∧ length.toNat = name.length

/-- A counted operand is a length field and as many bytes as it says. The field is found
by its width, so the parting is the only one. -/
theorem Extent.fits_counted_iff (field : LengthField) (operand : List UInt8) :
    (Extent.counted field).Fits operand ↔ ∃ length data : List UInt8,
      operand = length ++ data ∧ length.length = field.width ∧
        LittleEndian.value length = data.length := by
  constructor
  · intro fits
    obtain ⟨width, announced⟩ := fits
    have joined := (List.take_append_drop field.width operand).symm
    exact ⟨operand.take field.width, operand.drop field.width, joined, width, announced⟩
  · rintro ⟨length, data, rfl, width, announced⟩
    have front : (length ++ data).take field.width = length := List.take_left' width
    have behind : (length ++ data).drop field.width = data := List.drop_left' width
    simp only [Fits, front, behind]
    exact ⟨width, announced⟩

/-- Having the announced measure is the same as being described by the layout. Layouts are
more than measures: a jump and a fixed payload of two bytes have the same one. Only the
name of a service needs work, because its length is a byte in the layout and a field of
width one in the measure. -/
theorem Instruction.wellFormed_iff_describes (instruction : Instruction) :
    instruction.WellFormed ↔ instruction.opcode.layout.Describes instruction.operand := by
  unfold WellFormed Opcode.extent
  cases instruction.opcode.layout with
  | bare => simp [Layout.extent, Extent.Fits, Layout.Describes]
  | payload count | jumpDistance | scriptHash => rfl
  | counted field => exact Extent.fits_counted_iff field instruction.operand
  | serviceName =>
    -- A field of one byte holds the number of that byte.
    have single (length : UInt8) : LittleEndian.value [length] = length.toNat := by
      simp [LittleEndian.value]
    have fits := Extent.fits_counted_iff .one instruction.operand
    simp only [Layout.extent, Layout.Describes, fits]
    constructor
    · rintro ⟨length, data, joined, width, announced⟩
      obtain ⟨byte, rfl⟩ := List.length_eq_one_iff.mp width
      exact ⟨byte, data, joined, by rw [← single, announced]⟩
    · rintro ⟨byte, data, joined, announced⟩
      exact ⟨[byte], data, joined, rfl, by rw [single, announced]⟩

/-- Nothing can be split off these bytes: they are none, or the first instruction is
cut off or unknown. The fault names the place of the first byte as zero. -/
inductive Remains : List UInt8 → Option ScriptError → Prop
  | exhausted : Remains [] none
  | cut {first : UInt8} {bytes : List UInt8} {consumed : Nat}
      (split : Scan.ofBytes first bytes = .cut consumed) :
      Remains (first :: bytes) (some (.unexpectedEnd 0))
  | unknown {first byte : UInt8} {bytes : List UInt8}
      (split : Scan.ofBytes first bytes = .unknown byte) :
      Remains (first :: bytes) (some (.unknownOpcode byte 0))

/-- A remainder has a fault exactly when bytes are left. -/
theorem Remains.fault_eq_none_iff {rest : List UInt8} {fault : Option ScriptError}
    (remains : Remains rest fault) : fault = none ↔ rest = [] := by
  cases remains <;> simp

/-- The fault of a remainder names its first byte. -/
theorem Remains.offset? {rest : List UInt8} {fault : ScriptError}
    (remains : Remains rest (some fault)) (distance : Nat) :
    (fault.shift distance).offset? = some distance := by
  cases remains <;> rfl

/-- A script is a row of well-formed instructions in front of a remainder. -/
structure Parted (script : List UInt8) (row : List Instruction) (rest : List UInt8)
    (fault : Option ScriptError) : Prop where
  joined : script = assemble row ++ rest
  wellFormed : ∀ instruction ∈ row, instruction.WellFormed
  remains : Remains rest fault

/-- A script with nothing left is its row. -/
theorem Parted.eq_assemble {script rest : List UInt8} {row : List Instruction}
    (parted : Parted script row rest none) : script = assemble row := by
  have empty : rest = [] := parted.remains.fault_eq_none_iff.mp rfl
  rw [parted.joined, empty, List.append_nil]

/-- Every script can be parted. Split instructions off until none can be: what stops this
is the remainder, and its three forms are the three ways to stop. The induction is on the
length of the script, since each instruction takes at least its opcode away. -/
theorem exists_parted (script : List UInt8) :
    ∃ row rest fault, Parted script row rest fault := by
  induction measured : script.length using Nat.strongRecOn generalizing script with
  | ind size inductionHypothesis =>
    cases script with
    | nil => exact ⟨[], [], none, rfl, by simp, .exhausted⟩
    | cons first bytes =>
      cases split : Scan.ofBytes first bytes with
      | cut consumed => exact ⟨[], first :: bytes, _, rfl, by simp, .cut split⟩
      | unknown byte => exact ⟨[], first :: bytes, _, rfl, by simp, .unknown split⟩
      | whole instruction after =>
        obtain ⟨joined, instructionWellFormed⟩ := Scan.ofBytes_whole split
        have shorter : after.length < size := by
          rw [← measured, joined, List.length_append, Instruction.length_encode, Instruction.size]
          omega
        obtain ⟨row, rest, fault, parted⟩ := inductionHypothesis after.length shorter after rfl
        refine ⟨instruction :: row, rest, fault, ?_, ?_, parted.remains⟩
        · rw [joined, parted.joined, assemble_cons, List.append_assoc]
        · exact List.forall_mem_cons.mpr ⟨instructionWellFormed, parted.wellFormed⟩

/-- A cursor in front of a remainder with a fault yields the fault at its own position.
The remainder names its first byte as zero and does not know where it stands. -/
theorem Remains.next {rest : List UInt8} {fault : ScriptError}
    (remains : Remains rest (some fault)) (position : Nat) :
    ∃ after, Cursor.next ⟨position, rest, false⟩ =
      some (.error (fault.shift position), after) := by
  cases remains with
  | cut split => exact ⟨_, by simp only [Cursor.next, split]; rfl⟩
  | unknown split => exact ⟨_, by simp only [Cursor.next, split]; rfl⟩

/-- In front of a remainder a run stops, at the end or with the fault, and yields what it
had read before. -/
theorem Cursor.runOnto_remains {rest : List UInt8} {fault : Option ScriptError}
    (remains : Remains rest fault) (earlier : List Located) (position : Nat) :
    (runOnto earlier ⟨position, rest, false⟩).instructions = earlier.reverse ∧
      (runOnto earlier ⟨position, rest, false⟩).failure =
        fault.map (ScriptError.shift position) := by
  cases fault with
  | none =>
    have empty : rest = [] := remains.fault_eq_none_iff.mp rfl
    simp [empty, runOnto_end]
  | some fault =>
    obtain ⟨after, stopped⟩ := remains.next position
    simp [runOnto_fault stopped]

/-- Reading a parted script yields its row and the fault of its remainder, which is found
where the row ends. Nothing else is needed of a script to know its reading, so laws about
readings become laws about rows. -/
theorem Parted.read_eq {script rest : List UInt8} {row : List Instruction}
    {fault : Option ScriptError} (parted : Parted script row rest fault) :
    (read script).instructions = locate 0 row ∧
      (read script).failure = fault.map (ScriptError.shift (assemble row).length) := by
  have run := Cursor.runOnto_assemble parted.wellFormed [] 0 rest
  simp only [List.append_nil, Nat.zero_add] at run
  have stopped := Cursor.runOnto_remains parted.remains (locate 0 row).reverse
    (assemble row).length
  rw [read, Cursor.start, parted.joined, run]
  simpa only [List.reverse_reverse] using stopped

/-- A script decodes to the located instructions of the row that it is, and to nothing
else. A remainder with bytes in it has a fault; so if there is none, the row is all of the
script. -/
theorem decode_eq_ok_iff (script : List UInt8) (items : List Located) :
    decode script = .ok items ↔ ∃ row, (∀ instruction ∈ row, instruction.WellFormed) ∧
      script = assemble row ∧ items = locate 0 row := by
  constructor
  · intro decoded
    obtain ⟨row, rest, fault, parted⟩ := exists_parted script
    obtain ⟨instructions, failure⟩ := parted.read_eq
    rw [decode, Reading.result, failure, instructions] at decoded
    cases fault with
    | some fault => cases decoded
    | none => exact ⟨row, parted.wellFormed, parted.eq_assemble, (Except.ok.inj decoded).symm⟩
  · rintro ⟨row, wellFormed, rfl, rfl⟩
    exact decode_assemble wellFormed

/-- A well-formed instruction behind a script that is read to its end is read at the end
of it, at the offset that the script has for its length. -/
theorem decode_append_encode {script : List UInt8} {items : List Located}
    {instruction : Instruction} (decoded : decode script = .ok items)
    (wellFormed : instruction.WellFormed) :
    decode (script ++ instruction.encode) = .ok (items ++ [⟨instruction, script.length⟩]) := by
  obtain ⟨row, rowWellFormed, rfl, rfl⟩ := (decode_eq_ok_iff script items).mp decoded
  have all : ∀ each ∈ row ++ [instruction], each.WellFormed :=
    List.forall_mem_append.mpr ⟨rowWellFormed, by simpa using wellFormed⟩
  have joined : assemble row ++ instruction.encode = assemble (row ++ [instruction]) := by
    rw [assemble_append, assemble_cons, assemble_nil, List.append_nil]
  rw [joined, decode_assemble all, locate_append]
  simp [locate]

/-- The offset of an instruction is the sum of the sizes before it, counted from the
offset of the row. By induction on the row, along its parting. -/
theorem offset_of_locate {offset : Nat} {row : List Instruction} {before after : List Located}
    {item : Located} (split : locate offset row = before ++ item :: after) :
    item.offset = offset + (before.map fun earlier => earlier.size).sum := by
  induction row generalizing offset before with
  | nil => simp [locate] at split
  | cons instruction later inductionHypothesis =>
    cases before with
    | nil =>
      obtain ⟨rfl, _⟩ := List.cons.inj split
      simp
    | cons first others =>
      obtain ⟨rfl, rest⟩ := List.cons.inj split
      rw [inductionHypothesis rest, List.map_cons, List.sum_cons, Nat.add_assoc]

namespace Builder

/-- The builder of a script to which instructions are added with their operands as they
stand. -/
def emitting (instructions : List Instruction) : Builder :=
  empty.performAll (instructions.map .instruction)

/-- Instructions added as they stand are written in a row. -/
theorem contents_emitting (instructions : List Instruction) :
    (emitting instructions).contents = assemble instructions := by
  rw [emitting, contents_performAll, List.flatMap_map]
  rfl

end Builder

/-- Adding instructions and reading them are inverse to each other. Instructions whose
operands are as their layouts say are read back as they were added, each at the sum of the
sizes before it. From any script the reader yields such instructions only, and adding them
again gives the script up to the place of the fault, or all of it if there was none. So
exactly the rows of such instructions can be read to their end, and each of them is one
row only.

All three parts come from parting the script. In the second one the row is what was read,
and the fault is found behind it, where bytes are left. In the third the row exists if the
script has no remainder, and no other one has the same bytes. -/
theorem emitting_and_reading_are_inverse :
    (∀ instructions : List Instruction,
      (∀ instruction ∈ instructions,
        instruction.opcode.layout.Describes instruction.operand) →
      ∃ items, decode (Builder.emitting instructions).contents = .ok items ∧
        items.map Located.toInstruction = instructions ∧
        ∀ before item after, items = before ++ item :: after →
          item.offset = (before.map fun earlier => earlier.size).sum) ∧
    (∀ script : List UInt8,
      (∀ item ∈ (read script).instructions, item.opcode.layout.Describes item.operand) ∧
      let emitted :=
        (Builder.emitting ((read script).instructions.map Located.toInstruction)).contents
      ((read script).failure = none → emitted = script) ∧
      ∀ fault, (read script).failure = some fault → ∃ offset, fault.offset? = some offset ∧
        offset < script.length ∧ emitted = script.take offset) ∧
    (∀ script : List UInt8, (∃ items, decode script = .ok items) ↔
      ∃! instructions : List Instruction,
        (∀ instruction ∈ instructions,
          instruction.opcode.layout.Describes instruction.operand) ∧
        assemble instructions = script) := by
  simp only [← Instruction.wellFormed_iff_describes, Builder.contents_emitting]
  refine ⟨?_, ?_, ?_⟩
  · intro instructions wellFormed
    refine ⟨locate 0 instructions, decode_assemble wellFormed, map_locate 0 instructions, ?_⟩
    intro before item after split
    rw [offset_of_locate split, Nat.zero_add]
  · intro script
    obtain ⟨row, rest, fault, parted⟩ := exists_parted script
    obtain ⟨instructions, failure⟩ := parted.read_eq
    rw [instructions, failure, map_locate]
    refine ⟨?_, ?_, ?_⟩
    · intro item member
      exact parted.wellFormed item.toInstruction (mem_of_mem_locate member)
    · intro ended
      have noFault : fault = none := Option.map_eq_none_iff.mp ended
      subst noFault
      exact parted.eq_assemble.symm
    · intro found stopped
      obtain ⟨own, rfl, rfl⟩ := Option.map_eq_some_iff.mp stopped
      have left : rest ≠ [] := by
        intro empty
        cases parted.remains.fault_eq_none_iff.mpr empty
      have positive : 0 < rest.length := List.length_pos_iff.mpr left
      refine ⟨(assemble row).length, parted.remains.offset? _, ?_, ?_⟩
      · rw [parted.joined, List.length_append]
        omega
      · rw [parted.joined, List.take_left]
  · intro script
    constructor
    · rintro ⟨items, decoded⟩
      obtain ⟨row, wellFormed, rfl, _⟩ := (decode_eq_ok_iff script items).mp decoded
      refine ⟨row, ⟨wellFormed, rfl⟩, ?_⟩
      rintro other ⟨otherWellFormed, same⟩
      exact assemble_injective otherWellFormed wellFormed same
    · rintro ⟨row, ⟨wellFormed, rfl⟩, _⟩
      exact ⟨_, decode_assemble wellFormed⟩

/-- A push in a wider form than needed, a jump and a call of a service are read back; a
script that is cut in its second instruction gives back the first. -/
theorem emitting_and_reading_mixed :
    (∃ items, decode (Builder.emitting [⟨.pushCounted .two, [1, 0, 7]⟩,
        ⟨.jump .ifTrue, [0xfe, 0xff]⟩, ⟨.serviceCall, [1, 97]⟩]).contents = .ok items ∧
      items.map Located.toInstruction = [⟨.pushCounted .two, [1, 0, 7]⟩,
        ⟨.jump .ifTrue, [0xfe, 0xff]⟩, ⟨.serviceCall, [1, 97]⟩]) ∧
      (read [0x51, 0x05, 0x01]).failure = some (.unexpectedEnd 1) ∧
      (Builder.emitting ((read [0x51, 0x05, 0x01]).instructions.map
        Located.toInstruction)).contents = [0x51] := by
  obtain ⟨written, scripts, _⟩ := emitting_and_reading_are_inverse
  refine ⟨?_, ?_⟩
  · obtain ⟨items, decoded, same, _⟩ := written [⟨.pushCounted .two, [1, 0, 7]⟩,
      ⟨.jump .ifTrue, [0xfe, 0xff]⟩, ⟨.serviceCall, [1, 97]⟩] (by
        simp only [← Instruction.wellFormed_iff_describes]
        decide)
    exact ⟨items, decoded, same⟩
  · have stopped : (read [0x51, 0x05, 0x01]).failure = some (.unexpectedEnd 1) := by
      decide +kernel
    obtain ⟨_, _, cut⟩ := scripts [0x51, 0x05, 0x01]
    obtain ⟨offset, place, _, emitted⟩ := cut _ stopped
    cases place
    exact ⟨stopped, emitted⟩

end ContractScript
