import ContractScript.Instruction

/-!
# Splitting one instruction off unread bytes

The unread bytes either begin with a whole instruction, or are cut off inside the
first one, or begin with a byte that is no opcode. The scan knows no positions;
the cursor adds them. What was consumed before a cut is part of the answer: the
opcode byte, and the length field when that much was there.

Two laws fix the scan: what it splits off is well formed and stands in front of
the rest, and every well-formed instruction is split off whatever follows it.
-/

namespace ContractScript

/-- The answer of splitting the first instruction off. -/
inductive Scan
  | whole (instruction : Instruction) (rest : List UInt8)
  | cut (consumed : Nat)
  | unknown (byte : UInt8)

namespace Scan

/-- The first `count` bytes and the others, if there are that many. -/
def front? (count : Nat) (bytes : List UInt8) : Option (List UInt8 × List UInt8) :=
  let front := bytes.take count
  if front.length = count then some (front, bytes.drop count) else none

/-- Split the operand of an opcode off the bytes after it. -/
def operand (opcode : Opcode) (bytes : List UInt8) : Scan :=
  match opcode.extent with
  | .fixed count =>
    match front? count bytes with
    | some (operand, rest) => whole ⟨opcode, operand⟩ rest
    | none => cut 1
  | .counted field =>
    match front? field.width bytes with
    | none => cut 1
    | some (length, counted) =>
      match front? (LittleEndian.value length) counted with
      | some (payload, rest) => whole ⟨opcode, length ++ payload⟩ rest
      | none => cut (1 + field.width)

/-- Split the first instruction off bytes that begin with `first`. -/
def ofBytes (first : UInt8) (bytes : List UInt8) : Scan :=
  match Opcode.ofByte? first with
  | some opcode => operand opcode bytes
  | none => unknown first

/-- What is split off has the wanted length and stands in front of the rest. -/
theorem front?_eq_some {count : Nat} {bytes front rest : List UInt8}
    (split : front? count bytes = some (front, rest)) :
    bytes = front ++ rest ∧ front.length = count := by
  simp only [front?] at split
  split at split
  next enough =>
    simp only [Option.some.injEq, Prod.mk.injEq] at split
    obtain ⟨rfl, rfl⟩ := split
    exact ⟨(List.take_append_drop count bytes).symm, enough⟩
  · cases split

/-- The front of two joined byte strings is the first of them at its own length. -/
theorem front?_append (front rest : List UInt8) :
    front? front.length (front ++ rest) = some (front, rest) := by
  simp [front?]

/-- Bytes cannot be split exactly if they are fewer than wanted. -/
theorem front?_eq_none_iff {count : Nat} {bytes : List UInt8} :
    front? count bytes = none ↔ bytes.length < count := by
  simp only [front?, List.length_take, ite_eq_right_iff, reduceCtorEq, imp_false]
  omega

/-- An operand that is split off fits its opcode and stands in front of the rest. A fixed
one has the announced number of bytes; a counted one is split twice, and the number in the
first part is the length of the second. -/
theorem operand_whole {opcode : Opcode} {bytes rest : List UInt8} {instruction : Instruction}
    (split : operand opcode bytes = whole instruction rest) :
    instruction.opcode = opcode ∧ bytes = instruction.operand ++ rest ∧
      instruction.WellFormed := by
  unfold operand at split
  split at split
  next count fixed =>
    split at split
    next front after found =>
      cases split
      obtain ⟨joined, length⟩ := front?_eq_some found
      refine ⟨rfl, joined, ?_⟩
      simp [Instruction.WellFormed, fixed, Extent.Fits, length]
    · cases split
  next field counted =>
    split at split
    · cases split
    next length after found =>
      split at split
      next payload tail foundPayload =>
        cases split
        obtain ⟨joined, width⟩ := front?_eq_some found
        obtain ⟨joinedPayload, announced⟩ := front?_eq_some foundPayload
        refine ⟨rfl, ?_, ?_⟩
        · simp [joined, joinedPayload]
        · simp [Instruction.WellFormed, counted, Extent.Fits, ← width, announced]
      · cases split

/-- An operand that fits is split off whatever follows it. In the counted case the field
is found first, because it has its width, and then the payload, because the field
announces exactly its length; nothing of the rest is looked at. -/
theorem operand_append {instruction : Instruction} (wellFormed : instruction.WellFormed)
    (rest : List UInt8) :
    operand instruction.opcode (instruction.operand ++ rest) = whole instruction rest := by
  obtain ⟨opcode, bytes⟩ := instruction
  unfold Instruction.WellFormed at wellFormed
  unfold operand
  split
  next count fixed =>
    rw [fixed] at wellFormed
    simp only [Extent.Fits] at wellFormed
    rw [← wellFormed, front?_append]
  next field counted =>
    rw [counted] at wellFormed
    obtain ⟨width, announced⟩ := wellFormed
    have joined : bytes ++ rest =
        bytes.take field.width ++ (bytes.drop field.width ++ rest) := by
      rw [← List.append_assoc, List.take_append_drop]
    have first := front?_append (bytes.take field.width) (bytes.drop field.width ++ rest)
    rw [width, ← joined] at first
    have second := front?_append (bytes.drop field.width) rest
    rw [← announced] at second
    simp only [first, second, List.take_append_drop]

/-- A whole instruction is well formed and stands in front of the rest: its opcode is the
one of the first byte, and everything else is in its operand. -/
theorem ofBytes_whole {first : UInt8} {bytes rest : List UInt8} {instruction : Instruction}
    (split : ofBytes first bytes = whole instruction rest) :
    first :: bytes = instruction.encode ++ rest ∧ instruction.WellFormed := by
  unfold ofBytes at split
  split at split
  next opcode found =>
    obtain ⟨same, joined, wellFormed⟩ := operand_whole split
    refine ⟨?_, wellFormed⟩
    simp [Instruction.encode, same, joined, Opcode.byte_of_ofByte? found]
  · cases split

/-- A well-formed instruction is split off whatever follows it. -/
theorem ofBytes_append {instruction : Instruction} (wellFormed : instruction.WellFormed)
    (rest : List UInt8) :
    ofBytes instruction.opcode.byte (instruction.operand ++ rest) = whole instruction rest := by
  simp [ofBytes, Opcode.ofByte?_byte, operand_append wellFormed]

end Scan

end ContractScript
