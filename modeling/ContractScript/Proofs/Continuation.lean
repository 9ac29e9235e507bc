import ContractScript.Proofs.Partition

/-!
# Reading scripts that are continued

The end of a script decides what its continuations mean. Behind a script that was read
to its end the rest is read as if it stood alone, at later offsets. Behind a byte that is
no opcode nothing matters any more. Behind an instruction that was cut off something is
missing, and some bytes always complete it, whichever part of it was reached: the first
instruction is cut off exactly where the bytes begin a well-formed one without being all
of it.
-/

namespace ContractScript

namespace Scan

/-- Splitting an operand off never meets an unknown opcode. -/
theorem operand_ne_unknown (opcode : Opcode) (bytes : List UInt8) (byte : UInt8) :
    operand opcode bytes ≠ unknown byte := by
  intro split
  unfold operand at split
  split at split
  · split at split <;> cases split
  · split at split
    · cases split
    · split at split <;> cases split

/-- A byte that is no opcode is none whatever follows it. -/
theorem ofBytes_unknown_append {first byte : UInt8} {bytes : List UInt8}
    (split : ofBytes first bytes = unknown byte) (later : List UInt8) :
    ofBytes first (bytes ++ later) = unknown byte := by
  unfold ofBytes at split ⊢
  split at split
  next opcode found => exact absurd split (operand_ne_unknown opcode bytes byte)
  next missing => exact split

/-- Zeros up to a wanted length. -/
def padding (count : Nat) (bytes : List UInt8) : List UInt8 :=
  List.replicate (count - bytes.length) 0

/-- Too few bytes and their padding have the wanted length. -/
theorem length_append_padding {count : Nat} {bytes : List UInt8} (short : bytes.length < count) :
    (bytes ++ padding count bytes).length = count := by
  simp only [padding, List.length_append, List.length_replicate]
  omega

/-- An operand that is cut off can be completed: a fixed one and a payload by the bytes
that are missing, and a length field that is cut itself first to its own width.

Missing bytes are zeros throughout. A field that was completed so announces some payload,
and zeros are put there for all of it; a field that was there is kept and its payload
filled up. -/
theorem operand_completed {opcode : Opcode} {bytes : List UInt8} {consumed : Nat}
    (split : operand opcode bytes = cut consumed) :
    ∃ missing, (⟨opcode, bytes ++ missing⟩ : Instruction).WellFormed := by
  simp only [Instruction.WellFormed]
  unfold operand at split
  split at split
  next count fixed =>
    rw [fixed]
    split at split
    · cases split
    next short =>
      exact ⟨padding count bytes, length_append_padding (front?_eq_none_iff.mp short)⟩
  next field counted =>
    simp only [counted, Extent.fits_counted_iff]
    split at split
    next short =>
      have width := length_append_padding (front?_eq_none_iff.mp short)
      have data : (List.replicate (LittleEndian.value (bytes ++ padding field.width bytes))
          (0 : UInt8)).length = LittleEndian.value (bytes ++ padding field.width bytes) :=
        List.length_replicate
      exact ⟨_, _, _, (List.append_assoc _ _ _).symm, width, data.symm⟩
    next length behind found =>
      split at split
      · cases split
      next short =>
        obtain ⟨rfl, width⟩ := front?_eq_some found
        have data := length_append_padding (front?_eq_none_iff.mp short)
        exact ⟨_, _, _, List.append_assoc _ _ _, width, data.symm⟩

/-- An instruction that is cut off can be completed, and something is missing from it: if
nothing were, the bytes would be a well-formed instruction, and this would have been split
off whole. -/
theorem ofBytes_completed {first : UInt8} {bytes : List UInt8} {consumed : Nat}
    (split : ofBytes first bytes = cut consumed) :
    ∃ (instruction : Instruction) (missing : List UInt8), instruction.WellFormed ∧
      missing ≠ [] ∧ instruction.encode = first :: bytes ++ missing := by
  have opened := split
  unfold ofBytes at opened
  split at opened
  next opcode found =>
    obtain ⟨missing, wellFormed⟩ := operand_completed opened
    have byte : opcode.byte = first := Opcode.byte_of_ofByte? found
    refine ⟨⟨opcode, bytes ++ missing⟩, missing, wellFormed, ?_, ?_⟩
    · rintro rfl
      have entire := ofBytes_append wellFormed []
      simp only [List.append_nil, byte, split] at entire
      cases entire
    · simp [Instruction.encode, byte]
  · cases opened

/-- Bytes that begin a well-formed instruction without being all of it are a cut.

The two other answers are excluded by reading on. An unknown opcode stays unknown, but the
longer instruction is split off whole. An instruction split off from the beginning would
be split off from all of the bytes as well and would have to be the longer one itself,
which leaves nothing missing. -/
theorem ofBytes_cut_of_beginning {instruction : Instruction} {first : UInt8}
    {bytes missing : List UInt8} (wellFormed : instruction.WellFormed)
    (joined : instruction.encode = first :: bytes ++ missing) (left : missing ≠ []) :
    ∃ consumed, ofBytes first bytes = cut consumed := by
  obtain ⟨rfl, operand⟩ := List.cons.inj joined
  have operand : instruction.operand = bytes ++ missing := operand
  have entire := ofBytes_append wellFormed []
  rw [List.append_nil, operand] at entire
  cases split : ofBytes instruction.opcode.byte bytes with
  | cut consumed => exact ⟨consumed, rfl⟩
  | unknown byte =>
    rw [ofBytes_unknown_append split missing] at entire
    cases entire
  | whole other rest =>
    obtain ⟨otherJoined, otherWellFormed⟩ := ofBytes_whole split
    obtain ⟨byte, otherOperand⟩ := List.cons.inj otherJoined
    have otherOperand : bytes = other.operand ++ rest := otherOperand
    have same := ofBytes_append otherWellFormed (rest ++ missing)
    rw [← byte, ← List.append_assoc, ← otherOperand, entire] at same
    obtain ⟨_, empty⟩ := Scan.whole.inj same
    exact absurd (List.append_eq_nil_iff.mp empty.symm).2 left

end Scan

/-- The fault of a script at a later place is moved by all the bytes before it. -/
theorem ScriptError.shift_shift (first second : Nat) (fault : ScriptError) :
    shift first (shift second fault) = shift (first + second) fault := by
  cases fault <;> simp [shift, Nat.add_assoc]

/-- A row that starts later has the same instructions at later offsets. -/
theorem locate_shift (distance offset : Nat) (row : List Instruction) :
    locate (distance + offset) row = (locate offset row).map (Located.shift distance) := by
  induction row generalizing offset with
  | nil => rfl
  | cons instruction later inductionHypothesis =>
    simp only [locate, List.map_cons, Nat.add_assoc, inductionHypothesis, Located.shift]

/-- A row in front of a parted script extends its row. Remainder and fault stay as they
are, because the fault of a remainder does not know its place. -/
theorem Parted.prepend {row laterRow : List Instruction} {later rest : List UInt8}
    {fault : Option ScriptError} (parted : Parted later laterRow rest fault)
    (wellFormed : ∀ instruction ∈ row, instruction.WellFormed) :
    Parted (assemble row ++ later) (row ++ laterRow) rest fault where
  joined := by rw [parted.joined, assemble_append, List.append_assoc]
  wellFormed := List.forall_mem_append.mpr ⟨wellFormed, parted.wellFormed⟩
  remains := parted.remains

/-- Behind a script that was read to its end the rest is read as if it stood alone, only
later.

The script is a row, and it stands in front of the row and the remainder of the rest. So
the joined script is parted as well; offsets and the place of the fault count from a start
that is later by the length of the script. -/
theorem read_append_of_ended {script : List UInt8} (ended : (read script).failure = none)
    (later : List UInt8) :
    (read (script ++ later)).instructions =
        (read script).instructions ++
          (read later).instructions.map (Located.shift script.length) ∧
      (read (script ++ later)).failure =
        (read later).failure.map (ScriptError.shift script.length) := by
  obtain ⟨row, rest, fault, parted⟩ := exists_parted script
  obtain ⟨instructions, failure⟩ := parted.read_eq
  rw [failure] at ended
  have noFault : fault = none := Option.map_eq_none_iff.mp ended
  subst noFault
  have whole := parted.eq_assemble
  obtain ⟨laterRow, laterRest, laterFault, laterParted⟩ := exists_parted later
  obtain ⟨laterInstructions, laterFailure⟩ := laterParted.read_eq
  obtain ⟨joinedInstructions, joinedFailure⟩ :=
    (laterParted.prepend parted.wellFormed).read_eq
  rw [instructions, laterInstructions, laterFailure, whole, joinedInstructions, joinedFailure]
  constructor
  · rw [locate_append, ← locate_shift, Nat.zero_add, Nat.add_zero]
  · rw [assemble_append, List.length_append, Option.map_map]
    congr 1
    funext own
    exact (ScriptError.shift_shift _ _ own).symm

/-- Behind a byte that is no opcode nothing is read. The remainder of the continued script
begins with the same byte, so the row in front of it and the fault stay as they were. -/
theorem read_append_of_unknown {script : List UInt8} {byte : UInt8} {offset : Nat}
    (stopped : (read script).failure = some (.unknownOpcode byte offset))
    (later : List UInt8) :
    (read (script ++ later)).instructions = (read script).instructions ∧
      (read (script ++ later)).failure = some (.unknownOpcode byte offset) := by
  obtain ⟨row, rest, fault, parted⟩ := exists_parted script
  obtain ⟨instructions, failure⟩ := parted.read_eq
  rw [← stopped, failure, instructions]
  rw [failure] at stopped
  have remains := parted.remains
  cases remains with
  | exhausted => cases stopped
  | cut split => cases stopped
  | unknown split =>
    have continued : Parted (script ++ later) row _ _ :=
      ⟨by rw [parted.joined, List.append_assoc, List.cons_append], parted.wellFormed,
        .unknown (Scan.ofBytes_unknown_append split later)⟩
    exact continued.read_eq

/-- What was read of a script is also read of everything that continues it. Only the
remainder and what follows it are parted anew, and their row is put behind the one that
was read. -/
theorem read_isPrefix (script later : List UInt8) :
    (read script).instructions <+: (read (script ++ later)).instructions := by
  obtain ⟨row, rest, fault, parted⟩ := exists_parted script
  obtain ⟨restRow, restRest, restFault, restParted⟩ := exists_parted (rest ++ later)
  have continued := restParted.prepend parted.wellFormed
  rw [← List.append_assoc, ← parted.joined] at continued
  rw [parted.read_eq.1, continued.read_eq.1, locate_append]
  exact List.prefix_append _ _

/-- An instruction that was cut off begins at the offset that is reported, and the script
can be continued to its end. The reported offset is the length of the row in front of the
remainder; the remainder is completed to an instruction, and with it the script is a
row. -/
theorem decode_append_of_cut {script : List UInt8} {offset : Nat}
    (stopped : (read script).failure = some (.unexpectedEnd offset)) :
    offset < script.length ∧ ∃ (instruction : Instruction) (missing : List UInt8),
      missing ≠ [] ∧ instruction.encode = script.drop offset ++ missing ∧
      decode (script ++ missing) =
        .ok ((read script).instructions ++ [⟨instruction, offset⟩]) := by
  obtain ⟨row, rest, fault, parted⟩ := exists_parted script
  obtain ⟨instructions, failure⟩ := parted.read_eq
  rw [failure] at stopped
  have remains := parted.remains
  cases remains with
  | exhausted => cases stopped
  | unknown split => cases stopped
  | cut split =>
    cases stopped
    obtain ⟨instruction, missing, wellFormed, left, joined⟩ := Scan.ofBytes_completed split
    have continued : script ++ missing = assemble (row ++ [instruction]) := by
      rw [parted.joined, assemble_append, assemble_cons, joined, assemble_nil,
        List.append_nil, List.append_assoc]
    have rowWellFormed : ∀ each ∈ row ++ [instruction], each.WellFormed :=
      List.forall_mem_append.mpr ⟨parted.wellFormed, by simpa using wellFormed⟩
    refine ⟨?_, instruction, missing, left, ?_, ?_⟩
    · rw [parted.joined]
      simp
    · rw [parted.joined, Nat.add_zero, List.drop_left]
      exact joined
    · rw [continued, decode_assemble rowWellFormed, instructions, locate_append]
      simp [locate]

end ContractScript
