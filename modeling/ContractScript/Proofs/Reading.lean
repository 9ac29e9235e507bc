import ContractScript.Cursor

/-!
# Reading back what was assembled

Writing instructions whose operands fit and reading the script again are inverse:
the cursor yields the same instructions, each at the sum of the sizes before it,
and ends behind the last one without a fault. Nothing separates instructions in a
script, so two rows of well-formed instructions with the same bytes are the same
row.

The cursor laws are stated with instructions already read and bytes still to
come, because a script is read from its front while its rows are joined at
any place.
-/

namespace ContractScript

/-- A row of no instructions writes no bytes. -/
@[simp] theorem assemble_nil : assemble [] = [] := rfl

/-- The first instruction stands in front of the others. -/
@[simp] theorem assemble_cons (instruction : Instruction) (later : List Instruction) :
    assemble (instruction :: later) = instruction.encode ++ assemble later := by
  simp [assemble]

/-- Two rows of instructions are written one after the other. -/
@[simp] theorem assemble_append (first second : List Instruction) :
    assemble (first ++ second) = assemble first ++ assemble second := by
  simp [assemble]

/-- The second of two rows starts where the bytes of the first end. Induct over the first
row for every offset: its first instruction moves the offset by its size, which is the
number of bytes it writes. -/
theorem locate_append (offset : Nat) (first second : List Instruction) :
    locate offset (first ++ second) =
      locate offset first ++ locate (offset + (assemble first).length) second := by
  induction first generalizing offset with
  | nil => simp [locate]
  | cons instruction later inductionHypothesis =>
    simp only [List.cons_append, locate, inductionHypothesis, assemble_cons, List.length_append,
      Instruction.length_encode, Nat.add_assoc]

/-- Offsets are added to instructions and change none of them. -/
@[simp] theorem map_locate (offset : Nat) (instructions : List Instruction) :
    (locate offset instructions).map Located.toInstruction = instructions := by
  induction instructions generalizing offset with
  | nil => rfl
  | cons instruction later inductionHypothesis => simp [locate, inductionHypothesis]

/-- Located instructions come from their row, so that what holds of every instruction of a
row also holds wherever they stand in a script. -/
theorem mem_of_mem_locate {offset : Nat} {instructions : List Instruction} {item : Located}
    (member : item ∈ locate offset instructions) : item.toInstruction ∈ instructions := by
  have mapped : item.toInstruction ∈ (locate offset instructions).map Located.toInstruction :=
    List.mem_map_of_mem member
  rwa [map_locate] at mapped

namespace Cursor

/-- A cursor in front of a well-formed instruction yields it at its own position and moves
behind it, whatever follows. That the operand is cut off at its end and nowhere else is
the law of the scan for operands that fit. -/
theorem next_encode {instruction : Instruction} (wellFormed : instruction.WellFormed)
    (position : Nat) (rest : List UInt8) :
    next ⟨position, instruction.encode ++ rest, false⟩ =
      some (.ok ⟨instruction, position⟩, ⟨position + instruction.size, rest, false⟩) := by
  have split := Scan.ofBytes_append wellFormed rest
  simp [next, Instruction.encode, split]

/-- A cursor with nothing left to read ends without a fault. -/
theorem runOnto_end (earlier : List Located) (position : Nat) :
    runOnto earlier ⟨position, [], false⟩ =
      ⟨earlier.reverse, none, ⟨position, [], false⟩⟩ := by
  rw [runOnto]
  simp [next]

/-- Behind an instruction that is yielded the run goes on, with that instruction in front
of those read before. Of the three outcomes of a step only this one agrees with what was
yielded. -/
theorem runOnto_item {cursor after : Cursor} {item : Located}
    (advanced : cursor.next = some (.ok item, after)) (earlier : List Located) :
    runOnto earlier cursor = runOnto (item :: earlier) after := by
  rw [runOnto]
  split
  next ended => simp [advanced] at ended
  next ended => simp [advanced] at ended
  next yielded =>
    rw [advanced] at yielded
    cases yielded
    rfl

/-- A fault ends the run: what was read before is kept, in the order it was read, and the
fault is reported behind it together with the cursor it left. -/
theorem runOnto_fault {cursor after : Cursor} {fault : ScriptError}
    (stopped : cursor.next = some (.error fault, after)) (earlier : List Located) :
    runOnto earlier cursor = ⟨earlier.reverse, some fault, after⟩ := by
  rw [runOnto]
  split
  next ended => simp [stopped] at ended
  next yielded =>
    rw [stopped] at yielded
    cases yielded
    rfl
  next yielded => simp [stopped] at yielded

/-- A row of well-formed instructions is read in order, and reading goes on behind
it as if the row had been read before. Induct over the row: each step reads its
first instruction and leaves the others in front of the same rest. -/
theorem runOnto_assemble {instructions : List Instruction}
    (wellFormed : ∀ instruction ∈ instructions, instruction.WellFormed)
    (earlier : List Located) (position : Nat) (rest : List UInt8) :
    runOnto earlier ⟨position, assemble instructions ++ rest, false⟩ =
      runOnto ((locate position instructions).reverse ++ earlier)
        ⟨position + (assemble instructions).length, rest, false⟩ := by
  induction instructions generalizing earlier position with
  | nil => simp [locate]
  | cons instruction later inductionHypothesis =>
    obtain ⟨firstWellFormed, laterWellFormed⟩ := List.forall_mem_cons.mp wellFormed
    have advanced := next_encode firstWellFormed position (assemble later ++ rest)
    rw [assemble_cons, List.append_assoc, runOnto_item advanced,
      inductionHypothesis laterWellFormed]
    simp [locate, Nat.add_assoc]

end Cursor

/-- An assembled script is read to its end, and its instructions are found at the sums of
the sizes before them. This is the run over the row with nothing read before it and no
byte behind it. -/
theorem read_assemble {instructions : List Instruction}
    (wellFormed : ∀ instruction ∈ instructions, instruction.WellFormed) :
    read (assemble instructions) =
      ⟨locate 0 instructions, none, ⟨(assemble instructions).length, [], false⟩⟩ := by
  have run := Cursor.runOnto_assemble wellFormed [] 0 []
  simp only [List.append_nil, Nat.zero_add] at run
  rw [read, Cursor.start, run, Cursor.runOnto_end, List.reverse_reverse]

/-- An assembled script is decoded to its instructions. -/
theorem decode_assemble {instructions : List Instruction}
    (wellFormed : ∀ instruction ∈ instructions, instruction.WellFormed) :
    decode (assemble instructions) = .ok (locate 0 instructions) := by
  rw [decode, read_assemble wellFormed, Reading.result]

/-- Well-formed instructions are determined by their bytes, although no mark separates
them. Both rows are what reading the common script yields, located from the same start,
and taking the offsets away again gives the rows themselves. -/
theorem assemble_injective {first second : List Instruction}
    (firstWellFormed : ∀ instruction ∈ first, instruction.WellFormed)
    (secondWellFormed : ∀ instruction ∈ second, instruction.WellFormed)
    (same : assemble first = assemble second) : first = second := by
  have decoded := decode_assemble firstWellFormed
  rw [same, decode_assemble secondWellFormed] at decoded
  have located : locate 0 second = locate 0 first := Except.ok.inj decoded
  have instructions := congrArg (List.map Located.toInstruction) located
  simpa only [map_locate] using instructions.symm

/-- A well-formed instruction is determined by its bytes: it is the only one in a row of
one, and such rows are determined by their bytes. -/
theorem Instruction.eq_of_encode_eq {first second : Instruction}
    (firstWellFormed : first.WellFormed)
    (secondWellFormed : second.WellFormed) (same : first.encode = second.encode) :
    first = second := by
  have rows : [first] = [second] := by
    apply assemble_injective
    · simpa using firstWellFormed
    · simpa using secondWellFormed
    · rw [assemble_cons, assemble_cons, same]
  exact (List.cons.inj rows).1

end ContractScript
