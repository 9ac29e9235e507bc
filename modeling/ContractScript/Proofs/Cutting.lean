import ContractScript.Proofs.Continuation

/-!
# Reading scripts that are cut

A cut through a script that can be read falls between two instructions, which nobody
notices, or inside one, which is then reported by its own offset. Either way the
instructions that end by the cut are read as before.

The main statement joins this with the reading of continued scripts: a script that was
cut can be continued again, and reading finds in every continuation what it found before
the cut.
-/

namespace ContractScript

/-- Located instructions lie within the bytes of their row. -/
theorem bounds_of_mem_locate {offset : Nat} {row : List Instruction} {item : Located}
    (member : item ∈ locate offset row) :
    offset ≤ item.offset ∧ item.offset + item.size ≤ offset + (assemble row).length := by
  induction row generalizing offset with
  | nil => cases member
  | cons instruction later inductionHypothesis =>
    simp only [assemble_cons, List.length_append, Instruction.length_encode]
    rcases List.mem_cons.mp member with rfl | member
    · simp only
      omega
    · have bounds := inductionHypothesis member
      omega

/-- Every instruction takes at least one byte. -/
theorem Instruction.size_pos (instruction : Instruction) : 0 < instruction.size := by
  rw [size]
  omega

/-- A place between two instructions, or at either end of the script. -/
def Boundary (items : List Located) (place : Nat) : Prop :=
  place = 0 ∨ ∃ item ∈ items, item.offset + item.size = place

/-- A place in a row lies between two instructions or inside one. By induction on the row:
within the first instruction the place is its start or inside it, and every later place is
counted from its end. -/
theorem exists_place {row : List Instruction} {place : Nat}
    (within : place ≤ (assemble row).length) :
    (∃ before after, row = before ++ after ∧ place = (assemble before).length) ∨
      ∃ before instruction after, row = before ++ instruction :: after ∧
        (assemble before).length < place ∧
        place < (assemble before).length + instruction.size := by
  induction row generalizing place with
  | nil => exact .inl ⟨[], [], rfl, Nat.le_zero.mp within⟩
  | cons instruction later inductionHypothesis =>
    simp only [assemble_cons, List.length_append, Instruction.length_encode] at within
    by_cases first : place < instruction.size
    · by_cases start : place = 0
      · exact .inl ⟨[], instruction :: later, rfl, start⟩
      · refine .inr ⟨[], instruction, later, rfl, ?_, ?_⟩
        · exact Nat.pos_of_ne_zero start
        · simpa using first
    · have inLater : place - instruction.size ≤ (assemble later).length := by omega
      rcases inductionHypothesis inLater with
        ⟨before, after, rfl, reached⟩ | ⟨before, inside, after, rfl, above, below⟩
      · refine .inl ⟨instruction :: before, after, rfl, ?_⟩
        simp only [assemble_cons, List.length_append, Instruction.length_encode]
        omega
      · refine .inr ⟨instruction :: before, inside, after, rfl, ?_, ?_⟩ <;>
          simp only [assemble_cons, List.length_append, Instruction.length_encode] <;>
          omega

/-- A proper beginning of a well-formed instruction is a remainder that was cut off. It
has the opcode byte, for it is not empty, and misses some of the operand, for it is not
all of it. -/
theorem Remains.take_encode {instruction : Instruction} (wellFormed : instruction.WellFormed)
    {count : Nat} (positive : 0 < count) (short : count < instruction.size) :
    Remains (instruction.encode.take count) (some (.unexpectedEnd 0)) := by
  obtain ⟨more, rfl⟩ := Nat.exists_eq_add_one.mpr positive
  have joined : instruction.encode =
      instruction.opcode.byte :: instruction.operand.take more ++
        instruction.operand.drop more := by
    simp [Instruction.encode]
  have left : instruction.operand.drop more ≠ [] := by
    rw [ne_eq, List.drop_eq_nil_iff]
    simp only [Instruction.size] at short
    omega
  obtain ⟨consumed, split⟩ := Scan.ofBytes_cut_of_beginning wellFormed joined left
  exact .cut split

/-- The end of the first instructions of a row lies between two instructions: it is where
the last of them ends, or the start of the script. -/
theorem boundary_length (before after : List Instruction) :
    Boundary (locate 0 (before ++ after)) (assemble before).length := by
  rcases List.eq_nil_or_concat before with rfl | ⟨others, last, rfl⟩
  · exact .inl rfl
  · refine .inr ⟨⟨last, (assemble others).length⟩, ?_, ?_⟩
    · simp [locate_append, locate]
    · simp

/-- No instruction of a row contains the end of the first ones: those end there at the
latest, and the others begin there at the earliest. -/
theorem not_inside_length {before after : List Instruction} {item : Located}
    (member : item ∈ locate 0 (before ++ after)) :
    ¬(item.offset < (assemble before).length ∧
      (assemble before).length < item.offset + item.size) := by
  rw [locate_append, Nat.zero_add, List.mem_append] at member
  rcases member with member | member
  · have bounds := bounds_of_mem_locate member
    omega
  · have bounds := bounds_of_mem_locate member
    omega

/-- The instructions that end by a place are the first ones of a row, if those behind them
end later. The filter keeps all of the front and drops all of the back. -/
theorem filter_ended {before later : List Instruction} {place : Nat}
    (ended : (assemble before).length ≤ place)
    (going : ∀ item ∈ locate (assemble before).length later,
      place < item.offset + item.size) :
    (locate 0 (before ++ later)).filter (fun item => item.offset + item.size ≤ place) =
      locate 0 before := by
  have kept : (locate 0 before).filter (fun item => item.offset + item.size ≤ place) =
      locate 0 before := by
    apply List.filter_eq_self.mpr
    intro item member
    have bounds := bounds_of_mem_locate member
    exact decide_eq_true (by omega)
  have dropped : (locate (assemble before).length later).filter
      (fun item => item.offset + item.size ≤ place) = [] := by
    apply List.filter_eq_nil_iff.mpr
    intro item member
    have later := going item member
    simp only [decide_eq_true_eq]
    omega
  rw [locate_append, Nat.zero_add, List.filter_append, kept, dropped, List.append_nil]

section Inside

variable {before after : List Instruction} {instruction : Instruction} {place : Nat}
  (above : (assemble before).length < place)
  (below : place < (assemble before).length + instruction.size)

/-- The other instructions of a row end before one of them or begin behind it. -/
theorem mem_locate_around {item : Located}
    (member : item ∈ locate 0 (before ++ instruction :: after)) :
    item.offset + item.size ≤ (assemble before).length ∨
      item = ⟨instruction, (assemble before).length⟩ ∨
      (assemble before).length + instruction.size ≤ item.offset := by
  rw [locate_append, Nat.zero_add, locate, List.mem_append, List.mem_cons] at member
  rcases member with member | same | member
  · have bounds := bounds_of_mem_locate member
    exact .inl (by omega)
  · exact .inr (.inl same)
  · exact .inr (.inr (bounds_of_mem_locate member).1)

include above below

/-- A place inside an instruction of a row is inside no other one, so the offset that a
cut reports is determined by the place. -/
theorem eq_of_inside {item : Located}
    (member : item ∈ locate 0 (before ++ instruction :: after))
    (started : item.offset < place) (unended : place < item.offset + item.size) :
    item = ⟨instruction, (assemble before).length⟩ := by
  rcases mem_locate_around member with ended | same | later
  · omega
  · exact same
  · omega

/-- A place inside an instruction of a row does not lie between two. No other instruction
ends there, since those before it have ended and those behind it have not begun. -/
theorem not_boundary_inside : ¬Boundary (locate 0 (before ++ instruction :: after)) place := by
  rintro (start | ⟨item, member, reached⟩)
  · omega
  · have positive := item.size_pos
    rcases mem_locate_around member with ended | rfl | later
    · omega
    · simp only at reached
      omega
    · omega

/-- A cut inside an instruction of a row leaves those before it and reports its offset.

The bytes in front of the cut are the row before the instruction and a proper beginning of
it, which is a remainder that was cut off; the reading of a parted script gives both
answers. All instructions from this one on end behind the cut, so the filter keeps those
before it. -/
theorem read_take_inside
    (wellFormed : ∀ each ∈ before ++ instruction :: after, each.WellFormed) :
    (read ((assemble (before ++ instruction :: after)).take place)).instructions =
        (locate 0 (before ++ instruction :: after)).filter
          (fun item => item.offset + item.size ≤ place) ∧
      (read ((assemble (before ++ instruction :: after)).take place)).failure =
        some (.unexpectedEnd (assemble before).length) := by
  obtain ⟨beforeWellFormed, rest⟩ := List.forall_mem_append.mp wellFormed
  obtain ⟨instructionWellFormed, _⟩ := List.forall_mem_cons.mp rest
  have cutBytes : (assemble (before ++ instruction :: after)).take place =
      assemble before ++ instruction.encode.take (place - (assemble before).length) := by
    have short : place - (assemble before).length ≤ instruction.encode.length := by
      rw [Instruction.length_encode]
      omega
    rw [assemble_append, assemble_cons, List.take_append,
      List.take_of_length_le (Nat.le_of_lt above), List.take_append_of_le_length short]
  have parted : Parted ((assemble (before ++ instruction :: after)).take place) before _ _ :=
    ⟨cutBytes, beforeWellFormed, .take_encode instructionWellFormed (by omega) (by omega)⟩
  have going : ∀ item ∈ locate (assemble before).length (instruction :: after),
      place < item.offset + item.size := by
    intro item member
    rcases List.mem_cons.mp member with rfl | member
    · exact below
    · have bounds := bounds_of_mem_locate member
      omega
  obtain ⟨instructions, failure⟩ := parted.read_eq
  rw [instructions, failure, filter_ended (Nat.le_of_lt above) going]
  exact ⟨rfl, rfl⟩

end Inside

/-- A cut between two instructions of a row leaves those before it and is not noticed: the
bytes in front of it are a row themselves. Every instruction behind the cut has a byte, so
it ends later. -/
theorem read_take_between {before after : List Instruction}
    (wellFormed : ∀ each ∈ before ++ after, each.WellFormed) :
    (read ((assemble (before ++ after)).take (assemble before).length)).instructions =
        (locate 0 (before ++ after)).filter
          (fun item => item.offset + item.size ≤ (assemble before).length) ∧
      (read ((assemble (before ++ after)).take (assemble before).length)).failure = none := by
  obtain ⟨beforeWellFormed, _⟩ := List.forall_mem_append.mp wellFormed
  have going : ∀ item ∈ locate (assemble before).length after,
      (assemble before).length < item.offset + item.size := by
    intro item member
    have bounds := bounds_of_mem_locate member
    have positive := item.size_pos
    omega
  rw [assemble_append, List.take_left, read_assemble beforeWellFormed,
    filter_ended (Nat.le_refl _) going]
  exact ⟨rfl, rfl⟩

/-- A script that can be read to its end and is cut keeps the instructions that end by the
cut. A cut between two instructions is not noticed, and a cut inside one is reported by
the offset of that instruction.

The script is a row, and the cut is at one of the two kinds of places in it. The
equivalences hold because no place is of both kinds, and because it is inside one
instruction at most. -/
theorem read_take {script : List UInt8} {items : List Located}
    (decoded : decode script = .ok items) {place : Nat} (within : place ≤ script.length) :
    (read (script.take place)).instructions =
        items.filter (fun item => item.offset + item.size ≤ place) ∧
      ((read (script.take place)).failure = none ↔ Boundary items place) ∧
      ∀ fault, (read (script.take place)).failure = some fault ↔
        ∃ item ∈ items, item.offset < place ∧ place < item.offset + item.size ∧
          fault = .unexpectedEnd item.offset := by
  obtain ⟨row, wellFormed, rfl, rfl⟩ := (decode_eq_ok_iff script items).mp decoded
  rcases exists_place within with
    ⟨before, after, rfl, rfl⟩ | ⟨before, instruction, after, rfl, above, below⟩
  · obtain ⟨instructions, failure⟩ := read_take_between wellFormed
    rw [instructions, failure]
    refine ⟨rfl, iff_of_true rfl (boundary_length before after), ?_⟩
    intro fault
    refine iff_of_false (by simp) ?_
    rintro ⟨item, member, started, unended, _⟩
    exact not_inside_length member ⟨started, unended⟩
  · obtain ⟨instructions, failure⟩ := read_take_inside above below wellFormed
    rw [instructions, failure]
    refine ⟨rfl, iff_of_false (by simp) (not_boundary_inside above below), ?_⟩
    intro fault
    constructor
    · intro same
      have member : ⟨instruction, (assemble before).length⟩ ∈
          locate 0 (before ++ instruction :: after) := by
        simp [locate_append, locate]
      exact ⟨_, member, above, below, (Option.some.inj same).symm⟩
    · rintro ⟨item, member, started, unended, rfl⟩
      rw [eq_of_inside above below member started unended]

/-- The end of a script decides how its continuations are read, and a cut through a script
how much of it. A script read to its end is followed by the reading of the rest, moved by
its length. One that ended at an unknown opcode reads the same whatever follows. One that
ended inside an instruction reports the offset at which that instruction begins; what was
read stays the beginning of every continued reading, and some continuation completes the
instruction and ends the script. Cutting a readable script keeps the instructions that end
by the cut, and a fault arises exactly if the cut is no boundary between instructions, at
the offset of the one that contains it.

Each part is one law of this module or of the one on continued scripts. They share a view
of the script, as a row of instructions in front of a remainder from which none can be
split off. -/
theorem reading_of_continued_and_cut (script : List UInt8) :
    ((read script).failure = none → ∀ later,
      (read (script ++ later)).instructions =
          (read script).instructions ++
            (read later).instructions.map (Located.shift script.length) ∧
        (read (script ++ later)).failure =
          (read later).failure.map (ScriptError.shift script.length)) ∧
    (∀ byte offset, (read script).failure = some (.unknownOpcode byte offset) → ∀ later,
      (read (script ++ later)).instructions = (read script).instructions ∧
        (read (script ++ later)).failure = some (.unknownOpcode byte offset)) ∧
    (∀ offset, (read script).failure = some (.unexpectedEnd offset) →
      (∀ later, (read script).instructions <+: (read (script ++ later)).instructions) ∧
        offset < script.length ∧
        ∃ (instruction : Instruction) (missing : List UInt8),
          missing ≠ [] ∧ instruction.encode = script.drop offset ++ missing ∧
          decode (script ++ missing) =
            .ok ((read script).instructions ++ [⟨instruction, offset⟩])) ∧
    (∀ items, decode script = .ok items → ∀ place ≤ script.length,
      (read (script.take place)).instructions =
          items.filter (fun item => item.offset + item.size ≤ place) ∧
        ((read (script.take place)).failure = none ↔ Boundary items place) ∧
        ∀ fault, (read (script.take place)).failure = some fault ↔
          ∃ item ∈ items, item.offset < place ∧ place < item.offset + item.size ∧
            fault = .unexpectedEnd item.offset) := by
  refine ⟨read_append_of_ended, fun _ _ => read_append_of_unknown, ?_, ?_⟩
  · intro offset stopped
    exact ⟨read_isPrefix script, decode_append_of_cut stopped⟩
  · intro items decoded place within
    exact read_take decoded within

/-- A length field that is cut itself can be completed; a push that is cut inside its
payload is reported where it begins; behind a byte that is no opcode nothing is read. -/
theorem reading_of_cut_length_and_payload :
    (∃ (instruction : Instruction) (missing : List UInt8),
      instruction.encode = [0x4e, 1, 0] ++ missing ∧
      decode ([0x51, 0x4e, 1, 0] ++ missing) =
        .ok [⟨⟨.pushNumber 0, []⟩, 0⟩, ⟨instruction, 1⟩]) ∧
    (read ([0x51, 0x02, 0xaa, 0xbb, 0x61].take 3)).failure = some (.unexpectedEnd 1) ∧
    (read ([0x61, 0x50] ++ [0x51, 0x51])).failure = some (.unknownOpcode 0x50 1) ∧
    (read ([0x61] ++ [0x51, 0x05])).failure = some (.unexpectedEnd 2) := by
  refine ⟨?_, ?_, ?_, ?_⟩
  · have stopped : (read [0x51, 0x4e, 1, 0]).failure = some (.unexpectedEnd 1) := by
      decide +kernel
    have instructions : (read [0x51, 0x4e, 1, 0]).instructions = [⟨⟨.pushNumber 0, []⟩, 0⟩] := by
      decide +kernel
    obtain ⟨_, _, cut, _⟩ := reading_of_continued_and_cut [0x51, 0x4e, 1, 0]
    obtain ⟨_, _, instruction, missing, _, begun, completed⟩ := cut 1 stopped
    rw [instructions] at completed
    exact ⟨instruction, missing, begun, completed⟩
  · have decoded : decode [0x51, 0x02, 0xaa, 0xbb, 0x61] = .ok [⟨⟨.pushNumber 0, []⟩, 0⟩,
        ⟨⟨.pushBytes 2, [0xaa, 0xbb]⟩, 1⟩, ⟨⟨.plain .nop, []⟩, 4⟩] :=
      (decode_eq_ok_iff _ _).mpr ⟨[⟨.pushNumber 0, []⟩, ⟨.pushBytes 2, [0xaa, 0xbb]⟩,
        ⟨.plain .nop, []⟩], by decide, by decide, rfl⟩
    obtain ⟨_, _, _, cut⟩ := reading_of_continued_and_cut [0x51, 0x02, 0xaa, 0xbb, 0x61]
    obtain ⟨_, _, fault⟩ := cut _ decoded 3 (by decide)
    exact (fault _).mpr ⟨⟨⟨.pushBytes 2, [0xaa, 0xbb]⟩, 1⟩, by decide, by decide, by decide, rfl⟩
  · have stopped : (read [0x61, 0x50]).failure = some (.unknownOpcode 0x50 1) := by
      decide +kernel
    obtain ⟨_, unknown, _, _⟩ := reading_of_continued_and_cut [0x61, 0x50]
    exact (unknown _ _ stopped [0x51, 0x51]).2
  · have ended : (read [0x61]).failure = none := by
      decide +kernel
    have stopped : (read [0x51, 0x05]).failure = some (.unexpectedEnd 1) := by
      decide +kernel
    obtain ⟨continued, _, _, _⟩ := reading_of_continued_and_cut [0x61]
    rw [(continued ended [0x51, 0x05]).2, stopped]
    rfl

end ContractScript
