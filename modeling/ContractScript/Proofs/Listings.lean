import ContractScript.Listing
import ContractScript.Proofs.Mnemonics
import ContractScript.Proofs.Narrowing

/-!
# A listing loses nothing

The line of an instruction can be taken apart again. A colon ends the offset, a blank ends
the mnemonic, and a line feed ends the line; none of them occurs in what it ends. The
mnemonic gives the opcode back, and the opcode says whether the operand is written as a
distance or as bytes. Both forms determine the operand, provided that it fits the opcode,
as all operands do that a reader yields.

So a listing determines the instructions, and these determine the script. The offsets are
not needed for that, but every line begins with its own.
-/

namespace ContractScript

namespace Instruction

/-- An instruction with a distance is the jump over it, because the two bytes of the
operand are determined by the distance that they hold. -/
theorem eq_jumping {instruction : Instruction} {distance : Int16}
    (jumps : instruction.jumpDistance? = some distance) :
    ∃ kind, instruction = jumping kind distance := by
  obtain ⟨opcode, operand⟩ := instruction
  unfold jumpDistance? at jumps
  split at jumps
  next kind low high isJump twoBytes =>
    have isJump : opcode = .jump kind := isJump
    have twoBytes : operand = [low, high] := twoBytes
    subst isJump twoBytes
    cases jumps
    exact ⟨kind, (jumping_value kind low high).symm⟩
  · cases jumps

/-- Exactly the jumps have a distance, if their operands fit. -/
theorem exists_jumpDistance?_iff {instruction : Instruction}
    (wellFormed : instruction.WellFormed) :
    (∃ distance, instruction.jumpDistance? = some distance) ↔
      instruction.opcode.isJump = true := by
  constructor
  · rintro ⟨distance, jumps⟩
    obtain ⟨kind, rfl⟩ := eq_jumping jumps
    rfl
  · intro isJump
    obtain ⟨opcode, operand⟩ := instruction
    cases opcode with
    | jump kind =>
      have exactly : operand.length = 2 := wellFormed
      obtain ⟨low, high, rfl⟩ := List.length_eq_two.mp exactly
      exact ⟨_, rfl⟩
    | _ => cases isJump

/-- The bytes of an operand behind a blank, and nothing for no bytes. -/
def bytesText (operand : List UInt8) : String :=
  if operand.isEmpty then "" else " " ++ Hex.encode operand

/-- Operands are determined by how their bytes are written. No bytes leave no blank
either, so they are told apart from all others, and these by their digits. -/
theorem bytesText_injective {first second : List UInt8}
    (same : bytesText first = bytesText second) : first = second := by
  have written (byte : UInt8) (later : List UInt8) : bytesText [] ≠ bytesText (byte :: later) := by
    intro nothing
    have characters := congrArg String.toList nothing
    simp [bytesText] at characters
  cases first with
  | nil =>
    cases second with
    | nil => rfl
    | cons byte later => exact absurd same (written byte later)
  | cons byte later =>
    cases second with
    | nil => exact absurd same.symm (written byte later)
    | cons other others =>
      apply Hex.encode_injective
      exact (String.append_right_inj " ").mp same

/-- Instructions with the same opcode and the same operand text are the same.

The opcode decides which of the two forms the text has: jumps, and jumps alone, show a
distance. A distance is determined by its decimal text and makes the jump; bytes are
determined by their digits. That the operands fit is needed for the jumps, since a jump
with one byte would show bytes. -/
theorem eq_of_operandText {first second : Instruction} (firstWellFormed : first.WellFormed)
    (secondWellFormed : second.WellFormed) (opcodes : first.opcode = second.opcode)
    (texts : first.operandText = second.operandText) : first = second := by
  have jumps := exists_jumpDistance?_iff firstWellFormed
  rw [opcodes, ← exists_jumpDistance?_iff secondWellFormed] at jumps
  cases firstJump : first.jumpDistance? with
  | some distance =>
    obtain ⟨other, secondJump⟩ := jumps.mp ⟨distance, firstJump⟩
    obtain ⟨kind, rfl⟩ := eq_jumping firstJump
    obtain ⟨otherKind, rfl⟩ := eq_jumping secondJump
    simp only [operandText, firstJump, secondJump] at texts
    have distances := Int16.toInt_inj.mp
      (Decimal.integer_injective ((String.append_right_inj " ").mp texts))
    have kinds : Opcode.jump kind = .jump otherKind := opcodes
    cases kinds
    rw [distances]
  | none =>
    cases secondJump : second.jumpDistance? with
    | some other =>
      obtain ⟨distance, jump⟩ := jumps.mpr ⟨other, secondJump⟩
      rw [firstJump] at jump
      cases jump
    | none =>
      obtain ⟨opcode, operand⟩ := first
      obtain ⟨otherOpcode, otherOperand⟩ := second
      simp only [operandText, firstJump, secondJump] at texts
      have operands : operand = otherOperand := bytesText_injective texts
      have opcodes : opcode = otherOpcode := opcodes
      rw [opcodes, operands]

/-- An operand text is nothing, or a blank with digits behind it, of which the first may
be a sign. Both forms are of this kind, a distance with decimal digits and bytes with
hexadecimal ones. -/
theorem operandText_cases (instruction : Instruction) :
    instruction.operandText.toList = [] ∨
      ∃ digits, instruction.operandText.toList = ' ' :: digits ∧ digits ≠ [] ∧
        ∀ digit ∈ digits, digit = '-' ∨ digit ∈ Hex.lowerDigits := by
  unfold operandText
  split
  next distance _ =>
    refine .inr ⟨(Decimal.integer distance.toInt).toList, by simp, ?_, ?_⟩
    · rw [Decimal.toList_integer]
      exact List.append_ne_nil_of_right_ne_nil _ (Decimal.natural_ne_nil _)
    · rw [Decimal.toList_integer]
      intro digit member
      rcases List.mem_append.mp member with sign | member
      · split at sign <;> simp at sign
        exact .inl sign
      · exact .inr (Hex.mem_lowerDigits_of_isDigit (Decimal.isDigit_of_mem_natural member))
  · split
    · exact .inl rfl
    next present =>
      have bytes : instruction.operand ≠ [] := by simpa using present
      refine .inr ⟨Hex.digits instruction.operand, by simp [Hex.encode], ?_, ?_⟩
      · exact Hex.digits_ne_nil bytes
      · exact fun digit member => .inr (Hex.mem_lowerDigits_of_mem_digits member)

end Instruction

namespace Located

/-- The parts of a line. -/
theorem toList_line (item : Located) : item.line.toList =
    (Hex.padded 4 item.offset).toList ++
      ':' :: ' ' :: (item.opcode.mnemonic.toList ++ item.operandText.toList) := by
  simp [line]

/-- No line contains a line feed: not the digits of the offset, not the letters and digits
of the mnemonic, and not the operand. -/
theorem lineFeed_not_mem_line (item : Located) : '\n' ∉ item.line.toList := by
  have offset : '\n' ∉ (Hex.padded 4 item.offset).toList := fun member =>
    absurd ((Hex.padded_writes (by decide) item.offset).lowerCase _ member) (by decide)
  have mnemonic : '\n' ∉ item.opcode.mnemonic.toList := fun member =>
    absurd ((Opcode.plain_mnemonic item.opcode).2 _ member) (by decide)
  have operand : '\n' ∉ item.operandText.toList := by
    rcases item.operandText_cases with nothing | ⟨digits, written, _, known⟩
    · simp [nothing]
    · have digit : '\n' ∉ digits := fun member => absurd (known _ member) (by decide)
      simpa [written] using digit
  rw [toList_line]
  simp [offset, mnemonic, operand]

/-- A well-formed instruction is determined by its line. The digits of the offset end at
the colon, and the letters and digits of the mnemonic at the blank or the end.

So equal lines have equal parts. The offsets are not used; the mnemonics give the opcode,
and with the opcode the operand texts give the operand. -/
theorem eq_of_line {first second : Located} (firstWellFormed : first.WellFormed)
    (secondWellFormed : second.WellFormed) (lines : first.line = second.line) :
    first.toInstruction = second.toInstruction := by
  have characters := congrArg String.toList lines
  rw [toList_line, toList_line] at characters
  have digits (item : Located) : ∀ char ∈ (Hex.padded 4 item.offset).toList,
      decide (char ∈ Hex.lowerDigits) = true := fun char member =>
    decide_eq_true ((Hex.padded_writes (by decide) item.offset).lowerCase char member)
  have colon (rest : List Char) : ∀ char ∈ (':' :: rest).head?,
      decide (char ∈ Hex.lowerDigits) = false := by
    rintro char ⟨⟩
    decide
  obtain ⟨_, behind⟩ := Text.append_inj_of_front (digits first) (digits second)
    (colon _) (colon _) characters
  have plain (item : Located) : ∀ char ∈ item.opcode.mnemonic.toList,
      (char.isUpper || char.isDigit) = true := fun char member => by
    simpa using (Opcode.plain_mnemonic item.opcode).2 char member
  have blank (item : Located) : ∀ char ∈ item.operandText.toList.head?,
      (char.isUpper || char.isDigit) = false := by
    rcases item.operandText_cases with nothing | ⟨digits, written, _⟩
    · simp [nothing]
    · rw [written]
      rintro char ⟨⟩
      decide
  obtain ⟨mnemonics, operands⟩ := Text.append_inj_of_front (plain first) (plain second)
    (blank first) (blank second) (List.cons.inj (List.cons.inj behind).2).2
  have opcodes : first.opcode = second.opcode :=
    Opcode.mnemonic_injective (String.toList_injective mnemonics)
  exact Instruction.eq_of_operandText firstWellFormed secondWellFormed opcodes
    (String.toList_injective operands)

/-- A line begins with the offset of the instruction, in at least four lower-case
hexadecimal digits and with a colon behind them. -/
def BeginsLine (item : Located) (line : String) : Prop :=
  ∃ digits rest, line.toList = digits ++ ':' :: rest ∧ Hex.Writes 4 item.offset digits

/-- The line of an instruction begins with its offset. -/
theorem beginsLine_line (item : Located) : item.BeginsLine item.line :=
  ⟨_, _, item.toList_line, Hex.padded_writes (by decide) item.offset⟩

end Located

/-- The characters of a listing are those of its lines, each with a line feed behind it. -/
theorem toList_listing_cons (item : Located) (later : List Located) :
    (listing (item :: later)).toList = item.line.toList ++ '\n' :: (listing later).toList := by
  simp [listing]

/-- Well-formed instructions are determined by their listing: the first line feed ends the
line of the first instruction, and the listing of the others stands behind it. By
induction on the instructions of one of the two; an empty listing has no line feed. -/
theorem eq_of_listing {first second : List Located}
    (firstWellFormed : ∀ item ∈ first, item.WellFormed)
    (secondWellFormed : ∀ item ∈ second, item.WellFormed)
    (same : listing first = listing second) :
    first.map Located.toInstruction = second.map Located.toInstruction := by
  have nonempty (item : Located) (later : List Located) : listing [] ≠ listing (item :: later) := by
    intro nothing
    have characters := congrArg String.toList nothing
    rw [toList_listing_cons] at characters
    simp [listing] at characters
  induction first generalizing second with
  | nil =>
    cases second with
    | nil => rfl
    | cons other others => exact absurd same (nonempty other others)
  | cons item later inductionHypothesis =>
    cases second with
    | nil => exact absurd same.symm (nonempty item later)
    | cons other others =>
      obtain ⟨itemWellFormed, laterWellFormed⟩ := List.forall_mem_cons.mp firstWellFormed
      obtain ⟨otherWellFormed, othersWellFormed⟩ := List.forall_mem_cons.mp secondWellFormed
      have characters := congrArg String.toList same
      rw [toList_listing_cons, toList_listing_cons] at characters
      have inLine (item : Located) : ∀ char ∈ item.line.toList, (char != '\n') = true := by
        intro char member
        rw [bne_iff_ne]
        rintro rfl
        exact item.lineFeed_not_mem_line member
      have lineFeed (rest : List Char) : ∀ char ∈ ('\n' :: rest).head?,
          (char != '\n') = false := by
        rintro char ⟨⟩
        rfl
      obtain ⟨lines, rests⟩ := Text.append_inj_of_front (inLine item) (inLine other)
        (lineFeed _) (lineFeed _) characters
      have rests : listing later = listing others :=
        String.toList_injective (List.cons.inj rests).2
      rw [List.map_cons, List.map_cons,
        Located.eq_of_line itemWellFormed otherWellFormed (String.toList_injective lines),
        inductionHypothesis laterWellFormed othersWellFormed rests]

/-- The listing of a script that can be read is the listing of its row, and no other
script has one. -/
theorem disassemble_eq_ok_iff (script : List UInt8) (text : String) :
    disassemble script = .ok text ↔ ∃ row, (∀ instruction ∈ row, instruction.WellFormed) ∧
      script = assemble row ∧ text = listing (locate 0 row) := by
  unfold disassemble
  constructor
  · intro listed
    cases decoded : decode script with
    | error fault =>
      rw [decoded] at listed
      cases listed
    | ok items =>
      obtain ⟨row, wellFormed, written, rfl⟩ := (decode_eq_ok_iff script items).mp decoded
      rw [decoded] at listed
      cases listed
      exact ⟨row, wellFormed, written, rfl⟩
  · rintro ⟨row, wellFormed, rfl, rfl⟩
    rw [decode_assemble wellFormed]
    rfl

/-- A listing loses nothing. A script has no listing exactly if reading it ends in a
fault, and then the fault is the same. Otherwise its listing is one line for each
instruction in their order, every line ends with a line feed and contains no other, and
begins with the offset of its instruction. No two scripts have the same listing.

The last part goes back from the text to the script: the listing determines the
instructions, and a script that has a listing is the row of its instructions. -/
theorem listing_determines_script :
    (∀ script fault, disassemble script = .error fault ↔
      (read script).failure = some fault) ∧
    (∀ script, (read script).failure = none → ∃ lines : List String,
      disassemble script = .ok (String.join (lines.map (· ++ "\n"))) ∧
        (∀ line ∈ lines, '\n' ∉ line.toList) ∧
        List.Forall₂ Located.BeginsLine (read script).instructions lines) ∧
    (∀ script other text, disassemble script = .ok text → disassemble other = .ok text →
      script = other) := by
  refine ⟨?_, ?_, ?_⟩
  · intro script fault
    rw [disassemble, decode, Reading.result]
    cases (read script).failure <;> simp [Except.map]
  · intro script ended
    refine ⟨(read script).instructions.map Located.line, ?_, ?_, ?_⟩
    · rw [disassemble, decode, Reading.result, ended, List.map_map]
      rfl
    · intro line member
      obtain ⟨item, _, rfl⟩ := List.mem_map.mp member
      exact item.lineFeed_not_mem_line
    · apply List.forall₂_map_right_iff.mpr
      apply List.forall₂_same.mpr
      intro item _
      exact item.beginsLine_line
  · intro script other text listed otherListed
    obtain ⟨row, wellFormed, rfl, rfl⟩ := (disassemble_eq_ok_iff script text).mp listed
    obtain ⟨otherRow, otherWellFormed, rfl, same⟩ :=
      (disassemble_eq_ok_iff other _).mp otherListed
    have rows := eq_of_listing
      (fun item member => wellFormed _ (mem_of_mem_locate member))
      (fun item member => otherWellFormed _ (mem_of_mem_locate member)) same
    rw [map_locate, map_locate] at rows
    rw [rows]

/-- A push in a wider form than needed and a jump backwards have a listing that no other
script has, with a line for each; a script that is cut off has none. -/
theorem listing_of_wide_push_and_jump :
    let script : List UInt8 := [0x4c, 1, 7, 0x62, 0xfe, 0xff]
    let text := "0000: PUSHDATA1 0107\n0003: JMP -2\n"
    disassemble script = .ok text ∧
      (∃ lines : List String, lines.length = 2 ∧
        List.Forall₂ Located.BeginsLine (read script).instructions lines) ∧
      (∀ other, disassemble other = .ok text → other = script) ∧
      disassemble [0x51, 0x05, 0x01] = .error (.unexpectedEnd 1) := by
  intro script text
  obtain ⟨faults, lists, determined⟩ := listing_determines_script
  have listed : disassemble script = .ok text := by decide +kernel
  have ended : (read script).failure = none := by decide +kernel
  have two : (read script).instructions.length = 2 := by decide +kernel
  obtain ⟨lines, _, _, begins⟩ := lists script ended
  refine ⟨listed, ⟨lines, ?_, begins⟩, ?_, ?_⟩
  · rw [← begins.length_eq, two]
  · intro other otherListed
    exact determined other script text otherListed listed
  · exact (faults _ _).mpr (by decide +kernel)

end ContractScript
