import ContractScript.Cursor

/-!
# Listing of a script

One line for each instruction: the offset in at least four lower-case digits, the
mnemonic, and the operand if there is one, as a signed distance for a jump and as
the bytes for all others. Every line ends with a line feed. A script that cannot
be read to its end has no listing, only the fault.
-/

namespace ContractScript

/-- The operand of an instruction as it stands in a listing, after a blank. -/
def Instruction.operandText (instruction : Instruction) : String :=
  match instruction.jumpDistance? with
  | some distance => " " ++ Decimal.integer distance.toInt
  | none => if instruction.operand.isEmpty then "" else " " ++ Hex.encode instruction.operand

/-- The line of an instruction, without the line feed. -/
def Located.line (item : Located) : String :=
  Hex.padded 4 item.offset ++ ": " ++ item.opcode.mnemonic ++ item.operandText

/-- The lines of a list of instructions, each ended by a line feed. -/
def listing (items : List Located) : String :=
  String.join (items.map fun item => item.line ++ "\n")

/-- The listing of a script. -/
def disassemble (script : List UInt8) : Except ScriptError String :=
  (decode script).map listing

end ContractScript
