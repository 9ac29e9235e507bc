import ContractScript.LittleEndian
import ContractScript.Opcode

/-!
# Instructions

An instruction is an opcode with the bytes of its operand, length fields
included. An operand fits its opcode when it has exactly the measure that the
opcode announces; an instruction is well formed when its operand fits. Writing an
instruction puts the opcode byte in front of the operand and does not ask for
this.

`pushing?` is the shortest instruction that pushes a given payload, and
`pushData?` reads the payload of a push back.
-/

namespace ContractScript

/-- An operand has exactly the measure of an extent. -/
def Extent.Fits : Extent → List UInt8 → Prop
  | fixed count, operand => operand.length = count
  | counted field, operand =>
    (operand.take field.width).length = field.width ∧
      LittleEndian.value (operand.take field.width) = (operand.drop field.width).length

/-- The measure of an operand can be checked. -/
instance (extent : Extent) (operand : List UInt8) : Decidable (extent.Fits operand) :=
  match extent with
  | .fixed count => inferInstanceAs (Decidable (operand.length = count))
  | .counted _ => inferInstanceAs (Decidable (_ ∧ _))

/-- An opcode and the bytes that follow it up to the next opcode. -/
structure Instruction where
  opcode : Opcode
  /-- Everything after the opcode byte, a length field included. -/
  operand : List UInt8
  deriving DecidableEq

namespace Instruction

/-- The operand has the measure that the opcode announces. -/
def WellFormed (instruction : Instruction) : Prop :=
  instruction.opcode.extent.Fits instruction.operand

/-- Well-formedness can be checked. -/
instance (instruction : Instruction) : Decidable instruction.WellFormed :=
  inferInstanceAs (Decidable (instruction.opcode.extent.Fits instruction.operand))

/-- The bytes of an instruction in a script. -/
def encode (instruction : Instruction) : List UInt8 :=
  instruction.opcode.byte :: instruction.operand

/-- The number of bytes of an instruction in a script. -/
def size (instruction : Instruction) : Nat :=
  1 + instruction.operand.length

/-- The payload of a data push without its length field; the empty push has the
empty payload whatever follows its opcode, and a pushed number is no data. -/
def pushData? (instruction : Instruction) : Option (List UInt8) :=
  match instruction.opcode with
  | .pushBytes count => some (if count.val = 0 then [] else instruction.operand)
  | .pushCounted field =>
    if (instruction.operand.take field.width).length = field.width then
      some (instruction.operand.drop field.width)
    else none
  | _ => none

/-- The signed distance of a jump. -/
def jumpDistance? (instruction : Instruction) : Option Int16 :=
  match instruction.opcode, instruction.operand with
  | .jump _, [low, high] => some (Int16.ofNat (LittleEndian.value [low, high]))
  | _, _ => none

/-- The relative jump of some kind over a signed distance. -/
def jumping (kind : Jump) (distance : Int16) : Instruction :=
  ⟨.jump kind, LittleEndian.bytes 2 distance.toBitVec.toNat⟩

/-- The shortest instruction that pushes a payload; none holds four gigabytes or more. -/
def pushing? (data : List UInt8) : Option Instruction :=
  let length := data.length
  if short : length < 76 then some ⟨.pushBytes ⟨length, short⟩, data⟩
  else (LengthField.narrowest? length).map fun field =>
    ⟨.pushCounted field, LittleEndian.bytes field.width length ++ data⟩

/-- Writing an instruction takes its size. -/
@[simp] theorem length_encode (instruction : Instruction) :
    instruction.encode.length = instruction.size := by
  simp [encode, size, Nat.add_comm]

/-- An inline push that has as many bytes as its opcode says holds all of them. The empty
push is no exception then, because its operand is empty as well. -/
theorem pushData?_inline {count : Fin 76} {operand : List UInt8}
    (exactly : operand.length = count) :
    pushData? ⟨.pushBytes count, operand⟩ = some operand := by
  rw [pushData?, Option.some.injEq]
  split
  next zero => exact (List.eq_nil_of_length_eq_zero (exactly.trans zero)).symm
  · rfl

/-- A jump holds its distance: the two bytes of its operand are the bits of the signed
word, lower byte first, and sixteen bits determine the word. -/
theorem jumpDistance?_jumping (kind : Jump) (distance : Int16) :
    (jumping kind distance).jumpDistance? = some distance := by
  have bounded : distance.toBitVec.toNat < 65536 := distance.toBitVec.isLt
  have fits := LittleEndian.value_bytes 2 distance.toBitVec.toNat bounded
  simp only [LittleEndian.bytes] at fits
  simp only [jumpDistance?, jumping, LittleEndian.bytes, fits, Option.some.injEq]
  apply Int16.toBitVec_inj.mp
  apply BitVec.eq_of_toNat_eq
  simp

/-- A jump is well formed. -/
theorem wellFormed_jumping (kind : Jump) (distance : Int16) :
    (jumping kind distance).WellFormed := by
  simp [WellFormed, jumping, Opcode.extent, Opcode.layout, Layout.extent, Extent.Fits]

end Instruction

end ContractScript
