import ContractScript.Decimal
import ContractScript.LittleEndian
import ContractScript.Operator

/-!
# Opcodes and the operands they announce

The first byte of every instruction is its opcode. The bytes up to `0x60` push
constants: a payload whose length is the byte itself or stands in a counted
field, minus one, and the numbers from one to sixteen. The rest are relative
jumps, calls and the operators without an operand. `byte` and `ofByte?` are
inverse to each other; a byte that is no opcode has no `ofByte?`.

The `layout` of an opcode says which operand follows it, and the `extent` of a
layout how to measure that operand: a fixed number of bytes, or a count and as
many bytes as it says.
-/

namespace ContractScript

/-- The width of a length that stands in front of a payload. -/
inductive LengthField
  | one | two | four
  deriving DecidableEq

namespace LengthField

/-- The number of bytes of the length. -/
def width : LengthField → Nat
  | one => 1
  | two => 2
  | four => 4

/-- The lengths below this number fit the field. -/
def limit (field : LengthField) : Nat :=
  LittleEndian.limit field.width

/-- The narrowest field that holds a length, if any does. -/
def narrowest? (length : Nat) : Option LengthField :=
  if length < one.limit then some one
  else if length < two.limit then some two
  else if length < four.limit then some four
  else none

end LengthField

/-- The ways to continue at a place given relative to the instruction. -/
inductive Jump
  | always | ifTrue | ifFalse | subroutine
  deriving DecidableEq

/-- The ways to enter another contract: and come back, or in place of the caller. -/
inductive CallMode
  | call | tailCall
  deriving DecidableEq

/-- The first byte of an instruction. -/
inductive Opcode
  /-- Push the next `count` bytes. -/
  | pushBytes (count : Fin 76)
  /-- Push as many bytes as the field in front of them says. -/
  | pushCounted (field : LengthField)
  | pushMinusOne
  /-- Push the number one above `predecessor`. -/
  | pushNumber (predecessor : Fin 16)
  | jump (kind : Jump)
  | contractCall (mode : CallMode)
  | serviceCall
  | plain (operator : Operator)
  deriving DecidableEq

/-- The operand that follows an opcode, by what it means. -/
inductive Layout
  | bare
  | payload (count : Nat)
  | counted (field : LengthField)
  | jumpDistance
  | scriptHash
  | serviceName
  deriving DecidableEq

/-- The operand that follows an opcode, by how it is measured. -/
inductive Extent
  | fixed (count : Nat)
  | counted (field : LengthField)
  deriving DecidableEq

/-- The measure of each kind of operand. -/
def Layout.extent : Layout → Extent
  | bare => .fixed 0
  | payload count => .fixed count
  | counted field => .counted field
  | jumpDistance => .fixed 2
  | scriptHash => .fixed 20
  | serviceName => .counted .one

namespace Opcode

/-- The opcodes that neither push a short payload nor a number. -/
def others : List Opcode :=
  [.pushCounted .one, .pushCounted .two, .pushCounted .four, .pushMinusOne,
    .jump .always, .jump .ifTrue, .jump .ifFalse, .jump .subroutine,
    .contractCall .call, .serviceCall, .contractCall .tailCall]

/-- The byte that stands for an opcode in a script. -/
def byte : Opcode → UInt8
  | pushBytes count => UInt8.ofNat count
  | pushCounted .one => 0x4c
  | pushCounted .two => 0x4d
  | pushCounted .four => 0x4e
  | pushMinusOne => 0x4f
  | pushNumber predecessor => UInt8.ofNat (0x51 + predecessor)
  | jump .always => 0x62
  | jump .ifTrue => 0x63
  | jump .ifFalse => 0x64
  | jump .subroutine => 0x65
  | contractCall .call => 0x67
  | serviceCall => 0x68
  | contractCall .tailCall => 0x69
  | plain operator => operator.byte

/-- The opcode that a byte stands for. -/
def ofByte? (byte : UInt8) : Option Opcode :=
  if short : byte.toNat < 76 then some (.pushBytes ⟨byte.toNat, short⟩)
  else if numbered : byte.toNat - 0x51 < 16 ∧ 0x51 ≤ byte.toNat then
    some (.pushNumber ⟨byte.toNat - 0x51, numbered.1⟩)
  else match others.find? fun opcode => opcode.byte == byte with
    | some opcode => some opcode
    | none => (Operator.ofByte? byte).map .plain

/-- The name of an opcode in a listing. -/
def mnemonic : Opcode → String
  | pushBytes count =>
    if count.val = 0 then "PUSH0" else "PUSHBYTES" ++ Decimal.natural count
  | pushCounted field => "PUSHDATA" ++ Decimal.natural field.width
  | pushMinusOne => "PUSHM1"
  | pushNumber predecessor => "PUSH" ++ Decimal.natural (predecessor + 1)
  | jump .always => "JMP"
  | jump .ifTrue => "JMPIF"
  | jump .ifFalse => "JMPIFNOT"
  | jump .subroutine => "CALL"
  | contractCall .call => "APPCALL"
  | serviceCall => "SYSCALL"
  | contractCall .tailCall => "TAILCALL"
  | plain operator => operator.mnemonic

/-- The operand that follows an opcode; the empty push is bare. -/
def layout : Opcode → Layout
  | pushBytes count => if count.val = 0 then .bare else .payload count
  | pushCounted field => .counted field
  | jump _ => .jumpDistance
  | contractCall _ => .scriptHash
  | serviceCall => .serviceName
  | pushMinusOne | pushNumber _ | plain _ => .bare

/-- The measure of the operand that follows an opcode. -/
def extent (opcode : Opcode) : Extent :=
  opcode.layout.extent

/-- An opcode jumps relative to its place. -/
def isJump : Opcode → Bool
  | jump _ => true
  | _ => false

/-- An opcode pushes a payload or a number. -/
def isPush : Opcode → Bool
  | pushBytes _ | pushCounted _ | pushMinusOne | pushNumber _ => true
  | _ => false

/-- The number that an opcode pushes by itself. -/
def number? : Opcode → Option Int
  | pushMinusOne => some (-1)
  | pushNumber predecessor => some (predecessor + 1)
  | _ => none

/-- A short push is measured by its count, the empty one included. -/
@[simp] theorem extent_pushBytes (count : Fin 76) :
    (pushBytes count).extent = .fixed count := by
  by_cases empty : count.val = 0 <;> simp [extent, layout, Layout.extent, empty]

/-- Every opcode is found by its byte. The rows of constants are ranges of bytes, which
the comparisons tell apart; the single opcodes and the operators are looked up one by
one. -/
theorem ofByte?_byte (opcode : Opcode) : ofByte? opcode.byte = some opcode := by
  cases opcode with
  | pushBytes count =>
    have bounded := count.isLt
    have value : (UInt8.ofNat count.val).toNat = count.val := by
      rw [UInt8.toNat_ofNat']
      omega
    simp [ofByte?, byte, value]
  | pushNumber predecessor => revert predecessor; decide
  | pushCounted field => cases field <;> decide
  | pushMinusOne => decide
  | jump kind => cases kind <;> decide
  | contractCall mode => cases mode <;> decide
  | serviceCall => decide
  | plain operator => cases operator <;> decide

/-- An opcode that was found has the byte it was looked up by. Follow the lookup: in each
range the opcode is made from the distance to the first byte of the range, and every later
row compares the byte itself. -/
theorem byte_of_ofByte? {byte : UInt8} {opcode : Opcode} (found : ofByte? byte = some opcode) :
    opcode.byte = byte := by
  have bounded := byte.toNat_lt
  unfold ofByte? at found
  split at found
  · cases found
    simp [Opcode.byte]
  · split at found
    next numbered =>
      cases found
      have value : 0x51 + (byte.toNat - 0x51) = byte.toNat := by omega
      simp [Opcode.byte, value]
    · split at found
      next other listed =>
        cases found
        simpa using List.find?_some listed
      · obtain ⟨operator, looked, rfl⟩ := Option.map_eq_some_iff.mp found
        exact Operator.byte_of_ofByte? looked

/-- The opcodes that push are those whose byte is at most that of the number sixteen. The
rows of pushes have all their bytes up to there, and the byte of every other opcode lies
above. -/
theorem isPush_iff (opcode : Opcode) : opcode.isPush = true ↔ opcode.byte.toNat ≤ 0x60 := by
  cases opcode with
  | pushBytes count =>
    have bounded := count.isLt
    simp only [isPush, byte, UInt8.toNat_ofNat', true_iff]
    omega
  | pushNumber predecessor => revert predecessor; decide
  | pushCounted field => cases field <;> decide
  | pushMinusOne => decide
  | jump kind => cases kind <;> decide
  | contractCall mode => cases mode <;> decide
  | serviceCall => decide
  | plain operator =>
    have above := (Operator.ofByte?_byte operator).2
    simp only [isPush, byte, Bool.false_eq_true, false_iff]
    omega

end Opcode

end ContractScript
