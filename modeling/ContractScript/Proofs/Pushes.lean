import ContractScript.Parameter.Meaning
import ContractScript.Proofs.Appending
import ContractScript.Proofs.SignedIntegers

/-!
# Single pushes

Every item that is no array is pushed by one instruction, which depends on the item
alone and not on the value it came from. The instruction is well formed, acts on a
stack by pushing exactly that item, and is missing only for a payload that no length
field can announce.

The laws for pushing payloads, integers and truth values say which row of one
instruction is emitted, or with which fault nothing is.
-/

namespace ContractScript

/-- A field that was chosen as the narrowest holds the length. The choice tries one, two
and four bytes in this order, and every branch that yields a field has just compared the
length with its limit. -/
theorem LengthField.lt_limit_of_narrowest? {length : Nat} {field : LengthField}
    (found : narrowest? length = some field) : length < field.limit := by
  unfold narrowest? at found
  split at found
  next fits =>
    cases found
    exact fits
  · split at found
    next fits =>
      cases found
      exact fits
    · split at found
      next fits =>
        cases found
        exact fits
      · cases found

/-- Only the widest field decides whether any field holds a length: the narrower ones are
tried first, but where they fail the next is tried, and the limits grow with the width. -/
theorem LengthField.exists_narrowest? {length : Nat} (bounded : length < four.limit) :
    ∃ field, narrowest? length = some field := by
  unfold narrowest?
  rw [if_pos bounded]
  split
  · exact ⟨one, rfl⟩
  · split
    · exact ⟨two, rfl⟩
    · exact ⟨four, rfl⟩

/-- The widest field holds every length that a narrower one holds. -/
theorem LengthField.limit_le_four (field : LengthField) : field.limit ≤ four.limit := by
  cases field <;> decide

namespace Instruction

/-- A push is inline, or announces the length of its payload in the narrowest field. The
two cases exclude each other: up to 75 bytes the opcode is the length itself, and from 76
bytes on no opcode of that kind is left. -/
theorem pushing?_cases {data : List UInt8} {push : Instruction}
    (chosen : pushing? data = some push) :
    (∃ short : data.length < 76, push = ⟨.pushBytes ⟨data.length, short⟩, data⟩) ∨
      (76 ≤ data.length ∧ ∃ field, LengthField.narrowest? data.length = some field ∧
        push = ⟨.pushCounted field, LittleEndian.bytes field.width data.length ++ data⟩) := by
  simp only [pushing?] at chosen
  split at chosen
  next short =>
    cases chosen
    exact .inl ⟨short, rfl⟩
  next long =>
    obtain ⟨field, found, rfl⟩ := Option.map_eq_some_iff.mp chosen
    exact .inr ⟨Nat.le_of_not_lt long, field, found, rfl⟩

/-- Exactly the payloads below the limit can be pushed. A push that was chosen is inline,
hence far below the limit, or has a field that holds the length, and none holds more than
the widest; the other way the widest field is there when the narrower ones are too
small. -/
theorem exists_pushing?_iff (data : List UInt8) :
    (∃ push, pushing? data = some push) ↔ data.length < Parameter.payloadLimit := by
  constructor
  · rintro ⟨push, chosen⟩
    rcases pushing?_cases chosen with ⟨short, _⟩ | ⟨_, field, found, _⟩
    · exact Nat.lt_trans short (by decide)
    · exact Nat.lt_of_lt_of_le (LengthField.lt_limit_of_narrowest? found) field.limit_le_four
  · intro bounded
    simp only [pushing?]
    split
    · exact ⟨_, rfl⟩
    · obtain ⟨field, found⟩ := LengthField.exists_narrowest? bounded
      exact ⟨_, by rw [found]; rfl⟩

/-- A chosen push is well formed: its length field holds the length of the payload. For an
inline push the opcode says the width. For an announced one the operand splits behind the
field, whose little-endian value is the length because the length is below the limit of
the field. -/
theorem wellFormed_of_pushing? {data : List UInt8} {push : Instruction}
    (chosen : pushing? data = some push) : push.WellFormed := by
  rcases pushing?_cases chosen with ⟨short, rfl⟩ | ⟨_, field, found, rfl⟩
  · simp [WellFormed, Extent.Fits]
  · have announced := LittleEndian.value_bytes field.width data.length
      (LengthField.lt_limit_of_narrowest? found)
    have width := LittleEndian.length_bytes field.width data.length
    simp only [WellFormed, Opcode.extent, Opcode.layout, Layout.extent, Extent.Fits,
      List.take_left' width, List.drop_left' width]
    exact ⟨width, announced⟩

/-- A chosen push holds its payload: the operand itself if it is inline, and otherwise the
operand without the length field in front. -/
theorem pushData?_of_pushing? {data : List UInt8} {push : Instruction}
    (chosen : pushing? data = some push) : push.pushData? = some data := by
  rcases pushing?_cases chosen with ⟨short, rfl⟩ | ⟨_, field, found, rfl⟩
  · exact pushData?_inline rfl
  · have width := LittleEndian.length_bytes field.width data.length
    simp only [pushData?, List.take_left' width, List.drop_left' width, width, if_pos]

/-- A chosen push neither pushes a number nor does anything but push. -/
theorem opcode_of_pushing? {data : List UInt8} {push : Instruction}
    (chosen : pushing? data = some push) :
    push.opcode.number? = none ∧ push.opcode.isPush = true := by
  rcases pushing?_cases chosen with ⟨short, rfl⟩ | ⟨_, field, found, rfl⟩ <;> exact ⟨rfl, rfl⟩

end Instruction

/-- A number with an opcode of its own is one above one of sixteen. -/
theorem toNat_predecessor_lt {value : Int} (small : 1 ≤ value ∧ value ≤ 16) :
    (value - 1).toNat < 16 := by
  omega

/-- The instruction that pushes an item, if a single one can: numbers outside the
range of the opcodes are pushed as bytes, and arrays have to be packed. -/
def Item.push? : Item → Option Instruction
  | number value =>
    if value = -1 then some ⟨.pushMinusOne, []⟩
    else if small : 1 ≤ value ∧ value ≤ 16 then
      some ⟨.pushNumber ⟨(value - 1).toNat, toNat_predecessor_lt small⟩, []⟩
    else none
  | bytes data => Instruction.pushing? data
  | array _ => none

/-- The instruction of an item is well formed, pushes something, and pushes that item.

Arrays have no such instruction. Bytes are pushed by a chosen push, for which each part
was shown above. A number has an instruction if it is minus one, where all three parts are
computed, or one of sixteen, where the opcode counts from zero and one is added again on
the way back. -/
theorem Item.push?_spec {item : Item} {push : Instruction} (chosen : item.push? = some push) :
    push.WellFormed ∧ push.opcode.isPush = true ∧ push.pushed? = some item := by
  cases item with
  | array elements => cases chosen
  | bytes data =>
    obtain ⟨constant, pushes⟩ := Instruction.opcode_of_pushing? chosen
    refine ⟨Instruction.wellFormed_of_pushing? chosen, pushes, ?_⟩
    simp [Instruction.pushed?, constant, Instruction.pushData?_of_pushing? chosen]
  | number value =>
    simp only [push?] at chosen
    split at chosen
    next minusOne =>
      cases chosen
      subst minusOne
      exact ⟨rfl, rfl, rfl⟩
    · split at chosen
      next small =>
        cases chosen
        refine ⟨rfl, rfl, ?_⟩
        have restored : ((value - 1).toNat : Int) + 1 = value := by omega
        exact congrArg (fun number => some (Item.number number)) restored
      · cases chosen

/-- Replaying the instruction of an item puts the item on top of the stack, whatever lies
below. The instruction is a push, so it is not the one that packs an array, and what it
pushes is the item. -/
theorem Item.act?_push {item : Item} {push : Instruction} (chosen : item.push? = some push)
    (stack : List Item) : push.act? stack = some (item :: stack) := by
  obtain ⟨_, pushes, pushed⟩ := push?_spec chosen
  have noPack : push.opcode ≠ .plain .pack := by
    intro packs
    rw [packs] at pushes
    cases pushes
  simp [Instruction.act?, noPack, pushed]

namespace Emission

/-- An emission pushes an item whose payload has this length: by the instruction of the
item if the length lies below the limit, and otherwise it adds nothing and stops with
the length. -/
def Pushes (emission : Emission) (item : Item) (length : Nat) : Prop :=
  (length < Parameter.payloadLimit ∧
    ∃ push, item.push? = some push ∧ emission = row [push]) ∨
  (Parameter.payloadLimit ≤ length ∧ emission = failed (.payloadTooLong length))

/-- Below the limit the emission is the instruction of the item, which exists there. -/
theorem Pushes.exists_push {emission : Emission} {item : Item} {length : Nat}
    (pushes : emission.Pushes item length) (bounded : length < Parameter.payloadLimit) :
    ∃ push, item.push? = some push ∧ emission = row [push] := by
  rcases pushes with ⟨_, pushed⟩ | ⟨exceeded, _⟩
  · exact pushed
  · omega

/-- The emission succeeds exactly below the limit, since the only fault a push can have is
a payload that is too long. -/
theorem Pushes.succeeds_iff {emission : Emission} {item : Item} {length : Nat}
    (pushes : emission.Pushes item length) :
    emission.failure = none ↔ length < Parameter.payloadLimit := by
  rcases pushes with ⟨bounded, push, _, rfl⟩ | ⟨exceeded, rfl⟩
  · simp [row, bounded]
  · simp [failed, exceeded]

/-- A payload is pushed as the bytes it is. A push that was found shows that the payload
is below the limit, and a missing one that it is not, because below the limit one
exists. -/
theorem pushData_pushes (data : List UInt8) : (pushData data).Pushes (.bytes data) data.length := by
  unfold pushData
  split
  next push chosen =>
    exact .inl ⟨(Instruction.exists_pushing?_iff data).mp ⟨push, chosen⟩, push, chosen,
      instruction_eq_row push⟩
  next missing =>
    refine .inr ⟨?_, rfl⟩
    apply Nat.le_of_not_lt
    intro bounded
    obtain ⟨push, chosen⟩ := (Instruction.exists_pushing?_iff data).mpr bounded
    rw [missing] at chosen
    cases chosen

/-- A truth value is pushed by the instruction of its item. -/
theorem pushBoolean_row (value : Bool) :
    ∃ push, (if value then Item.number 1 else .bytes []).push? = some push ∧
      pushBoolean value = row [push] := by
  cases value with
  | false => exact ⟨_, rfl, instruction_eq_row _⟩
  | true => exact ⟨_, rfl, instruction_eq_row _⟩

/-- An integer is pushed as its item, and its bytes are counted.

The numbers with an opcode of their own have a single byte, so that they are never
stopped: minus one, zero and one to sixteen are told apart as the builder tells them
apart. Every other number is pushed as the payload of its signed bytes, for which the law
of payloads holds. -/
theorem pushInteger_pushes (number : Int) :
    (pushInteger number).Pushes (Parameter.integerItem number)
      (SignedBytes.encode number).length := by
  by_cases constant : -1 ≤ number ∧ number ≤ 16
  · left
    have single : (SignedBytes.encode number).length ≤ 0 + 1 :=
      SignedBytes.length_encode_le (by simp only [LittleEndian.limit]; omega)
        (by simp only [LittleEndian.limit]; omega)
    refine ⟨Nat.lt_of_le_of_lt single (by decide), ?_⟩
    unfold pushInteger Parameter.integerItem
    by_cases minusOne : number = -1
    · subst minusOne
      exact ⟨_, rfl, instruction_eq_row _⟩
    · by_cases zero : number = 0
      · subst zero
        exact ⟨_, rfl, instruction_eq_row _⟩
      · have small : 1 ≤ number ∧ number ≤ 16 := by omega
        simp only [minusOne, zero, constant, small, and_self, ↓reduceIte, ↓reduceDIte, Item.push?]
        exact ⟨_, rfl, instruction_eq_row _⟩
  · have numberItem : Parameter.integerItem number = .bytes (SignedBytes.encode number) := by
      have nonzero : number ≠ 0 := by omega
      simp [Parameter.integerItem, nonzero, constant]
    have asData : pushInteger number = pushData (SignedBytes.encode number) := by
      have notMinusOne : number ≠ -1 := by omega
      have nonzero : number ≠ 0 := by omega
      have large : ¬(1 ≤ number ∧ number ≤ 16) := by omega
      simp [pushInteger, notMinusOne, nonzero, large]
    rw [numberItem, asData]
    exact pushData_pushes (SignedBytes.encode number)

end Emission

end ContractScript
