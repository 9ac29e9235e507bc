import ContractScript.Cursor
import ContractScript.SignedBytes

/-!
# The stack that a push script leaves

Scripts that only push and pack are given a meaning here: replaying them on a
stack of items leaves the items that a contract will see. A stack is written with
its top in front. Packing takes a count off and then as many items, the first of
which becomes the first element. Any other instruction, a missing item or a count
that is no number leaves no stack.
-/

namespace ContractScript

/-- What a stack holds. -/
inductive Item
  | number (value : Int)
  | bytes (data : List UInt8)
  | array (elements : List Item)

/-- The number that an item stands for; bytes are read as a signed number. -/
def Item.integer? : Item → Option Int
  | number value => some value
  | bytes data => some (SignedBytes.value data)
  | array _ => none

/-- Pack the items on a stack into an array, their count being on top. -/
def pack? : List Item → Option (List Item)
  | [] => none
  | top :: below =>
    match top.integer? with
    | none => none
    | some count =>
      if 0 ≤ count ∧ count ≤ below.length then
        some (.array (below.take count.toNat) :: below.drop count.toNat)
      else none

namespace Instruction

/-- The item that an instruction pushes. -/
def pushed? (instruction : Instruction) : Option Item :=
  match instruction.opcode.number? with
  | some number => some (.number number)
  | none => instruction.pushData?.map .bytes

/-- The number that an instruction pushes. -/
def integer? (instruction : Instruction) : Option Int :=
  instruction.pushed?.bind Item.integer?

/-- The stack after an instruction that pushes or packs. -/
def act? (instruction : Instruction) (stack : List Item) : Option (List Item) :=
  if instruction.opcode = .plain .pack then pack? stack
  else instruction.pushed?.map (· :: stack)

end Instruction

/-- The stack after a list of instructions that push and pack. -/
def replay? (instructions : List Instruction) (stack : List Item) : Option (List Item) :=
  instructions.foldlM (fun current instruction => instruction.act? current) stack

/-- Replaying one list of instructions after another is replaying both together. -/
theorem replay?_append (first second : List Instruction) (stack : List Item) :
    replay? (first ++ second) stack = (replay? first stack).bind (replay? second) := by
  simp only [replay?, List.foldlM_append]
  rfl

end ContractScript
