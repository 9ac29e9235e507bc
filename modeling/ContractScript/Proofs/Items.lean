import ContractScript.Proofs.Pushes

/-!
# Items as rows of instructions

Every item that can be pushed has one row of instructions, which is built from the
item alone: an array by the rows of its elements, the last element first, their
count and the packing. Replaying the row on any stack puts exactly that item on top.

An encodable parameter is pushed by the row of its item. This splits the encoder in
two: what a parameter means, and how that is written. Parameters that mean the same
are written alike, and what is written always means the item.
-/

namespace ContractScript

/-- A well-formed instruction that pushes or packs. -/
def Instruction.Builds (instruction : Instruction) : Prop :=
  instruction.WellFormed ∧
    (instruction.opcode.isPush = true ∨ instruction.opcode = .plain .pack)

/-- The instruction that packs an array. -/
def Instruction.packing : Instruction :=
  ⟨.plain .pack, []⟩

namespace Item

mutual

/-- The instructions that leave an item on a stack, if it can be pushed. -/
def pushes? : Item → Option (List Instruction)
  | number value => (number value).push?.map fun push => [push]
  | bytes data => (bytes data).push?.map fun push => [push]
  | array elements =>
    match pushesLastToFirst? elements, (Parameter.integerItem elements.length).push? with
    | some pushed, some count => some (pushed ++ [count, Instruction.packing])
    | _, _ => none

/-- The instructions that leave items on a stack, the first of them on top. -/
def pushesLastToFirst? : List Item → Option (List Instruction)
  | [] => some []
  | first :: later =>
    match pushesLastToFirst? later, pushes? first with
    | some below, some top => some (below ++ top)
    | _, _ => none

end

/-- The row of an item that takes one instruction is that instruction. -/
theorem pushes?_of_push? {item : Item} {push : Instruction} (chosen : item.push? = some push) :
    item.pushes? = some [push] := by
  cases item with
  | number value => rw [pushes?, chosen, Option.map_some]
  | bytes data => rw [pushes?, chosen, Option.map_some]
  | array elements => cases chosen

/-- The row of an array consists of the rows of its elements, the count and the packing.
There is none if an element has no row or the count cannot be pushed. -/
theorem pushes?_array_iff {elements : List Item} {row : List Instruction} :
    (array elements).pushes? = some row ↔
      ∃ pushed count, pushesLastToFirst? elements = some pushed ∧
        (Parameter.integerItem elements.length).push? = some count ∧
        row = pushed ++ [count, Instruction.packing] := by
  rw [pushes?]
  constructor
  · intro written
    split at written
    next pushed count inner counted =>
      cases written
      exact ⟨pushed, count, inner, counted, rfl⟩
    · cases written
  · rintro ⟨pushed, count, inner, counted, rfl⟩
    rw [inner, counted]

/-- The row of a list of items ends with the row of the first, which is to lie
uppermost. -/
theorem pushesLastToFirst?_cons_iff {first : Item} {later : List Item}
    {row : List Instruction} :
    pushesLastToFirst? (first :: later) = some row ↔
      ∃ below top, pushesLastToFirst? later = some below ∧ first.pushes? = some top ∧
        row = below ++ top := by
  rw [pushesLastToFirst?]
  constructor
  · intro written
    split at written
    next below top laterWritten firstWritten =>
      cases written
      exact ⟨below, top, laterWritten, firstWritten, rfl⟩
    · cases written
  · rintro ⟨below, top, laterWritten, firstWritten, rfl⟩
    rw [laterWritten, firstWritten]

/-- The item of an integer is read back as that integer. -/
theorem integer?_integerItem (number : Int) :
    (Parameter.integerItem number).integer? = some number := by
  unfold Parameter.integerItem
  split
  next zero => simp [integer?, SignedBytes.value, zero]
  · split
    · rfl
    · simp [integer?, SignedBytes.value_encode]

/-- Packing takes as many items off as their count says, in their order. The count is read
from an item, and the stack below the elements is left as it is. -/
theorem pack?_count (elements stack : List Item) :
    pack? (Parameter.integerItem elements.length :: (elements ++ stack)) =
      some (array elements :: stack) := by
  have enough : (0 : Int) ≤ elements.length ∧
      (elements.length : Int) ≤ (elements ++ stack).length := by
    rw [List.length_append]
    omega
  simp only [pack?, integer?_integerItem, enough, and_self, ↓reduceIte, Int.toNat_natCast,
    List.take_left, List.drop_left]

mutual

/-- The instructions of an item push and pack, and nothing else. By cases of the item: an
array packs once, behind the pushes of its count and the instructions of its elements. -/
theorem builds_pushes? (item : Item) {row : List Instruction} (written : item.pushes? = some row) :
    ∀ instruction ∈ row, instruction.Builds := by
  cases item with
  | array elements =>
    obtain ⟨pushed, count, inner, counted, rfl⟩ := pushes?_array_iff.mp written
    obtain ⟨wellFormed, pushes, _⟩ := push?_spec counted
    intro instruction member
    simp only [List.mem_append, List.mem_cons, List.not_mem_nil, or_false] at member
    rcases member with member | rfl | rfl
    · exact builds_pushesLastToFirst? elements inner instruction member
    · exact ⟨wellFormed, .inl pushes⟩
    · exact ⟨by decide, .inr rfl⟩
  | number value | bytes data =>
    obtain ⟨push, chosen, rfl⟩ := Option.map_eq_some_iff.mp written
    obtain ⟨wellFormed, pushes, _⟩ := push?_spec chosen
    simpa using ⟨wellFormed, .inl pushes⟩

/-- The instructions of a list of items push and pack, and nothing else, whether they
belong to the first item or to a later one. -/
theorem builds_pushesLastToFirst? (items : List Item) {row : List Instruction}
    (written : pushesLastToFirst? items = some row) :
    ∀ instruction ∈ row, instruction.Builds := by
  cases items with
  | nil =>
    cases written
    simp
  | cons first later =>
    obtain ⟨below, top, laterWritten, firstWritten, rfl⟩ := pushesLastToFirst?_cons_iff.mp written
    intro instruction member
    rcases List.mem_append.mp member with member | member
    · exact builds_pushesLastToFirst? later laterWritten instruction member
    · exact builds_pushes? first firstWritten instruction member

end

end Item

/-- Replaying no instruction leaves the stack. -/
@[simp] theorem replay?_nil (stack : List Item) : replay? [] stack = some stack := rfl

/-- Replaying starts with the first instruction. -/
@[simp] theorem replay?_cons (instruction : Instruction) (later : List Instruction)
    (stack : List Item) :
    replay? (instruction :: later) stack = (instruction.act? stack).bind (replay? later) := rfl

namespace Item

/-- Counting and packing elements that lie on a stack leaves their array. -/
theorem replay?_count_packing {elements : List Item} {count : Instruction}
    (counted : (Parameter.integerItem elements.length).push? = some count) (stack : List Item) :
    replay? [count, Instruction.packing] (elements ++ stack) = some (array elements :: stack) := by
  have packed : Instruction.packing.act?
      (Parameter.integerItem elements.length :: (elements ++ stack)) =
        some (array elements :: stack) := by
    have packs : Instruction.packing.opcode = .plain .pack := rfl
    rw [Instruction.act?, if_pos packs, pack?_count]
  simp [act?_push counted, packed]

mutual

/-- Replaying the instructions of an item on any stack puts the item on top. For an array
the elements come to lie on the stack first, where the count finds them. That the stack is
arbitrary is needed there, because each element is replayed above the later ones. -/
theorem replay?_pushes? (item : Item) {row : List Instruction} (written : item.pushes? = some row)
    (stack : List Item) : replay? row stack = some (item :: stack) := by
  cases item with
  | array elements =>
    obtain ⟨pushed, count, inner, counted, rfl⟩ := pushes?_array_iff.mp written
    rw [replay?_append, replay?_pushesLastToFirst? elements inner stack, Option.bind_some]
    exact replay?_count_packing counted stack
  | number value | bytes data =>
    obtain ⟨push, chosen, rfl⟩ := Option.map_eq_some_iff.mp written
    simp [act?_push chosen]

/-- Replaying the instructions of a list of items puts the items on top of the stack, the
first of them uppermost: the later ones are replayed before it. -/
theorem replay?_pushesLastToFirst? (items : List Item) {row : List Instruction}
    (written : pushesLastToFirst? items = some row) (stack : List Item) :
    replay? row stack = some (items ++ stack) := by
  cases items with
  | nil =>
    cases written
    rfl
  | cons first later =>
    obtain ⟨below, top, laterWritten, firstWritten, rfl⟩ := pushesLastToFirst?_cons_iff.mp written
    rw [replay?_append, replay?_pushesLastToFirst? later laterWritten stack, Option.bind_some]
    exact replay?_pushes? first firstWritten (later ++ stack)

end

end Item

end ContractScript
