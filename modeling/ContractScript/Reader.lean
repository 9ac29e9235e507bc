import ContractScript.Cursor

/-!
# Reading in place

A reader holds a whole script and the place up to which it was read, and takes bytes out of
the script by their places. Bytes that do not lie in the script cannot be taken: then the
work has no result at all, and this is not a fault. A fault is a result like any other. It
leaves the reader at the place that was reached, which may lie within an instruction.

A cursor is what this work comes to when the bytes not read yet are carried along, and calls
of either can be made any number of times.
-/

namespace ContractScript

/-- What a call yields: nothing any more, or an instruction, or the fault that ends the
reading. -/
abbrev Answer := Option (Except ScriptError Located)

namespace Cursor

/-- Ask for the next instruction. A cursor that yields nothing stays as it is. -/
def call (cursor : Cursor) : Answer × Cursor :=
  match cursor.next with
  | none => (none, cursor)
  | some (answer, after) => (some answer, after)

/-- Ask any number of times, whatever the answers are. -/
def calls : Nat → Cursor → List Answer × Cursor
  | 0, cursor => ([], cursor)
  | count + 1, cursor =>
    let (answer, after) := cursor.call
    let (answers, last) := calls count after
    (answer :: answers, last)

end Cursor

/-- A script and the place up to which it was read. -/
structure Reader where
  script : List UInt8
  position : Nat
  /-- Reading has met a fault. -/
  stopped : Bool

namespace Reader

/-- The reader in front of a script. -/
def start (script : List UInt8) : Reader :=
  ⟨script, 0, false⟩

/-- Work on a reader. A fault keeps the place that was reached, and bytes that do not exist
leave no result. -/
abbrev Work := ExceptT ScriptError (StateT Reader Option)

namespace Work

/-- Use bytes that have to exist. -/
def access {α : Type} (found : Option α) : Work α :=
  ExceptT.lift (StateT.lift found)

/-- The bytes of a script from one place up to another. -/
def between? (script : List UInt8) (first last : Nat) : Option (List UInt8) :=
  if first ≤ last ∧ last ≤ script.length then some ((script.take last).drop first) else none

/-- A field of the given width, filled up with zeros to eight bytes. -/
def widened? (width : Nat) (field : List UInt8) : Option (List UInt8) :=
  if field.length = width ∧ width ≤ 8 then some (field ++ List.replicate (8 - width) 0) else none

/-- Take the next bytes, if the script has that many, and go on behind them. A fault names
the offset of the instruction that they belong to. -/
def take (count offset : Nat) : Work (List UInt8) := do
  let reader ← get
  -- Places are natural numbers, so the sum is never too large to be compared.
  let last := reader.position + count
  if last ≤ reader.script.length then
    let bytes ← access (between? reader.script reader.position last)
    set { reader with position := last }
    return bytes
  else throw (.unexpectedEnd offset)

/-- The number in a length field of the given width. -/
def number (width : Nat) (field : List UInt8) : Work Nat := do
  let widened ← access (widened? width field)
  return LittleEndian.value widened

/-- The number in the first byte of a field. -/
def singleNumber (field : List UInt8) : Work Nat := do
  let byte ← access field[0]?
  return byte.toNat

/-- Take the operand of an instruction. -/
def takeOperand (offset : Nat) : Layout → Work Unit
  | .bare => return
  | .payload count => discard (take count offset)
  | .counted field => do
    let length ← take field.width offset
    let count ← number field.width length
    discard (take count offset)
  | .jumpDistance => discard (take 2 offset)
  | .scriptHash => discard (take 20 offset)
  | .serviceName => do
    let length ← take 1 offset
    let count ← singleNumber length
    discard (take count offset)

/-- Take an instruction. Its operand is what lies between its opcode and the place that was
reached. -/
def takeInstruction : Work Located := do
  let before ← get
  let offset := before.position
  let byte ← access before.script[offset]?
  match Opcode.ofByte? byte with
  | none => throw (.unknownOpcode byte offset)
  | some opcode =>
    set { before with position := offset + 1 }
    takeOperand offset opcode.layout
    let after ← get
    let operand ← access (between? after.script (offset + 1) after.position)
    return ⟨⟨opcode, operand⟩, offset⟩

end Work

/-- Do work, if all bytes that it uses exist. -/
def run {α : Type} (reader : Reader) (work : Work α) : Option (Except ScriptError α × Reader) :=
  (ExceptT.run work).run reader

/-- Ask for the next instruction. -/
def call (reader : Reader) : Option (Answer × Reader) :=
  if reader.stopped ∨ reader.script.length ≤ reader.position then some (none, reader)
  else match reader.run Work.takeInstruction with
    | none => none
    | some (.ok item, after) => some (some (.ok item), { after with stopped := false })
    | some (.error fault, after) => some (some (.error fault), { after with stopped := true })

/-- Ask any number of times, if all bytes that are used exist. -/
def calls : Nat → Reader → Option (List Answer × Reader)
  | 0, reader => some ([], reader)
  | count + 1, reader =>
    match reader.call with
    | none => none
    | some (answer, after) =>
      (calls count after).map fun (answers, last) => (answer :: answers, last)

end Reader

end ContractScript
