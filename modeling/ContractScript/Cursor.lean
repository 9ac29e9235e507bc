import ContractScript.Scan
import ContractScript.ScriptError

/-!
# Reading a script instruction by instruction

A cursor stands at a position of a script in front of the bytes not read yet. One
step yields the next instruction with its offset, or the fault that ends the
reading; after a fault, or at the end of the script, every further step yields
nothing and changes nothing. A fault leaves the cursor where reading got to: at a
byte that is no opcode, or behind the opcode, and behind the length field if that
could be read.

`read` runs a cursor over a whole script and `decode` keeps only its answer.
-/

namespace ContractScript

/-- An instruction and the offset of its opcode in the script. -/
structure Located extends Instruction where
  offset : Nat
  deriving DecidableEq

/-- The same instruction when the script starts `distance` bytes later. -/
def Located.shift (distance : Nat) (item : Located) : Located :=
  { item with offset := distance + item.offset }

/-- Instructions in a row, the first of them at an offset. -/
def locate (offset : Nat) : List Instruction → List Located
  | [] => []
  | instruction :: later => ⟨instruction, offset⟩ :: locate (offset + instruction.size) later

/-- The bytes of instructions in a row. -/
def assemble (instructions : List Instruction) : List UInt8 :=
  instructions.flatMap Instruction.encode

/-- A place in a script and what follows it. -/
structure Cursor where
  /-- The number of bytes already read. -/
  position : Nat
  unread : List UInt8
  /-- Reading has met a fault. -/
  stopped : Bool

namespace Cursor

/-- The cursor in front of a script. -/
def start (script : List UInt8) : Cursor :=
  ⟨0, script, false⟩

/-- The next instruction, or the fault that ends the reading, and the cursor after
it; nothing at the end and after a fault. -/
def next (cursor : Cursor) : Option (Except ScriptError Located × Cursor) :=
  if cursor.stopped then none
  else match cursor.unread with
    | [] => none
    | first :: bytes =>
      match Scan.ofBytes first bytes with
      | .whole instruction rest =>
        some (.ok ⟨instruction, cursor.position⟩,
          ⟨cursor.position + instruction.size, rest, false⟩)
      | .cut consumed =>
        some (.error (.unexpectedEnd cursor.position),
          ⟨cursor.position + consumed, (first :: bytes).drop consumed, true⟩)
      | .unknown byte =>
        some (.error (.unknownOpcode byte cursor.position), { cursor with stopped := true })

/-- A step that yields an instruction leaves fewer bytes unread, since it has taken at
least the opcode. Runs of a cursor end for this reason. -/
theorem unread_shorter {cursor after : Cursor} {item : Located}
    (advanced : cursor.next = some (.ok item, after)) :
    after.unread.length < cursor.unread.length := by
  unfold next at advanced
  split at advanced
  · cases advanced
  · split at advanced
    · cases advanced
    next first bytes unread =>
      split at advanced
      next instruction rest split =>
        simp only [Option.some.injEq, Prod.mk.injEq] at advanced
        obtain ⟨_, rfl⟩ := advanced
        obtain ⟨joined, _⟩ := Scan.ofBytes_whole split
        have lengths := congrArg List.length joined
        simp only [List.length_append, Instruction.length_encode, Instruction.size] at lengths
        simp only [unread]
        omega
      · simp at advanced
      · simp at advanced

end Cursor

/-- The outcome of running a cursor until it yields nothing more. -/
structure Reading where
  /-- The instructions in front of the end or the fault. -/
  instructions : List Located
  /-- The fault that ended the reading, if it was not the end of the script. -/
  failure : Option ScriptError
  /-- The cursor at the end. -/
  final : Cursor

/-- Run a cursor to the end behind instructions already read, which are held
newest first so that a long script needs no stack. -/
def Cursor.runOnto (earlier : List Located) (cursor : Cursor) : Reading :=
  match _advanced : cursor.next with
  | none => ⟨earlier.reverse, none, cursor⟩
  | some (.error failure, after) => ⟨earlier.reverse, some failure, after⟩
  | some (.ok item, after) => runOnto (item :: earlier) after
termination_by cursor.unread.length
decreasing_by exact Cursor.unread_shorter _advanced

/-- Run a cursor over a whole script. -/
def read (script : List UInt8) : Reading :=
  (Cursor.start script).runOnto []

/-- The instructions of a reading that met no fault. -/
def Reading.result (reading : Reading) : Except ScriptError (List Located) :=
  match reading.failure with
  | none => .ok reading.instructions
  | some failure => .error failure

/-- The instructions of a script, if it can be read to its end. -/
def decode (script : List UInt8) : Except ScriptError (List Located) :=
  (read script).result

end ContractScript
