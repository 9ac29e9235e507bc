import ContractScript.Proofs.Continuation
import ContractScript.Reader

/-!
# Where a reader stands

A reader can be called at any time and any number of times, also behind a fault. Each call
keeps it within its script: it moves behind the instruction that it yields, stays in front of
a byte that is no opcode, and stops in an instruction that is cut off at one of two places,
behind the opcode or behind the length field. The bytes that a call takes out of the script by
their places always exist, so that every call has a result, and this is the result of a call
on a cursor, which carries the unread bytes along.

Each byte lets at most one call yield something, and a fault is the last thing that is
yielded. So the calls that yield something are no more than the bytes of the script.
-/

namespace ContractScript

/-- The width of the length field that an opcode announces, if it announces one. -/
def Opcode.lengthWidth? : Opcode → Option Nat
  | pushCounted field => some field.width
  | serviceCall => some 1
  | _ => none

/-- An opcode announces a length field if its operand is counted by one. Inline pushes
announce none, although their opcodes count bytes. -/
theorem Opcode.lengthWidth?_eq (opcode : Opcode) :
    opcode.lengthWidth? = match opcode.extent with
      | .fixed _ => none
      | .counted field => some field.width := by
  cases opcode with
  | pushBytes count => rw [extent_pushBytes]; rfl
  | _ => rfl

/-- An operand is cut off at once, or behind its length field if it has one that is whole.

What was consumed is the opcode alone if the operand has a fixed length, or if the length
field is cut itself; then the bytes are fewer than the field is wide. If the field could
be read, it is consumed as well, and only its payload is missing. -/
theorem Scan.operand_cut {opcode : Opcode} {bytes : List UInt8} {consumed : Nat}
    (split : operand opcode bytes = cut consumed) :
    (consumed = 1 ∧ ∀ width, opcode.lengthWidth? = some width → bytes.length < width) ∨
      ∃ width, opcode.lengthWidth? = some width ∧ width ≤ bytes.length ∧ consumed = 1 + width := by
  rw [Opcode.lengthWidth?_eq]
  unfold operand at split
  cases measured : opcode.extent with
  | fixed count =>
    simp only [measured] at split ⊢
    split at split
    · cases split
    · cases split
      exact .inl ⟨rfl, by simp⟩
  | counted field =>
    simp only [measured] at split ⊢
    split at split
    next short =>
      cases split
      refine .inl ⟨rfl, ?_⟩
      rintro _ ⟨⟩
      exact front?_eq_none_iff.mp short
    next length counted found =>
      split at split
      · cases split
      · cases split
        obtain ⟨rfl, width⟩ := front?_eq_some found
        refine .inr ⟨field.width, rfl, ?_, rfl⟩
        rw [List.length_append]
        omega

/-- An instruction is cut off in its operand. -/
theorem Scan.ofBytes_cut {first : UInt8} {bytes : List UInt8} {consumed : Nat}
    (split : ofBytes first bytes = cut consumed) :
    ∃ opcode : Opcode, opcode.byte = first ∧ operand opcode bytes = cut consumed := by
  unfold ofBytes at split
  split at split
  next opcode found => exact ⟨opcode, Opcode.byte_of_ofByte? found, split⟩
  · cases split

/-- A byte is reported as unknown if it is no opcode. -/
theorem Scan.ofBytes_unknown {first byte : UInt8} {bytes : List UInt8}
    (split : ofBytes first bytes = unknown byte) :
    byte = first ∧ Opcode.ofByte? first = none := by
  unfold ofBytes at split
  split at split
  next opcode found => exact absurd split (operand_ne_unknown opcode bytes byte)
  next missing =>
    cases split
    exact ⟨rfl, missing⟩

/-- How far a call goes from a place of a script, by its answer: nowhere if nothing is yielded
or a byte is no opcode, behind the instruction that it yields, and, where an instruction is cut
off, behind its opcode, or behind its length field if the script has all of that. -/
inductive Moves (script : List UInt8) (position : Nat) : Answer → Nat → Prop
  | nothing : Moves script position none position
  | item {item : Located} (begun : item.offset = position) (sized : 1 ≤ item.size) :
      Moves script position (some (.ok item)) (item.offset + item.size)
  | unknown {byte : UInt8} (begun : script[position]? = some byte)
      (missing : Opcode.ofByte? byte = none) :
      Moves script position (some (.error (.unknownOpcode byte position))) position
  | cut {opcode : Opcode} (begun : script[position]? = some opcode.byte)
      (unmeasured : ∀ width, opcode.lengthWidth? = some width →
        script.length < position + 1 + width) :
      Moves script position (some (.error (.unexpectedEnd position))) (position + 1)
  | cutBehindLength {opcode : Opcode} {width : Nat}
      (begun : script[position]? = some opcode.byte) (field : opcode.lengthWidth? = some width)
      (measured : position + 1 + width ≤ script.length) :
      Moves script position (some (.error (.unexpectedEnd position))) (position + 1 + width)

/-- No call goes back. -/
theorem Moves.le {script : List UInt8} {position after : Nat} {answer : Answer}
    (moves : Moves script position answer after) : position ≤ after := by
  cases moves <;> omega

namespace Cursor

/-- A cursor stands in a script: its place lies in the script, and what it has not read is the
rest of the script from there on. -/
structure Stands (script : List UInt8) (cursor : Cursor) : Prop where
  within : cursor.position ≤ script.length
  unread : cursor.unread = script.drop cursor.position

/-- A cursor in front of a script stands in it. -/
theorem stands_start (script : List UInt8) : Stands script (start script) :=
  ⟨Nat.zero_le _, rfl⟩

/-- The first byte that was not read is the one at the place of the cursor, and the others
lie behind this place. This is how the places of a reader and the bytes of a cursor are
compared. -/
theorem Stands.begun {script bytes : List UInt8} {position : Nat} {first : UInt8}
    {stopped : Bool} (stands : Stands script ⟨position, first :: bytes, stopped⟩) :
    script[position]? = some first ∧ script.drop (position + 1) = bytes := by
  have rest : first :: bytes = script.drop position := stands.unread
  constructor
  · rw [← List.head?_drop, ← rest]
    rfl
  · rw [← List.drop_drop, ← rest]
    rfl

section Equations

variable {position : Nat} {first : UInt8} {bytes : List UInt8}

/-- A call on a whole instruction yields it and goes behind it. -/
theorem call_of_whole {instruction : Instruction} {rest : List UInt8}
    (split : Scan.ofBytes first bytes = .whole instruction rest) :
    call ⟨position, first :: bytes, false⟩ =
      (some (.ok ⟨instruction, position⟩), ⟨position + instruction.size, rest, false⟩) := by
  simp [call, next, split]

/-- A call on a cut instruction yields the fault and goes as far as reading got. -/
theorem call_of_cut {consumed : Nat} (split : Scan.ofBytes first bytes = .cut consumed) :
    call ⟨position, first :: bytes, false⟩ = (some (.error (.unexpectedEnd position)),
      ⟨position + consumed, (first :: bytes).drop consumed, true⟩) := by
  simp [call, next, split]

/-- A call on a byte that is no opcode yields the fault and stays. -/
theorem call_of_unknown {byte : UInt8} (split : Scan.ofBytes first bytes = .unknown byte) :
    call ⟨position, first :: bytes, false⟩ =
      (some (.error (.unknownOpcode byte position)), ⟨position, first :: bytes, true⟩) := by
  simp [call, next, split]

end Equations

variable {script : List UInt8} {cursor : Cursor}

/-- The first of several calls is made before the others. -/
theorem calls_succ (count : Nat) (cursor : Cursor) :
    cursor.calls (count + 1) = (cursor.call.1 :: (cursor.call.2.calls count).1,
      (cursor.call.2.calls count).2) :=
  rfl

/-- A call that yields nothing changes nothing. -/
theorem call_of_next_eq_none (quiet : cursor.next = none) : cursor.call = (none, cursor) := by
  rw [call, quiet]

/-- Each call keeps the cursor in the script and moves it as its answer says.

After a fault, or at the end, nothing is yielded and the cursor stays. Otherwise the scan
of the unread bytes decides, one case for each of its answers. A whole instruction is
within the unread bytes, and so is what a cut has consumed; therefore the cursor stands in
the script again, in front of the bytes behind them. -/
theorem Stands.call (stands : Stands script cursor) :
    Stands script cursor.call.2 ∧
      Moves script cursor.position cursor.call.1 cursor.call.2.position := by
  obtain ⟨position, unread, stopped⟩ := cursor
  cases stopped with
  | true => exact ⟨stands, .nothing⟩
  | false =>
    cases unread with
    | nil => exact ⟨stands, .nothing⟩
    | cons first bytes =>
      have begun := stands.begun.1
      have rest : first :: bytes = script.drop position := stands.unread
      have length := congrArg List.length rest
      simp only [List.length_cons, List.length_drop] at length
      -- What a call leaves unread lies behind the bytes that it has read.
      have behind (consumed : Nat) : (first :: bytes).drop consumed =
          script.drop (position + consumed) := by
        rw [rest, List.drop_drop]
      cases split : Scan.ofBytes first bytes with
      | whole instruction after =>
        obtain ⟨joined, _⟩ := Scan.ofBytes_whole split
        have taken : (first :: bytes).drop instruction.size = after := by
          rw [joined, ← Instruction.length_encode, List.drop_left]
        have sizes := congrArg List.length joined
        simp only [List.length_append, Instruction.length_encode, List.length_cons] at sizes
        rw [call_of_whole split]
        exact ⟨⟨by simp only; omega, taken ▸ behind _⟩, .item rfl (Nat.le_add_right 1 _)⟩
      | cut consumed =>
        rw [call_of_cut split]
        obtain ⟨opcode, rfl, operandSplit⟩ := Scan.ofBytes_cut split
        obtain ⟨rfl, unmeasured⟩ | ⟨width, field, measured, rfl⟩ := Scan.operand_cut operandSplit
        · have unmeasured (width : Nat) (field : opcode.lengthWidth? = some width) :
              script.length < position + 1 + width := by
            have short := unmeasured width field
            omega
          exact ⟨⟨by simp only; omega, behind 1⟩, .cut begun unmeasured⟩
        · have measured : position + 1 + width ≤ script.length := by omega
          refine ⟨⟨by simp only; omega, behind _⟩, ?_⟩
          simp only [← Nat.add_assoc]
          exact .cutBehindLength begun field measured
      | unknown byte =>
        rw [call_of_unknown split]
        obtain ⟨rfl, missing⟩ := Scan.ofBytes_unknown split
        exact ⟨⟨stands.within, rest⟩, .unknown begun missing⟩

/-- Any number of calls keep the cursor in the script, because each of them does. -/
theorem Stands.calls (stands : Stands script cursor) (count : Nat) :
    Stands script (cursor.calls count).2 := by
  induction count generalizing cursor with
  | zero => exact stands
  | succ count inductionHypothesis => exact inductionHypothesis stands.call.1

/-- The number of calls that may still yield something: one for each byte that was not read,
and none after a fault. -/
def remaining (cursor : Cursor) : Nat :=
  if cursor.stopped then 0 else cursor.unread.length

/-- A call either yields nothing and changes nothing, or fewer calls remain that yield
something. A call that yields a fault is the last of them.

An instruction takes at least its opcode from the unread bytes. A fault stops the cursor,
and no call remains then, however many bytes are unread. -/
theorem call_cases (cursor : Cursor) :
    (cursor.next = none ∧ cursor.call = (none, cursor)) ∨
      (cursor.call.1.isSome = true ∧ cursor.call.2.remaining < cursor.remaining ∧
        ∀ fault, cursor.call.1 = some (.error fault) → cursor.call.2.next = none) := by
  obtain ⟨position, unread, stopped⟩ := cursor
  cases stopped with
  | true => exact .inl ⟨rfl, rfl⟩
  | false =>
    cases unread with
    | nil => exact .inl ⟨rfl, rfl⟩
    | cons first bytes =>
      right
      cases split : Scan.ofBytes first bytes with
      | whole instruction after =>
        obtain ⟨joined, _⟩ := Scan.ofBytes_whole split
        have sizes := congrArg List.length joined
        simp only [List.length_append, Instruction.length_encode, Instruction.size] at sizes
        rw [call_of_whole split]
        refine ⟨rfl, ?_, by simp⟩
        simp only [remaining, Bool.false_eq_true, ↓reduceIte]
        omega
      | cut consumed =>
        rw [call_of_cut split]
        exact ⟨rfl, Nat.zero_lt_succ _, fun _ _ => rfl⟩
      | unknown byte =>
        rw [call_of_unknown split]
        exact ⟨rfl, Nat.zero_lt_succ _, fun _ _ => rfl⟩

/-- A call yields nothing if there is nothing next. -/
theorem call_fst_eq_none_iff : cursor.call.1 = none ↔ cursor.next = none := by
  rcases cursor.call_cases with ⟨quiet, same⟩ | ⟨yielded, _, _⟩
  · exact iff_of_true (congrArg Prod.fst same) quiet
  · refine iff_of_false ?_ ?_
    · exact Option.isSome_iff_ne_none.mp yielded
    · intro quiet
      rw [call_of_next_eq_none quiet] at yielded
      cases yielded

/-- Behind a call that yields nothing or a fault there is nothing next. In the first case
the cursor is the same as before, and in the second one it has stopped. -/
theorem next_call_eq_none
    (ended : cursor.call.1 = none ∨ ∃ fault, cursor.call.1 = some (.error fault)) :
    cursor.call.2.next = none := by
  rcases ended with nothing | ⟨fault, stopped⟩
  · have quiet := call_fst_eq_none_iff.mp nothing
    rw [call_of_next_eq_none quiet]
    exact quiet
  · rcases cursor.call_cases with ⟨_, same⟩ | ⟨_, _, last⟩
    · rw [same] at stopped
      cases stopped
    · exact last fault stopped

/-- Once nothing is yielded, nothing is yielded or changed any more. -/
theorem calls_of_next_eq_none (quiet : cursor.next = none) (count : Nat) :
    cursor.calls count = (List.replicate count none, cursor) := by
  induction count with
  | zero => rfl
  | succ count inductionHypothesis =>
    rw [calls_succ, call_of_next_eq_none quiet, inductionHypothesis]
    rfl

/-- Every call that yields something leaves fewer that do. By induction on the number of
calls: what the first one yields is paid for by what remains after it. -/
theorem countP_calls_le (cursor : Cursor) (count : Nat) :
    (cursor.calls count).1.countP Option.isSome + (cursor.calls count).2.remaining ≤
      cursor.remaining := by
  induction count generalizing cursor with
  | zero => simp [calls]
  | succ count inductionHypothesis =>
    have later := inductionHypothesis cursor.call.2
    simp only [calls_succ, List.countP_cons]
    rcases cursor.call_cases with ⟨_, same⟩ | ⟨yielded, fewer, _⟩
    · rw [same] at later ⊢
      simpa using later
    · simp only [yielded, ↓reduceIte]
      omega

/-- After as many calls as may yield something there is nothing next. By induction on the
number of calls: each of them lowers what remains, or there is nothing next already. -/
theorem next_calls_eq_none {count : Nat} (many : cursor.remaining ≤ count) :
    (cursor.calls count).2.next = none := by
  induction count generalizing cursor with
  | zero =>
    rcases cursor.call_cases with ⟨quiet, _⟩ | ⟨_, fewer, _⟩
    · exact quiet
    · omega
  | succ count inductionHypothesis =>
    rcases cursor.call_cases with ⟨quiet, _⟩ | ⟨_, fewer, _⟩
    · rw [calls_of_next_eq_none quiet]
      exact quiet
    · have fewerRemain : cursor.call.2.remaining ≤ count := by omega
      rw [calls_succ]
      exact inductionHypothesis fewerRemain

end Cursor

namespace Reader

section Running

variable {α β : Type} {reader : Reader}

/-- Work behind other work goes on where that has ended, unless that was stopped or used bytes
that do not exist. -/
theorem run_bind (first : Work α) (later : α → Work β) :
    reader.run (first >>= later) =
      match reader.run first with
      | none => none
      | some (.ok value, after) => after.run (later value)
      | some (.error fault, after) => some (.error fault, after) := by
  simp only [run, ExceptT.run_bind, StateT.run_bind]
  rcases (ExceptT.run first).run reader with _ | ⟨_ | _, _⟩ <;> rfl

/-- Work whose value is not needed. -/
theorem run_discard (work : Work α) :
    reader.run (discard work) =
      match reader.run work with
      | none => none
      | some (.ok _, after) => some (.ok (), after)
      | some (.error fault, after) => some (.error fault, after) := by
  simp only [run, Functor.discard, map_const, Function.comp_apply, ExceptT.run_map, StateT.run_map]
  rcases (ExceptT.run work).run reader with _ | ⟨_ | _, _⟩ <;> rfl

/-- Bytes that exist are used. -/
theorem run_access (value : α) : reader.run (Work.access (some value)) = some (.ok value, reader) :=
  rfl

end Running

namespace Work

variable {reader : Reader} {offset : Nat}

/-- The bytes between two places of a script exist if the places are in order and lie in it. -/
theorem between?_eq_some {script : List UInt8} {first last : Nat} (ordered : first ≤ last)
    (within : last ≤ script.length) :
    between? script first last = some ((script.drop first).take (last - first)) := by
  rw [between?, if_pos ⟨ordered, within⟩, List.drop_take]

/-- Taking bytes uses none that do not exist. It splits the next ones off if there are
enough, and is a fault otherwise. The places are compared before bytes are used, so those
that are used lie between two places of the script. -/
theorem run_take (within : reader.position ≤ reader.script.length) (count offset : Nat) :
    reader.run (take count offset) =
      match Scan.front? count (reader.script.drop reader.position) with
      | some (front, _) => some (.ok front, { reader with position := reader.position + count })
      | none => some (.error (.unexpectedEnd offset), reader) := by
  have remainder : (reader.script.drop reader.position).length =
      reader.script.length - reader.position := List.length_drop
  by_cases enough : reader.position + count ≤ reader.script.length
  · have found := between?_eq_some (Nat.le_add_right reader.position count) enough
    rw [Nat.add_sub_cancel_left] at found
    have split : Scan.front? count (reader.script.drop reader.position) =
        some ((reader.script.drop reader.position).take count,
          (reader.script.drop reader.position).drop count) := by
      rw [Scan.front?, if_pos]
      rw [List.length_take, remainder]
      omega
    rw [split, take, run_bind]
    change Reader.run _ (if _ then _ else _) = _
    rw [if_pos enough, run_bind, found, run_access]
    rfl
  · have short : Scan.front? count (reader.script.drop reader.position) = none :=
      Scan.front?_eq_none_iff.mpr (by omega)
    rw [short, take, run_bind]
    change Reader.run _ (if _ then _ else _) = _
    rw [if_neg enough]
    rfl

/-- Where a reader is left by the operand that a scan has split off, the opcode being
taken before. A scan of an operand never meets an unknown opcode, so this form has no
result here. -/
def reached (reader : Reader) (offset : Nat) : Scan → Option (Except ScriptError Unit × Reader)
  | .whole instruction _ =>
    some (.ok (), { reader with position := reader.position + instruction.operand.length })
  | .cut consumed => some (.error (.unexpectedEnd offset),
      { reader with position := reader.position + (consumed - 1) })
  | .unknown _ => none

/-- An operand of fixed length is taken as it is split off. -/
theorem run_takeFixed (opcode : Opcode) (within : reader.position ≤ reader.script.length)
    (count : Nat) :
    reader.run (discard (take count offset)) = reached reader offset
      (match Scan.front? count (reader.script.drop reader.position) with
        | some (operand, rest) => .whole ⟨opcode, operand⟩ rest
        | none => .cut 1) := by
  rw [run_discard, run_take within]
  cases split : Scan.front? count (reader.script.drop reader.position) with
  | none => rfl
  | some found =>
    obtain ⟨operand, rest⟩ := found
    obtain ⟨_, rfl⟩ := Scan.front?_eq_some split
    rfl

/-- A counted operand is taken as it is split off, if the number in its length field can
be found.

First the field is taken, and then as many bytes as it says from behind it. How the number
is found is a parameter: for pushes it is read from the field filled up to eight bytes,
and for the name of a service from its only byte. -/
theorem run_takeCounted (opcode : Opcode) (within : reader.position ≤ reader.script.length)
    {width : Nat} {measure : List UInt8 → Work Nat}
    (measured : ∀ (current : Reader) (length : List UInt8), length.length = width →
      current.run (measure length) = some (.ok (LittleEndian.value length), current)) :
    reader.run (do
      let length ← take width offset
      let count ← measure length
      discard (take count offset)) = reached reader offset
        (match Scan.front? width (reader.script.drop reader.position) with
          | none => .cut 1
          | some (length, counted) =>
            match Scan.front? (LittleEndian.value length) counted with
            | some (payload, rest) => .whole ⟨opcode, length ++ payload⟩ rest
            | none => .cut (1 + width)) := by
  rw [run_bind, run_take within]
  cases split : Scan.front? width (reader.script.drop reader.position) with
  | none => rfl
  | some found =>
    obtain ⟨length, counted⟩ := found
    obtain ⟨joined, exactly⟩ := Scan.front?_eq_some split
    have lengths := congrArg List.length joined
    simp only [List.length_drop, List.length_append] at lengths
    have behind : reader.script.drop (reader.position + width) = counted := by
      rw [← List.drop_drop, joined, ← exactly, List.drop_left]
    simp only [run_bind, measured _ _ exactly, run_discard]
    rw [run_take (by simp only; omega)]
    simp only [behind]
    cases splitPayload : Scan.front? (LittleEndian.value length) counted with
    | none => simp [reached]
    | some found =>
      obtain ⟨payload, rest⟩ := found
      obtain ⟨_, announced⟩ := Scan.front?_eq_some splitPayload
      simp [reached, exactly, announced, Nat.add_assoc]

/-- Zeros alone are the number zero. -/
theorem value_zeros (count : Nat) : LittleEndian.value (List.replicate count 0) = 0 := by
  induction count with
  | zero => rfl
  | succ count inductionHypothesis =>
    rw [List.replicate_succ, LittleEndian.value, inductionHypothesis]
    rfl

/-- Zeros above a number do not count. -/
theorem value_append_zeros (field : List UInt8) (count : Nat) :
    LittleEndian.value (field ++ List.replicate count 0) = LittleEndian.value field := by
  induction field with
  | nil => exact value_zeros count
  | cons byte later inductionHypothesis =>
    simp only [List.cons_append, LittleEndian.value, inductionHypothesis]

/-- A length field is no wider than the eight bytes that it is filled up to, so filling it
up has a result, and the zeros above do not change the number. -/
theorem run_number (reader : Reader) (field : LengthField) (length : List UInt8)
    (exactly : length.length = field.width) :
    reader.run (number field.width length) = some (.ok (LittleEndian.value length), reader) := by
  have narrow : field.width ≤ 8 := by cases field <;> decide
  rw [number, run_bind, widened?, if_pos ⟨exactly, narrow⟩, run_access,
    ← value_append_zeros length (8 - field.width)]
  rfl

/-- A field of one byte has a first byte. -/
theorem run_singleNumber (reader : Reader) (length : List UInt8) (exactly : length.length = 1) :
    reader.run (singleNumber length) = some (.ok (LittleEndian.value length), reader) := by
  obtain ⟨byte, rfl⟩ := List.length_eq_one_iff.mp exactly
  rfl

/-- An operand is taken as it is split off, whatever its layout is. The layouts have a
fixed length or a counted one, and the two kinds of counts are found in their own ways. -/
theorem run_takeOperand (opcode : Opcode) (within : reader.position ≤ reader.script.length) :
    reader.run (takeOperand offset opcode.layout) =
      reached reader offset (Scan.operand opcode (reader.script.drop reader.position)) := by
  unfold Scan.operand Opcode.extent
  cases opcode.layout with
  | bare => rfl
  | payload count => exact run_takeFixed opcode within count
  | jumpDistance => exact run_takeFixed opcode within 2
  | scriptHash => exact run_takeFixed opcode within 20
  | counted field =>
    exact run_takeCounted opcode within fun reader => run_number reader field
  | serviceName => exact run_takeCounted opcode within run_singleNumber

/-- An instruction is taken as it is split off at its place.

The byte at the place exists, as it was not read yet. If it is an opcode, its operand is
taken behind it, and a cut leaves the reader where the operand was cut. After a whole
operand the bytes between opcode and place are used once more; they exist, because they
have been gone through, and they are the operand. -/
theorem run_takeInstruction {first : UInt8} {bytes : List UInt8}
    (begun : reader.script[reader.position]? = some first)
    (behind : reader.script.drop (reader.position + 1) = bytes) :
    reader.run takeInstruction = match Scan.ofBytes first bytes with
      | .whole instruction _ => some (.ok ⟨instruction, reader.position⟩,
          { reader with position := reader.position + instruction.size })
      | .cut consumed => some (.error (.unexpectedEnd reader.position),
          { reader with position := reader.position + consumed })
      | .unknown byte => some (.error (.unknownOpcode byte reader.position), reader) := by
  obtain ⟨within, _⟩ := List.getElem?_eq_some_iff.mp begun
  rw [takeInstruction, run_bind]
  change Reader.run _ (access reader.script[reader.position]? >>= _) = _
  rw [run_bind, begun, run_access]
  simp only [Scan.ofBytes]
  cases Opcode.ofByte? first with
  | none => rfl
  | some opcode =>
    change Reader.run { reader with position := reader.position + 1 }
      (takeOperand reader.position opcode.layout >>= _) = _
    rw [run_bind, run_takeOperand opcode (by simp only; omega)]
    simp only [behind]
    cases split : Scan.operand opcode bytes with
    | unknown byte => exact absurd split (Scan.operand_ne_unknown _ _ _)
    | cut consumed =>
      have opcodeTaken : 1 + (consumed - 1) = consumed := by
        rcases Scan.operand_cut split with ⟨rfl, _⟩ | ⟨width, _, _, rfl⟩ <;> omega
      simp only [reached, Nat.add_assoc, opcodeTaken]
    | whole instruction rest =>
      obtain ⟨rfl, joined, _⟩ := Scan.operand_whole split
      have lengths := congrArg List.length (behind.trans joined)
      simp only [List.length_drop, List.length_append] at lengths
      have found : between? reader.script (reader.position + 1)
          (reader.position + 1 + instruction.operand.length) = some instruction.operand := by
        rw [between?_eq_some (Nat.le_add_right _ _) (by omega), Nat.add_sub_cancel_left, behind,
          joined, List.take_left]
      simp only [reached]
      change Reader.run { reader with position := reader.position + 1 + instruction.operand.length }
        (access (between? reader.script (reader.position + 1)
          (reader.position + 1 + instruction.operand.length)) >>= _) = _
      rw [run_bind, found, run_access]
      simp only [Instruction.size, ← Nat.add_assoc]
      rfl

end Work

/-- The reader that stands where a cursor stands in a script. -/
def standing (script : List UInt8) (cursor : Cursor) : Reader :=
  ⟨script, cursor.position, cursor.stopped⟩

/-- A call on a reader uses no bytes that do not exist, and it is a call on the cursor
that stands at the same place. The reader is at the end of its script exactly if the
cursor has nothing unread; otherwise both take what the scan of the same bytes has split
off. -/
theorem call_standing {script : List UInt8} {cursor : Cursor} (stands : cursor.Stands script) :
    (standing script cursor).call = some (cursor.call.1, standing script cursor.call.2) := by
  obtain ⟨position, unread, stopped⟩ := cursor
  cases stopped with
  | true => rfl
  | false =>
    cases unread with
    | nil =>
      have ended : script.length ≤ position := List.drop_eq_nil_iff.mp stands.unread.symm
      rw [call, if_pos (.inr ended)]
      rfl
    | cons first bytes =>
      obtain ⟨begun, behind⟩ := stands.begun
      obtain ⟨unended, _⟩ := List.getElem?_eq_some_iff.mp begun
      have going : ¬(false = true ∨ script.length ≤ position) := by
        simpa using unended
      have taken : run ⟨script, position, false⟩ Work.takeInstruction = _ :=
        Work.run_takeInstruction begun behind
      rw [standing, call, if_neg going, taken]
      cases split : Scan.ofBytes first bytes with
      | whole instruction after => rw [Cursor.call_of_whole split]; rfl
      | cut consumed => rw [Cursor.call_of_cut split]; rfl
      | unknown byte => rw [Cursor.call_of_unknown split]; rfl

/-- Any number of calls on a reader are those on the cursor at the same place, since each
call leaves both at the same place again. -/
theorem calls_standing {script : List UInt8} {cursor : Cursor} (stands : cursor.Stands script)
    (count : Nat) :
    (standing script cursor).calls count =
      some ((cursor.calls count).1, standing script (cursor.calls count).2) := by
  induction count generalizing cursor with
  | zero => rfl
  | succ count inductionHypothesis =>
    rw [calls, call_standing stands]
    simp only [inductionHypothesis stands.call.1]
    rfl

end Reader

/-- Reading stays in the script, whatever its bytes are and however often the reader is
called. After any number of calls the bytes that the next call uses exist, and all those
used before have existed; the place does not go back and does not leave the script; it
moves as the answer says. A call that yields nothing changes nothing, and behind it or
behind a fault nothing is yielded or changed any more. No more calls yield something than
the script has bytes, and after that many nothing is yielded.

The reader is compared with the cursor that stands where it does. Standing in the script
is kept by every call, and the number of calls that may still yield something starts at
the length of the script and falls with each that does. -/
theorem calls_stay_in_script (script : List UInt8) (count : Nat) :
    let (earlier, before) : List Answer × Cursor := (Cursor.start script).calls count
    let (answer, after) : Answer × Cursor := before.call
    (Reader.start script).calls count = some (earlier, Reader.standing script before) ∧
      (Reader.standing script before).call = some (answer, Reader.standing script after) ∧
      before.position ≤ after.position ∧ after.position ≤ script.length ∧
      Moves script before.position answer after.position ∧
      (answer = none → after = before) ∧
      ((answer = none ∨ ∃ fault, answer = some (.error fault)) →
        ∀ more, after.calls more = (List.replicate more none, after)) ∧
      earlier.countP Option.isSome ≤ script.length ∧
      (script.length ≤ count → answer = none) := by
  have atStart := Cursor.stands_start script
  have measured : (Cursor.start script).remaining = script.length := rfl
  have stands := atStart.calls count
  obtain ⟨afterStands, moves⟩ := stands.call
  refine ⟨Reader.calls_standing atStart count, Reader.call_standing stands, moves.le,
    afterStands.within, moves, ?_, ?_, ?_, ?_⟩
  · intro nothing
    have same := Cursor.call_of_next_eq_none (Cursor.call_fst_eq_none_iff.mp nothing)
    exact congrArg Prod.snd same
  · intro ended
    exact Cursor.calls_of_next_eq_none (Cursor.next_call_eq_none ended)
  · exact Nat.le_of_add_right_le (Cursor.countP_calls_le (Cursor.start script) count)
  · intro many
    exact Cursor.call_fst_eq_none_iff.mpr (Cursor.next_calls_eq_none (measured ▸ many))

/-- A length field that announces more than the script has is read, its payload is not, and
nothing is read behind it. -/
theorem calls_on_length_beyond_script :
    let script : List UInt8 := [0x51, 0x4e, 0xff, 0xff, 0xff, 0xff, 0x61]
    let before := ((Cursor.start script).calls 1).2
    before.position = 1 ∧ before.call.1 = some (.error (.unexpectedEnd 1)) ∧
      before.call.2.position = 6 ∧
      before.call.2.calls 3 = ([none, none, none], before.call.2) ∧
      (Reader.standing script before).call =
        some (some (.error (.unexpectedEnd 1)), ⟨script, 6, true⟩) := by
  intro script before
  have answer : before.call.1 = some (.error (.unexpectedEnd 1)) := rfl
  have place : before.call.2.position = 6 ∧ before.call.2.stopped = true := by decide +kernel
  obtain ⟨_, read, _, _, _, _, ended, _⟩ := calls_stay_in_script script 1
  have reached : Reader.standing script before.call.2 = ⟨script, 6, true⟩ := by
    rw [Reader.standing, place.1, place.2]
  refine ⟨by decide +kernel, answer, place.1, ended (.inr ⟨_, answer⟩) 3, ?_⟩
  rw [← reached, ← answer]
  exact read

end ContractScript
