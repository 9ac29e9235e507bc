import ContractScript.Proofs.Partition
import ContractScript.Proofs.Pushes
import ContractScript.Rebuilding
import Mathlib.Data.List.Forall2

/-!
# What rebuilding a script changes

Rebuilding takes every instruction of a script through the operation that adds its
meaning again. Only pushes of payloads can change by that: they come back with the
narrowest length, and everything else comes back as it was. So the rebuilt script has
the same instructions in the same order as far as their meaning goes, it is never longer,
and it is the script itself exactly if no push had a wider length than it needed.

Nothing in it is wider than needed, and so rebuilding it once more changes nothing.
-/

namespace ContractScript

namespace LengthField

/-- A payload that is too long for an inline push gets the field that holds its length and
that it needs. The fields are tried from the narrowest on, so one is found exactly if
those before it are too narrow. -/
theorem narrowest?_eq_some_iff {length : Nat} (long : 76 ≤ length) (field : LengthField) :
    narrowest? length = some field ↔ field.least ≤ length ∧ length < field.limit := by
  constructor
  · intro found
    refine ⟨?_, lt_limit_of_narrowest? found⟩
    unfold narrowest? at found
    split at found
    · cases found
      exact long
    next notOne =>
      split at found
      · cases found
        exact Nat.le_of_not_lt notOne
      next notTwo =>
        split at found
        · cases found
          exact Nat.le_of_not_lt notTwo
        · cases found
  · rintro ⟨needed, fits⟩
    cases field with
    | one => exact if_pos fits
    | two =>
      have notOne : ¬length < one.limit := Nat.not_lt.mpr needed
      rw [narrowest?, if_neg notOne, if_pos fits]
    | four =>
      have notTwo : ¬length < two.limit := Nat.not_lt.mpr needed
      have narrower : one.limit ≤ two.limit := by decide
      have notOne : ¬length < one.limit := fun small =>
        notTwo (Nat.lt_of_lt_of_le small narrower)
      rw [narrowest?, if_neg notOne, if_neg notTwo, if_pos fits]

/-- What a narrower field holds needs no wider one. -/
theorem limit_le_least {narrower field : LengthField} (less : narrower.width < field.width) :
    narrower.limit ≤ field.least := by
  revert less
  cases narrower <;> cases field <;> decide

/-- Every length field has a byte. -/
theorem width_pos (field : LengthField) : 0 < field.width := by
  cases field <;> decide

/-- Length fields differ in their widths. -/
theorem width_injective {first second : LengthField} (same : first.width = second.width) :
    first = second := by
  revert same
  cases first <;> cases second <;> decide

/-- Every length field is for payloads that are too long for an inline push. -/
theorem inline_lt_least (field : LengthField) : 76 ≤ field.least := by
  cases field <;> decide

end LengthField

namespace Instruction

/-- A push of a payload is inline, or counts the payload in some field.

The operand of an inline push has as many bytes as its opcode says, so it is the payload.
A counted operand is parted at the width of the field; what the field announces is the
length of the payload, and therefore the field is the number of this length in its
width. -/
theorem pushData?_cases {instruction : Instruction} {data : List UInt8}
    (wellFormed : instruction.WellFormed) (pushes : instruction.pushData? = some data) :
    (∃ short : data.length < 76, instruction = ⟨.pushBytes ⟨data.length, short⟩, data⟩) ∨
      ∃ field, data.length < field.limit ∧ instruction =
        ⟨.pushCounted field, LittleEndian.bytes field.width data.length ++ data⟩ := by
  obtain ⟨opcode, operand⟩ := instruction
  cases opcode with
  | pushBytes count =>
    have exactly : operand.length = count := by
      simpa [WellFormed, Extent.Fits] using wellFormed
    rw [pushData?_inline exactly, Option.some.injEq] at pushes
    subst pushes
    have short : operand.length < 76 := exactly ▸ count.isLt
    have same : count = ⟨operand.length, short⟩ := Fin.ext exactly.symm
    exact .inl ⟨short, by rw [same]⟩
  | pushCounted field =>
    obtain ⟨length, payload, joined, width, announced⟩ :=
      (Extent.fits_counted_iff field operand).mp wellFormed
    have joined : operand = length ++ payload := joined
    subst joined
    have same : payload = data := by
      simpa [pushData?, List.take_left' width, List.drop_left' width, width] using pushes
    subst same
    have bounded := LittleEndian.value_lt length
    have written := LittleEndian.bytes_value length
    rw [width, announced] at written bounded
    exact .inr ⟨field, bounded, by rw [written]⟩
  | pushMinusOne | pushNumber _ | jump _ | contractCall _ | serviceCall | plain _ => cases pushes

/-- A push of a payload jumps nowhere. -/
theorem jumpDistance?_of_pushData? {instruction : Instruction} {data : List UInt8}
    (pushes : instruction.pushData? = some data) : instruction.jumpDistance? = none := by
  obtain ⟨opcode, operand⟩ := instruction
  cases opcode with
  | pushBytes _ | pushCounted _ => rfl
  | pushMinusOne | pushNumber _ | jump _ | contractCall _ | serviceCall | plain _ => cases pushes

/-- The instruction that comes back for an instruction. -/
def rebuilt (instruction : Instruction) : Instruction :=
  match instruction.pushData? with
  | some data => (pushing? data).getD instruction
  | none => instruction

/-- Only pushes of payloads can come back changed, namely as the push that is chosen for
the payload. There is one, because a payload that stands in a script is short enough for a
push. -/
theorem rebuilt_cases {instruction : Instruction} (wellFormed : instruction.WellFormed) :
    (instruction.pushData? = none ∧ instruction.rebuilt = instruction) ∨
      ∃ data, instruction.pushData? = some data ∧
        pushing? data = some instruction.rebuilt := by
  cases pushes : instruction.pushData? with
  | none => exact .inl ⟨rfl, by simp [rebuilt, pushes]⟩
  | some data =>
    have bounded : data.length < Parameter.payloadLimit := by
      rcases pushData?_cases wellFormed pushes with ⟨short, _⟩ | ⟨field, fits, _⟩
      · exact Nat.lt_trans short (by decide)
      · exact Nat.lt_of_lt_of_le fits field.limit_le_four
    obtain ⟨push, chosen⟩ := (exists_pushing?_iff data).mpr bounded
    refine .inr ⟨data, rfl, ?_⟩
    simp [rebuilt, pushes, chosen]

/-- What comes back for a well-formed instruction is well formed. -/
theorem wellFormed_rebuilt {instruction : Instruction} (wellFormed : instruction.WellFormed) :
    instruction.rebuilt.WellFormed := by
  rcases rebuilt_cases wellFormed with ⟨_, same⟩ | ⟨data, _, chosen⟩
  · rw [same]
    exact wellFormed
  · exact wellFormed_of_pushing? chosen

/-- What comes back for an instruction means the same: a chosen push has the payload that
it was chosen for, it jumps nowhere, and an instruction without a payload is kept. -/
theorem sameMeaning_rebuilt {instruction : Instruction} (wellFormed : instruction.WellFormed) :
    instruction.SameMeaning instruction.rebuilt := by
  rcases rebuilt_cases wellFormed with ⟨_, same⟩ | ⟨data, pushes, chosen⟩
  · rw [same]
    exact ⟨rfl, rfl, fun _ => rfl⟩
  · have kept := pushData?_of_pushing? chosen
    refine ⟨?_, ?_, ?_⟩
    · rw [pushes, kept]
    · rw [jumpDistance?_of_pushData? pushes, jumpDistance?_of_pushData? kept]
    · intro pushesNothing
      rw [pushes] at pushesNothing
      cases pushesNothing

/-- Only the push that is chosen for a payload is as short as it.

An inline push is chosen wherever one is possible, and a length field takes bytes of its
own. Behind that, a field that is as narrow as the chosen one cannot be narrower, because
a narrower one does not hold the length; and fields of one width are the same. -/
theorem eq_of_size_le_pushing? {instruction push : Instruction} {data : List UInt8}
    (wellFormed : instruction.WellFormed) (pushes : instruction.pushData? = some data)
    (chosen : pushing? data = some push) (short : instruction.size ≤ push.size) :
    instruction = push := by
  rcases pushing?_cases chosen with ⟨_, rfl⟩ | ⟨long, found, narrowest, rfl⟩
  · rcases pushData?_cases wellFormed pushes with ⟨_, rfl⟩ | ⟨field, _, rfl⟩
    · rfl
    · have positive := field.width_pos
      simp only [size, List.length_append, LittleEndian.length_bytes] at short
      omega
  · rcases pushData?_cases wellFormed pushes with ⟨inline, _⟩ | ⟨field, fits, rfl⟩
    · omega
    · obtain ⟨needed, _⟩ := (LengthField.narrowest?_eq_some_iff long found).mp narrowest
      have notNarrower : ¬field.width < found.width := by
        intro less
        have spare := LengthField.limit_le_least less
        omega
      simp only [size, List.length_append, LittleEndian.length_bytes] at short
      have same : field = found := LengthField.width_injective (by omega)
      rw [same]

/-- No push of a payload is shorter than the one that is chosen for it. -/
theorem size_le_of_pushing? {instruction push : Instruction} {data : List UInt8}
    (wellFormed : instruction.WellFormed) (pushes : instruction.pushData? = some data)
    (chosen : pushing? data = some push) : push.size ≤ instruction.size := by
  rcases Nat.le_total push.size instruction.size with shorter | longer
  · exact shorter
  · have same := eq_of_size_le_pushing? wellFormed pushes chosen longer
    exact Nat.le_of_eq (congrArg size same.symm)

/-- What comes back for an instruction is not longer. -/
theorem size_rebuilt_le {instruction : Instruction} (wellFormed : instruction.WellFormed) :
    instruction.rebuilt.size ≤ instruction.size := by
  rcases rebuilt_cases wellFormed with ⟨_, same⟩ | ⟨data, pushes, chosen⟩
  · exact Nat.le_of_eq (congrArg size same)
  · exact size_le_of_pushing? wellFormed pushes chosen

/-- A push in a length field is the one that is chosen for its payload exactly if the
payload needs a field so wide. No field is needed by a payload that can be pushed
inline. -/
theorem pushing?_eq_counted_iff {field : LengthField} {data : List UInt8}
    (fits : data.length < field.limit) :
    pushing? data =
        some ⟨.pushCounted field, LittleEndian.bytes field.width data.length ++ data⟩ ↔
      field.least ≤ data.length := by
  constructor
  · intro chosen
    rcases pushing?_cases chosen with ⟨_, same⟩ | ⟨long, found, narrowest, same⟩
    · cases same
    · have sameField : field = found := by
        simpa using congrArg Instruction.opcode same
      rw [← sameField] at narrowest
      exact ((LengthField.narrowest?_eq_some_iff long field).mp narrowest).1
  · intro needed
    have long : 76 ≤ data.length := Nat.le_trans field.inline_lt_least needed
    have narrowest := (LengthField.narrowest?_eq_some_iff long field).mpr ⟨needed, fits⟩
    simp [pushing?, Nat.not_lt.mpr long, narrowest]

/-- A push that was chosen for a payload is the narrowest. -/
theorem narrowest_of_pushing? {data : List UInt8} {push : Instruction}
    (chosen : pushing? data = some push) : push.Narrowest := by
  intro payload pushes
  rw [pushData?_of_pushing? chosen, Option.some.injEq] at pushes
  rw [← pushes, chosen]

/-- The narrowest pushes are those that use no wider length than needed. An inline push is
always narrow, and a counted one is so if its payload needs the field. Both are vacuous
for instructions that push no payload. -/
theorem narrowest_iff_not_widened {instruction : Instruction}
    (wellFormed : instruction.WellFormed) :
    instruction.Narrowest ↔ ¬instruction.Widened := by
  constructor
  · rintro narrowest ⟨field, data, counted, pushes, spare⟩
    have chosen := narrowest data pushes
    rcases pushData?_cases wellFormed pushes with ⟨_, rfl⟩ | ⟨other, fits, rfl⟩
    · cases counted
    · cases counted
      have needed := (pushing?_eq_counted_iff fits).mp chosen
      omega
  · intro unwidened data pushes
    rcases pushData?_cases wellFormed pushes with ⟨short, rfl⟩ | ⟨field, fits, rfl⟩
    · exact dif_pos short
    · apply (pushing?_eq_counted_iff fits).mpr
      apply Nat.le_of_not_lt
      intro spare
      exact unwidened ⟨field, data, rfl, pushes, spare⟩

/-- Exactly the narrowest pushes, and all that push no payload, come back unchanged. -/
theorem rebuilt_eq_self_iff {instruction : Instruction} (wellFormed : instruction.WellFormed) :
    instruction.rebuilt = instruction ↔ instruction.Narrowest := by
  rcases rebuilt_cases wellFormed with ⟨pushesNothing, same⟩ | ⟨data, pushes, chosen⟩
  · refine iff_of_true same ?_
    intro data pushes
    rw [pushesNothing] at pushes
    cases pushes
  · constructor
    · intro same
      rw [same] at chosen
      exact narrowest_of_pushing? chosen
    · intro narrowest
      rw [narrowest data pushes, Option.some.injEq] at chosen
      exact chosen.symm

/-- What came back once comes back unchanged. -/
theorem rebuilt_rebuilt {instruction : Instruction} (wellFormed : instruction.WellFormed) :
    instruction.rebuilt.rebuilt = instruction.rebuilt := by
  rcases rebuilt_cases wellFormed with ⟨_, same⟩ | ⟨data, _, chosen⟩
  · rw [same, same]
  · exact (rebuilt_eq_self_iff (wellFormed_of_pushing? chosen)).mpr (narrowest_of_pushing? chosen)

/-- A jump that was read is the jump over the distance that it holds, since two bytes and
a signed word of sixteen bits determine each other. -/
theorem jumping_value (kind : Jump) (low high : UInt8) :
    jumping kind (Int16.ofNat (LittleEndian.value [low, high])) = ⟨.jump kind, [low, high]⟩ := by
  have bounded : LittleEndian.value [low, high] < 65536 := LittleEndian.value_lt [low, high]
  have number : (Int16.ofNat (LittleEndian.value [low, high])).toBitVec.toNat =
      LittleEndian.value [low, high] :=
    Nat.mod_eq_of_lt bounded
  have bytes : LittleEndian.bytes 2 (LittleEndian.value [low, high]) = [low, high] :=
    LittleEndian.bytes_value [low, high]
  rw [jumping, number, bytes]

/-- Every well-formed instruction has an operation that adds its meaning again, and this
adds the instruction that comes back for it.

Without a payload the instruction has to come back itself: a call from an identifier, for
which the operand has the width; a jump from the distance in its two bytes; all others as
they stand. A payload comes back in the push that is chosen for it. -/
theorem exists_operation {instruction : Instruction} (wellFormed : instruction.WellFormed) :
    ∃ operation, instruction.operation = .ok operation ∧
      operation.emission = Emission.row [instruction.rebuilt] := by
  rcases rebuilt_cases wellFormed with ⟨pushesNothing, same⟩ | ⟨data, pushes, chosen⟩
  · rw [same, ← Emission.instruction_eq_row]
    obtain ⟨opcode, operand⟩ := instruction
    cases opcode with
    | contractCall mode =>
      have exactly : operand.length = 20 := wellFormed
      refine ⟨.contractCall ⟨operand, exactly⟩ mode, ?_, rfl⟩
      simp [operation, Identifier.ofBytes, exactly, Except.map]
    | jump kind =>
      have exactly : operand.length = 2 := wellFormed
      obtain ⟨low, high, rfl⟩ := List.length_eq_two.mp exactly
      refine ⟨.jump (.jump kind) (Int16.ofNat (LittleEndian.value [low, high])), rfl, ?_⟩
      exact congrArg Emission.instruction (jumping_value kind low high)
    | pushBytes count => cases pushesNothing
    | pushCounted field =>
      refine ⟨.instruction ⟨.pushCounted field, operand⟩, ?_, rfl⟩
      simp [operation, jumpDistance?, pushesNothing]
    | pushMinusOne | pushNumber _ | serviceCall | plain _ => exact ⟨_, rfl, rfl⟩
  · refine ⟨.pushData data, ?_, ?_⟩
    · have standing := jumpDistance?_of_pushData? pushes
      obtain ⟨opcode, operand⟩ := instruction
      cases opcode with
      | contractCall mode => cases pushes
      | _ => simp [operation, standing, pushes]
    · simp only [Operation.emission, Emission.pushData, chosen]
      exact Emission.instruction_eq_row _

end Instruction

/-- The operations of a row of well-formed instructions all succeed and write what comes
back for them. By induction on the row; no operation is stopped, so all of them are
done. -/
theorem exists_operations {row : List Instruction}
    (wellFormed : ∀ instruction ∈ row, instruction.WellFormed) :
    ∃ operations, operationsOf row = .ok operations ∧ ∀ builder : Builder,
      builder.performToEnd operations =
        .ok ⟨builder.contents ++ assemble (row.map Instruction.rebuilt)⟩ := by
  induction row with
  | nil => exact ⟨[], rfl, fun builder => by simp [Builder.performToEnd]⟩
  | cons instruction later inductionHypothesis =>
    obtain ⟨firstWellFormed, laterWellFormed⟩ := List.forall_mem_cons.mp wellFormed
    obtain ⟨operation, first, emission⟩ := Instruction.exists_operation firstWellFormed
    obtain ⟨operations, rest, performed⟩ := inductionHypothesis laterWellFormed
    refine ⟨operation :: operations, ?_, ?_⟩
    · have rest : later.mapM Instruction.operation = .ok operations := rest
      rw [operationsOf, List.mapM_cons, first, rest]
      rfl
    · intro builder
      have succeeded : (builder.perform operation).failure = none :=
        congrArg Emission.failure emission
      have written : (builder.perform operation).builder.contents =
          builder.contents ++ instruction.rebuilt.encode := by
        rw [Builder.contents_perform, emission]
        simp [Emission.row]
      rw [Builder.performToEnd, succeeded]
      simp only [performed, written, List.map_cons, assemble_cons, List.append_assoc]

section Row

variable {row : List Instruction} (wellFormed : ∀ instruction ∈ row, instruction.WellFormed)

include wellFormed

/-- A row of well-formed instructions is rebuilt one by one. -/
theorem rebuild_assemble :
    rebuild (assemble row) = .ok (assemble (row.map Instruction.rebuilt)) := by
  obtain ⟨operations, chosen, performed⟩ := exists_operations wellFormed
  have decoded := decode_assemble wellFormed
  simp only [rebuild, decoded, Except.bind, map_locate, chosen, performed, Except.map]
  rfl

/-- What comes back for a row of well-formed instructions is one. -/
theorem wellFormed_map_rebuilt :
    ∀ instruction ∈ row.map Instruction.rebuilt, instruction.WellFormed := by
  intro other member
  obtain ⟨instruction, original, rfl⟩ := List.mem_map.mp member
  exact Instruction.wellFormed_rebuilt (wellFormed instruction original)

/-- What comes back for a row is not longer. -/
theorem length_assemble_rebuilt_le :
    (assemble (row.map Instruction.rebuilt)).length ≤ (assemble row).length := by
  induction row with
  | nil => exact Nat.le_refl 0
  | cons instruction later inductionHypothesis =>
    obtain ⟨firstWellFormed, laterWellFormed⟩ := List.forall_mem_cons.mp wellFormed
    have first := Instruction.size_rebuilt_le firstWellFormed
    have rest := inductionHypothesis laterWellFormed
    simp only [List.map_cons, assemble_cons, List.length_append, Instruction.length_encode]
    omega

/-- A row comes back unchanged exactly if it has no push that is wider than needed. Equal
bytes are the same row, so it is enough to compare instructions, place by place. -/
theorem assemble_rebuilt_eq_iff :
    assemble (row.map Instruction.rebuilt) = assemble row ↔
      ∀ instruction ∈ row, ¬instruction.Widened := by
  have kept : row.map Instruction.rebuilt = row.map id ↔
      ∀ instruction ∈ row, instruction.rebuilt = instruction := List.map_inj_left
  rw [List.map_id] at kept
  have each : ∀ instruction ∈ row,
      (instruction.rebuilt = instruction ↔ ¬instruction.Widened) := by
    intro instruction member
    have whole := wellFormed instruction member
    rw [Instruction.rebuilt_eq_self_iff whole, Instruction.narrowest_iff_not_widened whole]
  constructor
  · intro same instruction member
    have rows := assemble_injective (wellFormed_map_rebuilt wellFormed) wellFormed same
    exact (each instruction member).mp (kept.mp rows instruction member)
  · intro narrow
    rw [kept.mpr]
    intro instruction member
    exact (each instruction member).mpr (narrow instruction member)

/-- The instructions that come back for a row mean the same, one by one. Their offsets may
differ, as pushes before them may have become shorter. -/
theorem forall₂_sameMeaning :
    List.Forall₂ (fun item other : Located => item.SameMeaning other.toInstruction)
      (locate 0 row) (locate 0 (row.map Instruction.rebuilt)) := by
  have meant : List.Forall₂ Instruction.SameMeaning row (row.map Instruction.rebuilt) := by
    apply List.forall₂_map_right_iff.mpr
    apply List.forall₂_same.mpr
    intro instruction member
    exact Instruction.sameMeaning_rebuilt (wellFormed instruction member)
  have located : List.Forall₂ Instruction.SameMeaning
      ((locate 0 row).map Located.toInstruction)
      ((locate 0 (row.map Instruction.rebuilt)).map Located.toInstruction) := by
    rw [map_locate, map_locate]
    exact meant
  exact List.forall₂_map_right_iff.mp (List.forall₂_map_left_iff.mp located)

end Row

/-- Rebuilding a script that can be read to its end succeeds with all of its operations.
The result can be read to its end as well, and has as many instructions, each of which
means the same as the one at its place. It is not longer, it is the script itself exactly
if no push uses a wider length than its payload needs, and it is rebuilt as itself.

The script is a row, and rebuilding maps the row instruction by instruction. So each part
is a law about one instruction and what comes back for it. -/
theorem rebuild_keeps_meaning {script : List UInt8} {items : List Located}
    (decoded : decode script = .ok items) :
    ∃ result others, rebuild script = .ok result ∧ decode result = .ok others ∧
      List.Forall₂ (fun item other : Located => item.SameMeaning other.toInstruction) items others ∧
      result.length ≤ script.length ∧
      (result = script ↔ ∀ item ∈ items, ¬item.Widened) ∧
      rebuild result = .ok result := by
  obtain ⟨row, wellFormed, rfl, rfl⟩ := (decode_eq_ok_iff script items).mp decoded
  have rebuiltWellFormed := wellFormed_map_rebuilt wellFormed
  refine ⟨assemble (row.map Instruction.rebuilt), locate 0 (row.map Instruction.rebuilt),
    rebuild_assemble wellFormed, decode_assemble rebuiltWellFormed,
    forall₂_sameMeaning wellFormed, length_assemble_rebuilt_le wellFormed, ?_, ?_⟩
  · have narrow : (∀ instruction ∈ (locate 0 row).map Located.toInstruction,
        ¬instruction.Widened) ↔ ∀ item ∈ locate 0 row, ¬item.Widened := List.forall_mem_map
    rw [← narrow, map_locate, assemble_rebuilt_eq_iff wellFormed]
  · have again : (row.map Instruction.rebuilt).map Instruction.rebuilt =
        row.map Instruction.rebuilt := by
      rw [List.map_map]
      apply List.map_congr_left
      intro instruction member
      exact Instruction.rebuilt_rebuilt (wellFormed instruction member)
    rw [rebuild_assemble rebuiltWellFormed, again]

/-- A payload of two bytes in a field of four comes back inline, between a jump and a call
that stay as they are. -/
theorem rebuild_wide_push :
    ∃ result others, rebuild [0x62, 0xfe, 0xff, 0x4e, 2, 0, 0, 0, 7, 8, 0x68, 1, 97] =
        .ok result ∧ decode result = .ok others ∧
      List.Forall₂ (fun item other : Located => item.SameMeaning other.toInstruction)
        [⟨⟨.jump .always, [0xfe, 0xff]⟩, 0⟩, ⟨⟨.pushCounted .four, [2, 0, 0, 0, 7, 8]⟩, 3⟩,
          ⟨⟨.serviceCall, [1, 97]⟩, 10⟩] others ∧
      result ≠ [0x62, 0xfe, 0xff, 0x4e, 2, 0, 0, 0, 7, 8, 0x68, 1, 97] ∧
      rebuild result = .ok result := by
  have decoded : decode [0x62, 0xfe, 0xff, 0x4e, 2, 0, 0, 0, 7, 8, 0x68, 1, 97] =
      .ok [⟨⟨.jump .always, [0xfe, 0xff]⟩, 0⟩, ⟨⟨.pushCounted .four, [2, 0, 0, 0, 7, 8]⟩, 3⟩,
        ⟨⟨.serviceCall, [1, 97]⟩, 10⟩] :=
    (decode_eq_ok_iff _ _).mpr ⟨[⟨.jump .always, [0xfe, 0xff]⟩,
      ⟨.pushCounted .four, [2, 0, 0, 0, 7, 8]⟩, ⟨.serviceCall, [1, 97]⟩],
      by decide, by decide, rfl⟩
  obtain ⟨result, others, rebuilt, read, meaning, _, narrow, again⟩ :=
    rebuild_keeps_meaning decoded
  refine ⟨result, others, rebuilt, read, meaning, ?_, again⟩
  intro same
  have unwidened := narrow.mp same ⟨⟨.pushCounted .four, [2, 0, 0, 0, 7, 8]⟩, 3⟩ (by decide)
  exact unwidened ⟨.four, [7, 8], rfl, rfl, by decide⟩

end ContractScript
