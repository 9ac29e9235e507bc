import ContractScript.Proofs.Items
import ContractScript.Proofs.Narrowing
import ContractScript.Proofs.Parameters

/-!
# No push is shorter

A payload can be pushed in several ways, inline or behind a length field that is wide
enough. The one that is chosen takes the fewest bytes, and every other one takes more.

An integer is pushed by an opcode of its own or as signed bytes. Either way one
instruction is written, which stands for the integer and for no other. The integers with
an opcode of their own are those that take a single byte, and the bytes of any other one
are as few as two's complement allows.
-/

namespace ContractScript

/-- A script is a single instruction exactly if it consists of the bytes of a well-formed
one. Decoding yields a row that the script assembles, and of the rows only those of one
instruction are located as a single item, at the start. -/
theorem decode_eq_single_iff (script : List UInt8) (item : Located) :
    decode script = .ok [item] ↔
      item.WellFormed ∧ item.offset = 0 ∧ script = item.encode := by
  rw [decode_eq_ok_iff]
  constructor
  · rintro ⟨row, wellFormed, rfl, located⟩
    cases row with
    | nil => cases located
    | cons instruction later =>
      cases later with
      | cons second others => cases located
      | nil =>
        cases located
        exact ⟨wellFormed instruction List.mem_cons_self, rfl, List.append_nil _⟩
  · obtain ⟨instruction, offset⟩ := item
    rintro ⟨wellFormed, rfl, rfl⟩
    exact ⟨[instruction], by simpa using wellFormed, (List.append_nil _).symm, rfl⟩

/-- An operation that emits one instruction adds the bytes of this instruction, behind any
script. -/
theorem Builder.added_of_emission (builder : Builder) {operation : Operation} {whole : Instruction}
    (emitted : operation.emission = Emission.row [whole]) :
    builder.added operation = whole.encode := by
  rw [added_eq_emission, emitted]
  exact List.append_nil whole.encode

/-- Pushing a payload succeeds, and what it adds is a single instruction that holds the
payload. Every script of a single instruction that holds the same payload is at least as
long, and it is longer unless it is the same script.

The other script is the bytes of a well-formed instruction, so that the two pushes are
compared by their sizes: the chosen one is inline or has the narrowest field, and one of
the same size is the same push. -/
theorem payload_push_is_only_shortest {data : List UInt8}
    (bounded : data.length < Parameter.payloadLimit) (builder : Builder) :
    (builder.perform (.pushData data)).failure = none ∧
    (builder.perform (.pushData data)).builder.contents =
      builder.contents ++ builder.added (.pushData data) ∧
    ∃ item, decode (builder.added (.pushData data)) = .ok [item] ∧
      item.pushData? = some data ∧
      ∀ (script : List UInt8) (other : Located), decode script = .ok [other] →
        other.pushData? = some data →
        (builder.added (.pushData data)).length ≤ script.length ∧
        (script.length = (builder.added (.pushData data)).length →
          script = builder.added (.pushData data)) := by
  obtain ⟨push, chosen⟩ := (Instruction.exists_pushing?_iff data).mpr bounded
  have emission : Emission.pushData data = Emission.row [push] := by
    rw [Emission.pushData, chosen]
    exact Emission.instruction_eq_row push
  have added : builder.added (.pushData data) = push.encode := builder.added_of_emission emission
  have wellFormed := Instruction.wellFormed_of_pushing? chosen
  have decoded := (decode_eq_single_iff push.encode ⟨push, 0⟩).mpr ⟨wellFormed, rfl, rfl⟩
  refine ⟨congrArg Emission.failure emission, ?_, ⟨push, 0⟩, ?_, ?_, ?_⟩
  · rw [Builder.contents_perform, Builder.added_eq_emission]
  · rw [added, decoded]
  · exact Instruction.pushData?_of_pushing? chosen
  · intro script other read pushes
    obtain ⟨otherWellFormed, _, rfl⟩ := (decode_eq_single_iff script other).mp read
    simp only [added, Instruction.length_encode]
    refine ⟨Instruction.size_le_of_pushing? otherWellFormed pushes chosen, ?_⟩
    intro sameSize
    have same := Instruction.eq_of_size_le_pushing? otherWellFormed pushes chosen
      (Nat.le_of_eq sameSize)
    rw [same]

/-- Seventy-six bytes are one too many for an inline push. They are pushed behind a field
of one byte, two bytes in front in all, and the same payload behind a field of two bytes
is longer. -/
theorem payload_push_of_seventy_six :
    let data := List.replicate 76 9
    Builder.empty.added (.pushData data) = 0x4c :: 76 :: data ∧
      (Builder.empty.added (.pushData data)).length < (0x4d :: 76 :: 0 :: data).length := by
  intro data
  have bounded : data.length < Parameter.payloadLimit := by decide
  obtain ⟨_, _, item, decoded, pushes, shortest⟩ :=
    payload_push_is_only_shortest bounded Builder.empty
  have written : Builder.empty.added (.pushData data) = 0x4c :: 76 :: data := by decide
  have wide : decode (0x4d :: 76 :: 0 :: data) =
      .ok [⟨⟨.pushCounted .two, 76 :: 0 :: data⟩, 0⟩] :=
    (decode_eq_single_iff _ _).mpr ⟨by decide, rfl, rfl⟩
  obtain ⟨shorter, only⟩ := shortest _ _ wide (by decide)
  refine ⟨written, Nat.lt_of_le_of_ne shorter ?_⟩
  intro sameLength
  have same := only sameLength.symm
  rw [written] at same
  cases same

namespace Instruction

/-- A chosen push takes an opcode and at least the bytes of its payload, and no more than
these if the payload is short enough for an inline push. -/
theorem size_of_pushing? {data : List UInt8} {push : Instruction}
    (chosen : pushing? data = some push) :
    data.length < push.size ∧ (data.length < 76 → push.size = 1 + data.length) := by
  rcases pushing?_cases chosen with ⟨_, rfl⟩ | ⟨long, field, _, rfl⟩
  · simp only [size]
    exact ⟨by omega, fun _ => trivial⟩
  · simp only [size, List.length_append, LittleEndian.length_bytes]
    exact ⟨by omega, fun short => absurd short (Nat.not_lt.mpr long)⟩

end Instruction

namespace Parameter

/-- The integers with an opcode of their own, zero included, are pushed without a payload.
Zero is the item of no bytes, whose push is the opcode alone, and the others are numbers
of their opcode. -/
theorem size_of_constant {number : Int} {push : Instruction} (constant : -1 ≤ number ∧ number ≤ 16)
    (chosen : (integerItem number).push? = some push) : push.size = 1 := by
  unfold integerItem at chosen
  split at chosen
  · cases chosen
    rfl
  · simp only [Item.push?] at chosen
    split at chosen
    · cases chosen
      rfl
    · split at chosen
      · cases chosen
        rfl
      · cases chosen

/-- Any other integer is pushed as its signed bytes. Zero is among the integers with an
opcode, so the case of the empty item does not arise here. -/
theorem integerItem_of_not_constant {number : Int} (other : ¬(-1 ≤ number ∧ number ≤ 16)) :
    integerItem number = .bytes (SignedBytes.encode number) := by
  have nonzero : number ≠ 0 := by omega
  rw [integerItem, if_neg nonzero, if_neg other]

/-- The instruction of an integer takes a single byte exactly if the integer has an opcode
of its own. Any other one has at least one signed byte, and a push takes more than its
payload. -/
theorem size_eq_one_iff {number : Int} {push : Instruction}
    (chosen : (integerItem number).push? = some push) :
    push.size = 1 ↔ -1 ≤ number ∧ number ≤ 16 := by
  constructor
  · intro single
    apply Decidable.byContradiction
    intro other
    rw [integerItem_of_not_constant other] at chosen
    have present := SignedBytes.length_encodeOnto_pos [] number
    have larger := (Instruction.size_of_pushing? chosen).1
    simp only [SignedBytes.encode] at larger
    omega
  · intro constant
    exact size_of_constant constant chosen

/-- An integer has few enough signed bytes if any of its byte strings has. Of the byte
strings only the empty one may be shorter than the signed bytes, and it stands for zero,
which takes one byte. -/
theorem length_encode_lt_of_value {number : Int} {data : List UInt8}
    (stands : SignedBytes.value data = number) (short : data.length < payloadLimit) :
    (SignedBytes.encode number).length < payloadLimit := by
  subst stands
  by_cases present : data = []
  · subst present
    decide +kernel
  · exact Nat.lt_of_le_of_lt (SignedBytes.length_encode_le_of_value present) short

/-- The instruction of a machine integer takes at most an opcode and eight bytes: either
it has an opcode of its own, or its signed bytes are at most eight and fit an inline
push. -/
theorem size_le_of_int64 {value : Int64} {push : Instruction}
    (chosen : (integerItem value.toInt).push? = some push) : push.size ≤ 9 := by
  have short := length_encode_int64_le value
  by_cases constant : -1 ≤ value.toInt ∧ value.toInt ≤ 16
  · rw [size_of_constant constant chosen]
    decide
  · rw [integerItem_of_not_constant constant] at chosen
    have exactly := (Instruction.size_of_pushing? chosen).2 (by omega)
    omega

end Parameter

namespace Builder

/-- An integer adds the instruction of its item, or nothing if its signed bytes are too
many for a payload. The second is a failed push, of which no byte is left behind. -/
theorem added_pushInteger (builder : Builder) (number : Int) :
    (∃ push, (Parameter.integerItem number).push? = some push ∧
      builder.added (.pushInteger number) = push.encode) ∨
    builder.added (.pushInteger number) = [] := by
  rcases Emission.pushInteger_pushes number with ⟨_, push, chosen, emitted⟩ | ⟨_, emitted⟩
  · exact .inl ⟨push, chosen, builder.added_of_emission emitted⟩
  · rw [added_eq_emission, Operation.emission, emitted]
    exact .inr rfl

/-- An integer is determined by the instruction that it adds. The instruction is read back
from its bytes, and pushes an item that stands for one integer only; an integer that adds
nothing adds no instruction at all. -/
theorem eq_of_added_pushInteger {builder : Builder} {number other : Int} {push : Instruction}
    (chosen : (Parameter.integerItem number).push? = some push)
    (same : builder.added (.pushInteger other) = push.encode) : other = number := by
  rcases builder.added_pushInteger other with ⟨otherPush, otherChosen, added⟩ | nothing
  · obtain ⟨wellFormed, _, pushed⟩ := Item.push?_spec chosen
    obtain ⟨otherWellFormed, _, otherPushed⟩ := Item.push?_spec otherChosen
    rw [added] at same
    have samePush := Instruction.eq_of_encode_eq otherWellFormed wellFormed same
    rw [samePush, pushed] at otherPushed
    have items := congrArg Item.integer? (Option.some.inj otherPushed)
    rw [Item.integer?_integerItem, Item.integer?_integerItem] at items
    exact (Option.some.inj items).symm
  · rw [nothing] at same
    cases same

end Builder

/-- Pushing an integer that some byte string of a payload's length stands for succeeds.
What it adds is a single instruction, which stands for the integer, and no other integer
adds the same bytes. It takes a single byte exactly for the integers from minus one to
sixteen, and any other integer is held by a payload than which no byte string of the same
value is shorter. A machine integer is pushed as the integer that it is, in at most nine
bytes.

The byte string bounds the signed bytes, so there is an instruction for the item of the
integer, and each part is a property of this one instruction. That of the payload uses
that the signed bytes are the shortest. -/
theorem integer_push_is_shortest_and_unique :
    (∀ number : Int,
      (∃ data, SignedBytes.value data = number ∧ data.length < Parameter.payloadLimit) →
      ∀ builder : Builder,
      (builder.perform (.pushInteger number)).failure = none ∧
      (builder.perform (.pushInteger number)).builder.contents =
        builder.contents ++ builder.added (.pushInteger number) ∧
      ∃ item, decode (builder.added (.pushInteger number)) = .ok [item] ∧
        item.integer? = some number ∧
        ((builder.added (.pushInteger number)).length = 1 ↔ -1 ≤ number ∧ number ≤ 16) ∧
        (¬(-1 ≤ number ∧ number ≤ 16) →
          ∃ payload, item.pushData? = some payload ∧ SignedBytes.value payload = number ∧
            ∀ data, SignedBytes.value data = number → payload.length ≤ data.length) ∧
        ∀ other : Int, builder.added (.pushInteger other) = builder.added (.pushInteger number) →
          other = number) ∧
    ∀ (value : Int64) (builder : Builder),
      (builder.perform (.pushInt64 value)).failure = none ∧
      builder.added (.pushInt64 value) = builder.added (.pushInteger value.toInt) ∧
      (builder.added (.pushInt64 value)).length ≤ 9 := by
  constructor
  · rintro number ⟨data, stands, short⟩ builder
    have bounded := Parameter.length_encode_lt_of_value stands short
    obtain ⟨push, chosen, emission⟩ := (Emission.pushInteger_pushes number).exists_push bounded
    obtain ⟨wellFormed, _, pushed⟩ := Item.push?_spec chosen
    have added : builder.added (.pushInteger number) = push.encode :=
      builder.added_of_emission emission
    have decoded := (decode_eq_single_iff push.encode ⟨push, 0⟩).mpr ⟨wellFormed, rfl, rfl⟩
    refine ⟨congrArg Emission.failure emission, ?_, ⟨push, 0⟩, ?_, ?_, ?_, ?_, ?_⟩
    · rw [Builder.contents_perform, Builder.added_eq_emission]
    · rw [added, decoded]
    · rw [Instruction.integer?, pushed, Option.bind_some, Item.integer?_integerItem]
    · rw [added, Instruction.length_encode]
      exact Parameter.size_eq_one_iff chosen
    · intro other
      rw [Parameter.integerItem_of_not_constant other] at chosen
      refine ⟨SignedBytes.encode number, Instruction.pushData?_of_pushing? chosen,
        SignedBytes.value_encode number, ?_⟩
      rintro shorter rfl
      apply SignedBytes.length_encode_le_of_value
      rintro rfl
      exact other (by decide)
    · intro other same
      exact Builder.eq_of_added_pushInteger chosen (same.trans added)
  · intro value builder
    obtain ⟨push, chosen, emission⟩ := (Emission.pushInteger_pushes value.toInt).exists_push
      (Parameter.length_encode_int64 value)
    have added : builder.added (.pushInt64 value) = push.encode :=
      builder.added_of_emission emission
    refine ⟨congrArg Emission.failure emission, ?_, ?_⟩
    · rw [Builder.added_eq_emission, Builder.added_eq_emission]
      rfl
    · rw [added, Instruction.length_encode]
      exact Parameter.size_le_of_int64 chosen

/-- One more than a signed byte holds takes a payload of two bytes, which no other integer
shares and none undercuts, and the lowest machine integer takes all nine bytes. -/
theorem integer_push_of_sign_limits :
    Builder.empty.added (.pushInteger 128) = [0x02, 0x00, 0x80] ∧
      (∀ other : Int, Builder.empty.added (.pushInteger other) = [0x02, 0x00, 0x80] →
        other = 128) ∧
      (∀ data, SignedBytes.value data = 128 → 2 ≤ data.length) ∧
      (Builder.empty.added (.pushInt64 Int64.minValue)).length = 9 := by
  obtain ⟨integers, _⟩ := integer_push_is_shortest_and_unique
  have written : Builder.empty.added (.pushInteger 128) = [0x02, 0x00, 0x80] := by decide +kernel
  have lowest : (Builder.empty.added (.pushInt64 Int64.minValue)).length = 9 := by decide +kernel
  obtain ⟨_, _, item, decoded, _, _, shortest, unique⟩ :=
    integers 128 ⟨[0x00, 0x80], by decide, by decide⟩ Builder.empty
  obtain ⟨payload, held, _, least⟩ := shortest (by decide)
  rw [written] at decoded unique
  have read : decode [0x02, 0x00, 0x80] = .ok [⟨⟨.pushBytes 2, [0x00, 0x80]⟩, 0⟩] := by
    decide +kernel
  rw [read] at decoded
  cases decoded
  cases held
  exact ⟨written, unique, least, lowest⟩

end ContractScript
