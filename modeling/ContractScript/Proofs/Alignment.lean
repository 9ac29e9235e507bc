import ContractScript.Proofs.Parameters

/-!
# Scripts stay whole instructions

Whatever operations a builder has done, in any order and failed ones among them, its
script is a row of well-formed instructions. What one operation adds is whole by
itself: a failure stops the work between two instructions and never inside one, at
every depth of an array. So a step keeps the instructions that were there, and the
reader, which sees the script only, finds them again with new ones behind them.
-/

namespace ContractScript

/-- The call of a service is well formed if its first byte counts the bytes behind it. -/
theorem Instruction.wellFormed_serviceCall_iff {count : UInt8} {called : List UInt8} :
    (⟨.serviceCall, count :: called⟩ : Instruction).WellFormed ↔ count.toNat = called.length := by
  simp [WellFormed, Opcode.extent, Opcode.layout, Layout.extent, Extent.Fits, LengthField.width,
    LittleEndian.value]

namespace Emission

/-- The bytes of an emission are whole instructions, up to the failure if there is one. -/
def Whole (emission : Emission) : Prop :=
  ∃ instructions : List Instruction,
    (∀ instruction ∈ instructions, instruction.WellFormed) ∧
      emission.bytes = assemble instructions

/-- Nothing was cut where nothing was added. -/
theorem whole_failed (failure : ScriptError) : (failed failure).Whole :=
  ⟨[], by simp, rfl⟩

/-- A well-formed instruction is whole. -/
theorem whole_instruction {whole : Instruction} (wellFormed : whole.WellFormed) :
    (instruction whole).Whole :=
  ⟨[whole], by simpa using wellFormed, by simp [instruction]⟩

/-- Joined work is whole if both parts are: either the second part follows the first, or
the first was stopped and stands alone. In both cases the bytes end between two
instructions. -/
theorem whole_andThen {first second : Emission} (firstWhole : first.Whole)
    (secondWhole : second.Whole) : (first.andThen second).Whole := by
  obtain ⟨instructions, wellFormed, bytes⟩ := firstWhole
  obtain ⟨others, othersWellFormed, otherBytes⟩ := secondWhole
  unfold andThen
  split
  · exact ⟨instructions, wellFormed, bytes⟩
  · refine ⟨instructions ++ others, ?_, ?_⟩
    · exact List.forall_mem_append.mpr ⟨wellFormed, othersWellFormed⟩
    · rw [assemble_append, bytes, otherBytes]

/-- A payload is pushed whole or not at all. -/
theorem whole_pushData (data : List UInt8) : (pushData data).Whole := by
  unfold pushData
  split
  next push chosen => exact whole_instruction (Instruction.wellFormed_of_pushing? chosen)
  · exact whole_failed _

/-- A truth value is pushed whole. -/
theorem whole_pushBoolean (value : Bool) : (pushBoolean value).Whole := by
  cases value <;> exact whole_instruction (by decide)

/-- An integer is pushed whole or not at all: as the opcode for minus one, as that of a
small number, as the empty push for zero, or as a payload. -/
theorem whole_pushInteger (number : Int) : (pushInteger number).Whole := by
  unfold pushInteger
  split
  · exact whole_instruction (by decide)
  · split
    · exact whole_instruction (by decide)
    · split
      · exact whole_instruction rfl
      · exact whole_pushData _

/-- An identifier is pushed whole or not at all. -/
theorem whole_pushIdentifier (width : Nat) (data : List UInt8) :
    (pushIdentifier width data).Whole := by
  unfold pushIdentifier
  split
  · exact whole_pushData _
  · exact whole_failed _

/-- Packing adds the count alone if it is stopped behind it, and both otherwise. -/
theorem whole_pack (count : Nat) : (pack count).Whole :=
  whole_andThen (whole_pushInteger count) (whole_instruction (by decide))

mutual

/-- A parameter is pushed whole up to the place where it is stopped, whether it can be
pushed to its end or not. One case for each kind; an array is its elements followed by the
packing, and recurs to their list. -/
theorem whole_pushParameter (parameter : Parameter) : (pushParameter parameter).Whole := by
  cases parameter with
  | signature data | byteArray data | publicKey data => exact whole_pushData data
  | string text => exact whole_pushData (Text.utf8 text)
  | boolean value => exact whole_pushBoolean value
  | integer value => exact whole_pushInteger value.toInt
  | hash160 data => exact whole_pushIdentifier 20 data
  | hash256 data => exact whole_pushIdentifier 32 data
  | array elements =>
    rw [pushParameter]
    exact whole_andThen (whole_pushLastToFirst elements) (whole_pack elements.length)
  | unset kind => exact whole_failed _

/-- A list of parameters is pushed whole up to the place where it is stopped. The first
parameter is pushed behind the later ones, so it comes second in the joined work. -/
theorem whole_pushLastToFirst (parameters : List Parameter) :
    (pushLastToFirst parameters).Whole := by
  cases parameters with
  | nil => exact ⟨[], by simp, rfl⟩
  | cons first later =>
    rw [pushLastToFirst]
    exact whole_andThen (whole_pushLastToFirst later) (whole_pushParameter first)

end

/-- A jump is whole, and an opcode that is none adds nothing. -/
theorem whole_jump (opcode : Opcode) (distance : Int16) : (jump opcode distance).Whole := by
  unfold jump
  split
  next kind => exact whole_instruction (Instruction.wellFormed_jumping kind distance)
  · exact whole_failed _

/-- The call of a contract is whole: an identifier has the width that its opcode
announces. -/
theorem whole_contractCall (contract : Hash160) (mode : CallMode) :
    (contractCall contract mode).Whole :=
  whole_instruction contract.length_bytes

/-- An invocation is whole up to the place where it is stopped. Its arguments are those of
an array parameter, the name is a payload, and the call has a contract of twenty bytes,
because a hash of another width is refused before anything is written. -/
theorem whole_invocation (hash : List UInt8) (operation : String)
    (arguments : Option (List Parameter)) (mode : CallMode) :
    (invocation hash operation arguments mode).Whole := by
  cases arguments with
  | none => exact ⟨[], by simp, rfl⟩
  | some arguments =>
    simp only [invocation]
    split
    · exact whole_failed _
    · rw [← pushParameter_array]
      exact whole_andThen
        (whole_andThen (whole_pushParameter (.array arguments)) (whole_pushData _))
        (whole_contractCall _ mode)

/-- The call of a service is whole if its length byte can hold the length of the name. -/
theorem whole_callByName {name : List UInt8} (short : name.length < 256) :
    (callByName name).Whole :=
  whole_instruction (Instruction.wellFormed_serviceCall_iff.mpr (UInt8.toNat_ofNat_of_lt' short))

/-- Every service is called whole or not at all. The operand counts the name in a single
byte, so the count has to fit into it: a name that is written out has at most 252 bytes,
and a hashed one has four at most. -/
theorem whole_serviceCall (name : String) (hashed : Bool) : (serviceCall name hashed).Whole := by
  unfold serviceCall
  split
  · exact whole_failed _
  · split
    · apply whole_callByName
      have four : (serviceIdentifier name).length ≤ 4 := List.length_take_le 4 _
      omega
    · split
      · exact whole_failed _
      next short =>
        apply whole_callByName
        unfold longestServiceName at short
        omega

end Emission

/-- An operation that may be done adds whole instructions, also where it fails. Only for
an opcode or an instruction that is written as it stands does this need the condition; the
other operations choose their operands themselves. -/
theorem Operation.whole_emission {operation : Operation} (aligned : operation.Aligned) :
    operation.emission.Whole := by
  cases operation with
  | opcode code =>
    have bare : code.layout = .bare := aligned
    apply Emission.whole_instruction
    simp [Instruction.WellFormed, Opcode.extent, bare, Layout.extent, Extent.Fits]
  | instruction whole => exact Emission.whole_instruction aligned
  | jump code distance => exact Emission.whole_jump code distance
  | contractCall contract mode => exact Emission.whole_contractCall contract mode
  | pushData data => exact Emission.whole_pushData data
  | pushText text => exact Emission.whole_pushData (Text.utf8 text)
  | pushBoolean value => exact Emission.whole_pushBoolean value
  | pushInt64 number => exact Emission.whole_pushInteger number.toInt
  | pushInteger number => exact Emission.whole_pushInteger number
  | pushParameter parameter => exact Emission.whole_pushParameter parameter
  | invocation hash name arguments mode =>
    exact Emission.whole_invocation hash name arguments mode
  | serviceCall name hashed => exact Emission.whole_serviceCall name hashed

namespace Builder

/-- The script of a builder is a row of these instructions, all of them well formed. -/
def Holds (builder : Builder) (instructions : List Instruction) : Prop :=
  (∀ instruction ∈ instructions, instruction.WellFormed) ∧
    builder.contents = assemble instructions

/-- One operation keeps the row that stands and adds to its end. The script of the builder
is not touched, so this is the joining of two rows. -/
theorem holds_perform {builder : Builder} {instructions : List Instruction}
    {operation : Operation} (holds : builder.Holds instructions)
    (aligned : operation.Aligned) :
    ∃ new, (builder.perform operation).builder.Holds (instructions ++ new) := by
  obtain ⟨wellFormed, contents⟩ := holds
  obtain ⟨new, newWellFormed, bytes⟩ := Operation.whole_emission aligned
  refine ⟨new, List.forall_mem_append.mpr ⟨wellFormed, newWellFormed⟩, ?_⟩
  rw [contents_perform, contents, bytes, assemble_append]

/-- Any run of operations keeps the row that stands and adds to its end. By induction on
the run, with the row that the first operation leaves as the one to be kept. -/
theorem holds_performAll {builder : Builder} {instructions : List Instruction}
    {operations : List Operation} (holds : builder.Holds instructions)
    (aligned : ∀ operation ∈ operations, operation.Aligned) :
    ∃ new, (builder.performAll operations).Holds (instructions ++ new) := by
  induction operations generalizing builder instructions with
  | nil => exact ⟨[], by simpa [performAll] using holds⟩
  | cons operation later inductionHypothesis =>
    obtain ⟨firstAligned, laterAligned⟩ := List.forall_mem_cons.mp aligned
    obtain ⟨new, first⟩ := holds_perform holds firstAligned
    obtain ⟨rest, all⟩ := inductionHypothesis first laterAligned
    exact ⟨new ++ rest, by rwa [List.append_assoc] at all⟩

/-- The reader finds the row that a builder holds, and stops at the end of the script. -/
theorem read_of_holds {builder : Builder} {instructions : List Instruction}
    (holds : builder.Holds instructions) :
    read builder.contents =
      ⟨locate 0 instructions, none, ⟨builder.size, [], false⟩⟩ := by
  obtain ⟨wellFormed, contents⟩ := holds
  rw [size, contents, read_assemble wellFormed]

end Builder

/-- After every operation of every run the whole script can be read. The run may hold any
operations in any order, of which any may fail; opcodes written alone announce no operand,
and operands written as they stand fit their opcodes. At each operation of the run the
reader ends without a fault at the length of the script, and finds the instructions it
found before that operation, followed by the new ones.

The invariant is that the script is a row of well-formed instructions. It holds of the
empty script and is kept by each operation, and the reader finds exactly the row. -/
theorem reading_extends_at_each_operation (operations : List Operation)
    (aligned : ∀ operation ∈ operations, operation.Aligned)
    (earlier later : List Operation) (operation : Operation)
    (run : operations = earlier ++ operation :: later) :
    let before := Builder.empty.performAll earlier
    let after := (before.perform operation).builder
    (read after.contents).failure = none ∧
      (read after.contents).final.position = after.size ∧
      ∃ new, (read after.contents).instructions = (read before.contents).instructions ++ new := by
  subst run
  obtain ⟨earlierAligned, rest⟩ := List.forall_mem_append.mp aligned
  have operationAligned : operation.Aligned := rest operation List.mem_cons_self
  have start : Builder.empty.Holds [] := ⟨by simp, rfl⟩
  obtain ⟨old, before⟩ := Builder.holds_performAll start earlierAligned
  obtain ⟨new, after⟩ := Builder.holds_perform before operationAligned
  simp only [Builder.read_of_holds before, Builder.read_of_holds after, List.nil_append,
    locate_append]
  exact ⟨trivial, trivial, _, rfl⟩

/-- An array that is stopped in the middle, at an element without a value, leaves its last
element behind, between whole instructions. -/
theorem reading_extends_at_stopped_array :
    let before := Builder.empty.performAll [.pushText "a"]
    let step := before.perform (.pushParameter (.array [.integer 1, .unset .void, .integer 2]))
    step.failure = some .valueMissing ∧
      (read step.builder.contents).failure = none ∧
      (read step.builder.contents).final.position = step.builder.size ∧
      ∃ new, (read step.builder.contents).instructions =
        (read before.contents).instructions ++ new := by
  refine ⟨by decide +kernel, ?_⟩
  apply reading_extends_at_each_operation
    [.pushText "a", .pushParameter (.array [.integer 1, .unset .void, .integer 2]),
      .opcode (.plain .nop)]
  · simp only [List.forall_mem_cons]
    exact ⟨trivial, trivial, rfl, by simp⟩
  · rfl

end ContractScript
