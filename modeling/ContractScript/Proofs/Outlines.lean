import ContractScript.Proofs.Alignment
import ContractScript.Proofs.Invocations
import Mathlib.Data.List.Forall2

/-!
# Contents do not change the structure of a script

The outline of an instruction is its place, its opcode and its size. What is emitted for
two parameters of the same shape has the same outline, although the payloads may differ
in every byte, because only their lengths decide how they are pushed. Where one of the
two is stopped, the other is stopped at the same place with the same fault.

The relation between two emissions is kept by joining, so each part of an invocation can be
compared for itself. A part that both share is related to itself, as everything that is
emitted is whole.
-/

namespace ContractScript

/-- Where an instruction stands, which one it is, and how many bytes it takes. -/
def Located.outline (item : Located) : Nat × Opcode × Nat :=
  (item.offset, item.opcode, item.size)

namespace Instruction

/-- Two instructions differ at most in the contents of their operands. -/
def Alike (first second : Instruction) : Prop :=
  first.opcode = second.opcode ∧ first.operand.length = second.operand.length

/-- An instruction is like itself. -/
theorem alike_refl (instruction : Instruction) : instruction.Alike instruction :=
  ⟨rfl, rfl⟩

/-- Instructions that are alike have the same size. -/
theorem Alike.size_eq {first second : Instruction} (alike : first.Alike second) :
    first.size = second.size := by
  rw [size, size, alike.2]

/-- Payloads of equal length are pushed alike: inline, or in the same field. The choice
looks at the length alone, and what stands in front of the payload is of the same
width. -/
theorem alike_of_pushing? {first second : List UInt8} {push other : Instruction}
    (lengths : first.length = second.length) (chosen : pushing? first = some push)
    (otherChosen : pushing? second = some other) : push.Alike other := by
  rcases pushing?_cases chosen with ⟨short, rfl⟩ | ⟨long, field, narrowest, rfl⟩
  · rcases pushing?_cases otherChosen with ⟨_, rfl⟩ | ⟨otherLong, _⟩
    · exact ⟨by simp [lengths], lengths⟩
    · omega
  · rcases pushing?_cases otherChosen with ⟨otherShort, _⟩ | ⟨_, otherField, found, rfl⟩
    · omega
    · have fields : field = otherField := by
        rw [lengths, found, Option.some.injEq] at narrowest
        exact narrowest.symm
      subst fields
      exact ⟨rfl, by simp [lengths]⟩

end Instruction

/-- Rows that are alike write equally many bytes. -/
theorem length_assemble_of_alike {row other : List Instruction}
    (alike : List.Forall₂ Instruction.Alike row other) :
    (assemble row).length = (assemble other).length := by
  induction alike with
  | nil => rfl
  | cons first _ inductionHypothesis =>
    simp only [assemble_cons, List.length_append, Instruction.length_encode, first.size_eq,
      inductionHypothesis]

/-- Rows that are alike have the same outline wherever they start: each instruction has
its opcode and its size, and with the sizes the places agree. -/
theorem outline_locate_of_alike {row other : List Instruction}
    (alike : List.Forall₂ Instruction.Alike row other) (offset : Nat) :
    (locate offset row).map Located.outline = (locate offset other).map Located.outline := by
  induction alike generalizing offset with
  | nil => rfl
  | @cons instruction second later others first _ inductionHypothesis =>
    have heads : (⟨instruction, offset⟩ : Located).outline =
        (⟨second, offset⟩ : Located).outline := by
      simp only [Located.outline, first.1, first.size_eq]
    rw [locate, locate, List.map_cons, List.map_cons, heads, first.size_eq,
      inductionHypothesis]

namespace Emission

/-- Two emissions are stopped by the same fault, or not at all, and write whole
instructions that are alike. -/
structure Alike (first second : Emission) : Prop where
  failure : first.failure = second.failure
  rows : ∃ row other : List Instruction,
    (∀ instruction ∈ row, instruction.WellFormed) ∧
      (∀ instruction ∈ other, instruction.WellFormed) ∧
      first.bytes = assemble row ∧ second.bytes = assemble other ∧
      List.Forall₂ Instruction.Alike row other

/-- A whole emission is like itself. That it is whole is needed, because being alike
speaks of rows. -/
theorem Whole.alike {emission : Emission} (whole : emission.Whole) : emission.Alike emission := by
  obtain ⟨row, wellFormed, bytes⟩ := whole
  refine ⟨rfl, row, row, wellFormed, wellFormed, bytes, bytes, ?_⟩
  exact List.forall₂_same.mpr fun instruction _ => instruction.alike_refl

/-- Well-formed instructions that are alike make emissions that are alike. -/
theorem alike_row {push other : Instruction} (wellFormed : push.WellFormed)
    (otherWellFormed : other.WellFormed) (alike : push.Alike other) :
    (row [push]).Alike (row [other]) := by
  refine ⟨rfl, [push], [other], ?_, ?_, rfl, rfl, .cons alike .nil⟩
  · simpa using wellFormed
  · simpa using otherWellFormed

/-- Joined work is alike if its parts are: either both first parts are stopped, or both
second parts follow. The first parts have the same fault or none, so one cannot be stopped
alone. -/
theorem Alike.andThen {first second third fourth : Emission} (front : first.Alike second)
    (back : third.Alike fourth) : (first.andThen third).Alike (second.andThen fourth) := by
  obtain ⟨failure, row, other, wellFormed, otherWellFormed, bytes, otherBytes, alike⟩ := front
  cases stopped : first.failure with
  | some fault =>
    have otherStopped : second.failure = some fault := failure ▸ stopped
    simp only [Emission.andThen, stopped, otherStopped]
    exact ⟨failure, row, other, wellFormed, otherWellFormed, bytes, otherBytes, alike⟩
  | none =>
    have otherStopped : second.failure = none := failure ▸ stopped
    obtain ⟨backFailure, backRow, backOther, backWellFormed, backOtherWellFormed, backBytes,
      backOtherBytes, backAlike⟩ := back
    simp only [Emission.andThen, stopped, otherStopped]
    refine ⟨backFailure, row ++ backRow, other ++ backOther, ?_, ?_, ?_, ?_, ?_⟩
    · exact List.forall_mem_append.mpr ⟨wellFormed, backWellFormed⟩
    · exact List.forall_mem_append.mpr ⟨otherWellFormed, backOtherWellFormed⟩
    · rw [assemble_append, bytes, backBytes]
    · rw [assemble_append, otherBytes, backOtherBytes]
    · exact List.rel_append alike backAlike

/-- Payloads of equal length are pushed alike, or both are too long and are stopped by the
same fault, which names the length only. -/
theorem alike_pushData {first second : List UInt8} (lengths : first.length = second.length) :
    (pushData first).Alike (pushData second) := by
  rcases pushData_pushes first with ⟨_, push, chosen, pushed⟩ | ⟨exceeded, stopped⟩
  · rcases pushData_pushes second with ⟨_, other, otherChosen, otherPushed⟩ | ⟨exceeded, _⟩
    · rw [pushed, otherPushed]
      exact alike_row (Instruction.wellFormed_of_pushing? chosen)
        (Instruction.wellFormed_of_pushing? otherChosen)
        (Instruction.alike_of_pushing? lengths chosen otherChosen)
    · omega
  · rcases pushData_pushes second with ⟨bounded, _⟩ | ⟨_, otherStopped⟩
    · omega
    · rw [stopped, otherStopped, lengths]
      exact (whole_failed _).alike

/-- Identifiers of equal length are pushed alike, or both have the wrong width, which is
all that their fault shows of them. -/
theorem alike_pushIdentifier (width : Nat) {first second : List UInt8}
    (lengths : first.length = second.length) :
    (pushIdentifier width first).Alike (pushIdentifier width second) := by
  by_cases exactly : first.length = width
  · rw [pushIdentifier_exact exactly, pushIdentifier_exact (lengths ▸ exactly)]
    exact alike_pushData lengths
  · rw [pushIdentifier_inexact exactly, pushIdentifier_inexact (lengths ▸ exactly), lengths]
    exact (whole_failed _).alike

end Emission

/-- Lists of the same shape have equally many parameters. -/
theorem Parameter.length_eq_of_sameShapes {first second : List Parameter}
    (shapes : SameShapes first second) : first.length = second.length := by
  induction first generalizing second with
  | nil =>
    cases second with
    | nil => rfl
    | cons _ _ => cases shapes
  | cons parameter later inductionHypothesis =>
    cases second with
    | nil => cases shapes
    | cons other others =>
      rw [List.length_cons, List.length_cons, inductionHypothesis shapes.2]

namespace Emission

mutual

/-- Parameters of the same shape are pushed alike, up to the same fault if there is one.
Only parameters of the same kind have the same shape, and each kind is pushed by the
length of its payload or by a value that both share. The elements of two arrays are
compared as lists, and the packing is the same for both. -/
theorem alike_pushParameter (first second : Parameter) (shape : first.SameShape second) :
    (pushParameter first).Alike (pushParameter second) := by
  cases first with
  | signature data =>
    cases second with
    | signature other => exact alike_pushData shape
    | _ => cases shape
  | byteArray data =>
    cases second with
    | byteArray other => exact alike_pushData shape
    | _ => cases shape
  | publicKey data =>
    cases second with
    | publicKey other => exact alike_pushData shape
    | _ => cases shape
  | string text =>
    cases second with
    | string other => exact alike_pushData shape
    | _ => cases shape
  | hash160 data =>
    cases second with
    | hash160 other => exact alike_pushIdentifier 20 shape
    | _ => cases shape
  | hash256 data =>
    cases second with
    | hash256 other => exact alike_pushIdentifier 32 shape
    | _ => cases shape
  | boolean value =>
    cases second with
    | boolean other =>
      have same : value = other := shape
      rw [same]
      exact (whole_pushParameter _).alike
    | _ => cases shape
  | integer value =>
    cases second with
    | integer other =>
      have same : value = other := shape
      rw [same]
      exact (whole_pushParameter _).alike
    | _ => cases shape
  | unset kind =>
    cases second with
    | unset other => exact (whole_failed .valueMissing).alike
    | _ => cases shape
  | array elements =>
    cases second with
    | array others =>
      rw [pushParameter, pushParameter, Parameter.length_eq_of_sameShapes shape]
      exact (alike_pushLastToFirst elements others shape).andThen (whole_pack _).alike
    | _ => cases shape

/-- Lists of the same shape are pushed alike, the later parameters before the first
ones. -/
theorem alike_pushLastToFirst (first second : List Parameter)
    (shapes : Parameter.SameShapes first second) :
    (pushLastToFirst first).Alike (pushLastToFirst second) := by
  cases first with
  | nil =>
    cases second with
    | nil => exact (whole_pushLastToFirst []).alike
    | cons _ _ => cases shapes
  | cons parameter later =>
    cases second with
    | nil => cases shapes
    | cons other others =>
      rw [pushLastToFirst, pushLastToFirst]
      exact (alike_pushLastToFirst later others shapes.2).andThen
        (alike_pushParameter parameter other shapes.1)

end

/-- Invocations of contracts of equal width, with names of equal length and arguments of
the same shape, write alike. Arrays, names and calls are alike each for itself, and
joining keeps that; contracts of another width are refused in both cases. -/
theorem alike_invocation {contract otherContract : List UInt8}
    {operation otherOperation : String} {arguments otherArguments : List Parameter}
    (widths : contract.length = otherContract.length)
    (names : (Text.utf8 operation).length = (Text.utf8 otherOperation).length)
    (shapes : Parameter.SameShapes arguments otherArguments) (mode : CallMode) :
    (invocation contract operation (some arguments) mode).Alike
      (invocation otherContract otherOperation (some otherArguments) mode) := by
  by_cases exactly : contract.length = 20
  · have otherExactly : otherContract.length = 20 := widths ▸ exactly
    have call : (row [.calling mode contract]).Alike (row [.calling mode otherContract]) :=
      alike_row (Instruction.wellFormed_calling mode exactly)
        (Instruction.wellFormed_calling mode otherExactly) ⟨rfl, widths⟩
    rw [invocation_exact exactly, invocation_exact otherExactly, ← pushParameter_array,
      ← pushParameter_array]
    have array : (Parameter.array arguments).SameShape (.array otherArguments) := shapes
    exact ((alike_pushParameter _ _ array).andThen (alike_pushData names)).andThen call
  · have otherInexact : otherContract.length ≠ 20 := widths ▸ exactly
    rw [invocation_inexact exactly, invocation_inexact otherInexact, widths]
    exact (whole_failed _).alike

end Emission

/-- The contents of payloads, names and identifiers cannot change the structure of an
invocation. Let two invocations in the same mode have contracts of equal width, names of
equal length in bytes, and arguments of the same shape: the same tree with the same kinds,
equal integers and truth values, and payloads of equal lengths. Then both succeed or both
fail with the same fault, they add equally many bytes, and what they add can be read to
its end in both cases, with the same opcodes of the same sizes at the same places.

Nothing is assumed about success: work that is stopped has written whole instructions, so
it has an outline as well. Both emissions are rows that are alike, and the reader finds
these. -/
theorem invocation_outline_ignores_contents (builder other : Builder)
    {contract otherContract : List UInt8} {operation otherOperation : String}
    {arguments otherArguments : List Parameter} (mode : CallMode)
    (widths : contract.length = otherContract.length)
    (names : (Text.utf8 operation).length = (Text.utf8 otherOperation).length)
    (shapes : Parameter.SameShapes arguments otherArguments) :
    let first : Operation := .invocation contract operation (some arguments) mode
    let second : Operation := .invocation otherContract otherOperation (some otherArguments) mode
    (builder.perform first).failure = (other.perform second).failure ∧
      (builder.added first).length = (other.added second).length ∧
      ∃ items others, decode (builder.added first) = .ok items ∧
        decode (other.added second) = .ok others ∧
        items.map Located.outline = others.map Located.outline := by
  intro first second
  obtain ⟨failure, row, otherRow, wellFormed, otherWellFormed, bytes, otherBytes, alike⟩ :=
    Emission.alike_invocation widths names shapes mode
  have added : builder.added first = assemble row := by
    rw [Builder.added_eq_emission]
    exact bytes
  have otherAdded : other.added second = assemble otherRow := by
    rw [Builder.added_eq_emission]
    exact otherBytes
  rw [added, otherAdded]
  exact ⟨failure, length_assemble_of_alike alike, locate 0 row, locate 0 otherRow,
    decode_assemble wellFormed, decode_assemble otherWellFormed,
    outline_locate_of_alike alike 0⟩

/-- Payloads, a name and a contract full of call opcodes have the outline of harmless ones,
also where an identifier of the wrong width stops the work behind them. -/
theorem invocation_outline_of_call_bytes :
    let hostile : List UInt8 := List.replicate 20 0x67
    let harmless : List UInt8 := List.replicate 20 0
    let arguments (data : List UInt8) : List Parameter :=
      [.hash160 [1], .array [.byteArray data, .integer 300]]
    (Builder.empty.perform (.invocation hostile "g" (some (arguments [0x67, 0x68]))
      .call)).failure = some (.identifierLength 20 1) ∧
    (Builder.empty.perform (.invocation harmless "a" (some (arguments [0, 0]))
      .call)).failure = some (.identifierLength 20 1) ∧
    ∃ items others,
      decode (Builder.empty.added (.invocation hostile "g" (some (arguments [0x67, 0x68]))
        .call)) = .ok items ∧
      decode (Builder.empty.added (.invocation harmless "a" (some (arguments [0, 0]))
        .call)) = .ok others ∧
      items.map Located.outline = others.map Located.outline := by
  intro hostile harmless arguments
  have shapes : Parameter.SameShapes (arguments [0x67, 0x68]) (arguments [0, 0]) :=
    ⟨rfl, ⟨rfl, rfl, trivial⟩, trivial⟩
  have widths : hostile.length = harmless.length := rfl
  have names : (Text.utf8 "g").length = (Text.utf8 "a").length := by decide
  obtain ⟨failure, _, outlines⟩ :=
    invocation_outline_ignores_contents .empty .empty .call widths names shapes
  have stopped : (Builder.empty.perform (.invocation hostile "g"
      (some (arguments [0x67, 0x68])) .call)).failure = some (.identifierLength 20 1) := by
    decide +kernel
  exact ⟨stopped, failure ▸ stopped, outlines⟩

end ContractScript
