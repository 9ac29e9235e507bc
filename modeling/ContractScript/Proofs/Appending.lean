import ContractScript.Builder
import ContractScript.Proofs.Reading

/-!
# What operations add

An operation adds its emission at the end of the script, wherever the script
stands, so a run of operations adds their emissions one behind the other. An
emission that was not stopped and consists of whole instructions is a row; rows
join to rows, and joined work succeeds exactly when both of its parts do.
-/

namespace ContractScript

namespace Emission

/-- A row of instructions, emitted to its end. -/
def row (instructions : List Instruction) : Emission :=
  ⟨assemble instructions, none⟩

/-- Two rows make one. -/
@[simp] theorem row_andThen_row (first second : List Instruction) :
    (row first).andThen (row second) = row (first ++ second) := by
  simp [row, andThen]

/-- A single instruction is a row. -/
theorem instruction_eq_row (whole : Instruction) : instruction whole = row [whole] := by
  simp [instruction, row]

/-- Joined work succeeds exactly when both of its parts do. -/
theorem failure_andThen_eq_none_iff (first second : Emission) :
    (first.andThen second).failure = none ↔ first.failure = none ∧ second.failure = none := by
  obtain ⟨bytes, failure⟩ := first
  cases failure <;> simp [andThen]

end Emission

namespace Builder

/-- The bytes that one operation adds to the script that stands. -/
def added (builder : Builder) (operation : Operation) : List UInt8 :=
  (builder.perform operation).builder.contents.drop builder.size

/-- What is added depends on the operation alone. -/
theorem added_eq_emission (builder : Builder) (operation : Operation) :
    builder.added operation = operation.emission.bytes := by
  simp [added, perform, size]

/-- The script that stood before is kept in front of what is added. -/
theorem contents_perform (builder : Builder) (operation : Operation) :
    (builder.perform operation).builder.contents =
      builder.contents ++ operation.emission.bytes := rfl

/-- Operations add their emissions one behind the other, the stopped ones included. No
operation looks at the script that it adds to, so the induction is over the builder as
well. -/
theorem contents_performAll (builder : Builder) (operations : List Operation) :
    (builder.performAll operations).contents =
      builder.contents ++ operations.flatMap fun operation => operation.emission.bytes := by
  induction operations generalizing builder with
  | nil => simp [performAll]
  | cons operation later inductionHypothesis =>
    have rest := inductionHypothesis (builder.perform operation).builder
    simp only [performAll, List.foldl_cons] at rest ⊢
    rw [rest, contents_perform, List.flatMap_cons, List.append_assoc]

end Builder

end ContractScript
