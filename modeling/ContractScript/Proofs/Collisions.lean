import ContractScript.Proofs.Invocations

/-!
# Which parameters share their bytes

Two parameters are written alike exactly when a contract sees the same item for both.
From the item to the bytes this is so because the encoder factors through the item;
from the bytes to the item because a row can be read back and replayed. Parameters are
not delimited, and one encoding may begin with another, but a whole encoding leaves
exactly one item on an empty stack.

Invocations are told apart by the contract, the name of the operation, the mode of the
call and the items of their arguments, and by nothing else.
-/

namespace ContractScript

/-- A row belongs to at most one item: the one that replaying it on an empty stack
leaves. -/
theorem Item.pushes?_injective {first second : Item} {row : List Instruction}
    (firstWritten : first.pushes? = some row) (secondWritten : second.pushes? = some row) :
    first = second := by
  have replayed := replay?_pushes? first firstWritten []
  rw [replay?_pushes? second secondWritten [], Option.some.injEq] at replayed
  exact (List.head_eq_of_cons_eq replayed).symm

/-- A text is determined by its bytes. -/
theorem Text.utf8_injective {first second : String} (same : utf8 first = utf8 second) :
    first = second := by
  simp only [utf8, String.toUTF8_eq_toByteArray] at same
  have data := Array.toList_inj.mp same
  exact String.toByteArray_inj.mp (ByteArray.ext data)

namespace Parameter

/-- The items of a list are the items of its parameters, one by one. The list has items
only if every parameter has one, so nothing is skipped and the places agree. -/
theorem map_item?_of_items? {parameters : List Parameter} {items : List Item}
    (meant : items? parameters = some items) : parameters.map item? = items.map some := by
  induction parameters generalizing items with
  | nil =>
    cases meant
    rfl
  | cons first later inductionHypothesis =>
    rw [items?] at meant
    split at meant
    next item rest firstMeant laterMeant =>
      cases meant
      rw [List.map_cons, List.map_cons, firstMeant, inductionHypothesis laterMeant]
    · cases meant

/-- Lists that have items have the same ones exactly when their parameters do, one by one.
Both lists of options are full, so comparing them is comparing what they hold. -/
theorem items_eq_iff {first second : List Parameter} {firstItems secondItems : List Item}
    (firstMeant : items? first = some firstItems)
    (secondMeant : items? second = some secondItems) :
    firstItems = secondItems ↔ first.map item? = second.map item? := by
  rw [map_item?_of_items? firstMeant, map_item?_of_items? secondMeant]
  constructor
  · rintro rfl
    rfl
  · intro same
    exact List.map_inj_right (fun _ _ equal => Option.some.inj equal) |>.mp same

/-- Encodable parameters are written alike exactly when they have the same item.

Each of them is the row of its item. Equal bytes are one row, because a row of well-formed
instructions can be read back from its bytes, and one row belongs to one item. Conversely
the row is chosen for the item and does not depend on the parameter otherwise. -/
theorem bytes_eq_iff {first second : Parameter} (firstEncodable : first.Encodable)
    (secondEncodable : second.Encodable) :
    (Emission.pushParameter first).bytes = (Emission.pushParameter second).bytes ↔
      first.item? = second.item? := by
  obtain ⟨item, row, firstMeant, firstWritten, firstPushed⟩ := exists_row first firstEncodable
  obtain ⟨other, otherRow, secondMeant, secondWritten, secondPushed⟩ :=
    exists_row second secondEncodable
  rw [firstMeant, secondMeant, firstPushed, secondPushed]
  constructor
  · intro same
    have rows : row = otherRow := assemble_injective
      (fun instruction member => (Item.builds_pushes? item firstWritten instruction member).1)
      (fun instruction member => (Item.builds_pushes? other secondWritten instruction member).1)
      same
    subst rows
    rw [Item.pushes?_injective firstWritten secondWritten]
  · intro same
    cases same
    rw [firstWritten] at secondWritten
    cases secondWritten
    rfl

end Parameter

/-- Successful invocations with arguments write the same bytes exactly when they name the
same contract and operation, call in the same mode, and have arguments with the same
items.

Equal bytes are one row. Its last instruction is the call, which shows the mode and the
contract; what stands before it replays to the name above the argument array. The name is
a text by its bytes, and the array gives the items place by place. -/
theorem Emission.invocation_bytes_eq_iff {contract otherContract : List UInt8}
    {operation otherOperation : String} {arguments otherArguments : List Parameter}
    {mode otherMode : CallMode}
    (succeeded : (invocation contract operation (some arguments) mode).failure = none)
    (otherSucceeded :
      (invocation otherContract otherOperation (some otherArguments) otherMode).failure = none) :
    (invocation contract operation (some arguments) mode).bytes =
        (invocation otherContract otherOperation (some otherArguments) otherMode).bytes ↔
      contract = otherContract ∧ operation = otherOperation ∧ mode = otherMode ∧
        arguments.map Parameter.item? = otherArguments.map Parameter.item? := by
  obtain ⟨exactly, items, pushed, name, meant, written, chosen, emitted⟩ :=
    invocation_row succeeded
  obtain ⟨otherExactly, otherItems, otherPushed, otherName, otherMeant, otherWritten,
    otherChosen, otherEmitted⟩ := invocation_row otherSucceeded
  rw [emitted, otherEmitted, ← Parameter.items_eq_iff meant otherMeant]
  constructor
  · intro same
    have rows := assemble_injective
      (Item.wellFormed_invocation written chosen mode exactly)
      (Item.wellFormed_invocation otherWritten otherChosen otherMode otherExactly) same
    obtain ⟨before, call⟩ := List.append_inj' rows rfl
    simp only [Instruction.calling, List.cons.injEq, Instruction.mk.injEq,
      Opcode.contractCall.injEq, and_true] at call
    have replayed := Item.replay?_array_name written chosen
    rw [before, Item.replay?_array_name otherWritten otherChosen] at replayed
    simp only [Option.some.injEq, List.cons.injEq, Item.bytes.injEq, Item.array.injEq,
      and_true] at replayed
    exact ⟨call.2, Text.utf8_injective replayed.1.symm, call.1, replayed.2.symm⟩
  · rintro ⟨rfl, rfl, rfl, rfl⟩
    rw [written] at otherWritten
    rw [chosen] at otherChosen
    cases otherWritten
    cases otherChosen
    rfl

/-- Bytes are shared exactly where they are meant to be. Whatever was written before, two
encodable parameters add the same bytes exactly when they have the same item, and two
successful invocations with arguments add the same bytes exactly when contract, operation
and mode agree and the arguments have the same items at the same places.

The two builders need not be the same, since an operation adds the same bytes to both.
Being encodable cannot be left out: parameters that are stopped may add nothing and agree
in this. -/
theorem added_eq_iff_same_meaning (builder other : Builder) :
    (∀ first second : Parameter, first.Encodable → second.Encodable →
      (builder.added (.pushParameter first) = other.added (.pushParameter second) ↔
        first.item? = second.item?)) ∧
    (∀ (contract otherContract : List UInt8) (operation otherOperation : String)
      (arguments otherArguments : List Parameter) (mode otherMode : CallMode),
      (builder.perform
        (.invocation contract operation (some arguments) mode)).failure = none →
      (other.perform
        (.invocation otherContract otherOperation (some otherArguments) otherMode)).failure =
          none →
      (builder.added (.invocation contract operation (some arguments) mode) =
          other.added
            (.invocation otherContract otherOperation (some otherArguments) otherMode) ↔
        contract = otherContract ∧ operation = otherOperation ∧ mode = otherMode ∧
          arguments.map Parameter.item? = otherArguments.map Parameter.item?)) := by
  constructor
  · intro first second firstEncodable secondEncodable
    rw [Builder.added_eq_emission, Builder.added_eq_emission]
    exact Parameter.bytes_eq_iff firstEncodable secondEncodable
  · intro contract otherContract operation otherOperation arguments otherArguments mode
      otherMode succeeded otherSucceeded
    rw [Builder.added_eq_emission, Builder.added_eq_emission]
    exact Emission.invocation_bytes_eq_iff succeeded otherSucceeded

/-- True and one share their byte, also as arguments; five is told apart from the array
that holds it, although the bytes of the one begin the bytes of the other. -/
theorem added_true_and_one :
    Builder.empty.added (.pushParameter (.boolean true)) =
        Builder.empty.added (.pushParameter (.integer 1)) ∧
      Builder.empty.added (.pushParameter (.integer 5)) ≠
        Builder.empty.added (.pushParameter (.array [.integer 5])) ∧
      Builder.empty.added
          (.invocation (List.replicate 20 7) "a" (some [.boolean true]) .call) =
        Builder.empty.added
          (.invocation (List.replicate 20 7) "a" (some [.integer 1]) .call) := by
  obtain ⟨parameters, invocations⟩ := added_eq_iff_same_meaning .empty .empty
  refine ⟨?_, ?_, ?_⟩
  · exact (parameters _ _ (by decide) (by decide)).mpr rfl
  · intro same
    have items := (parameters (.integer 5) (.array [.integer 5]) (by decide)
      (by decide +kernel)).mp same
    cases items
  · exact (invocations _ _ _ _ _ _ _ _ (by decide +kernel) (by decide +kernel)).mpr
      ⟨rfl, rfl, rfl, rfl⟩

end ContractScript
