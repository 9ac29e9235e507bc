import ContractScript.Proofs.Items

/-!
# Parameters are written as what they mean

An encodable parameter has an item, and pushing it emits the row of that item. The
width of an array is no obstacle: its count is written like any other integer, and
every count of a machine word is short enough. Conversely only encodable parameters
are pushed to their end, so the condition is exact.

The main statement joins the parts: any list of encodable parameters is pushed
without a failure, and reading the bytes and replaying the instructions puts the
items of the parameters on the stack in their order.
-/

namespace ContractScript

namespace Emission

/-- An identifier of the right width is pushed like any other payload. -/
theorem pushIdentifier_exact {width : Nat} {data : List UInt8} (exactly : data.length = width) :
    pushIdentifier width data = pushData data := by
  simp [pushIdentifier, Identifier.ofBytes, exactly]

/-- An identifier of another width stops the work. -/
theorem pushIdentifier_inexact {width : Nat} {data : List UInt8} (other : data.length ≠ width) :
    pushIdentifier width data = failed (.identifierLength width data.length) := by
  simp [pushIdentifier, Identifier.ofBytes, other]

/-- A count that can be packed is written by the instruction of its item and the packing.
The instruction is looked up by the item, as it is in the row of an array. -/
theorem pack_row {count : Nat} (packable : Parameter.Packable count) :
    ∃ push, (Parameter.integerItem count).push? = some push ∧
      pack count = row [push, Instruction.packing] := by
  obtain ⟨push, chosen, pushed⟩ := (pushInteger_pushes count).exists_push packable
  refine ⟨push, chosen, ?_⟩
  have packing : opcode (.plain .pack) = row [Instruction.packing] := instruction_eq_row _
  rw [pack, pushed, packing, row_andThen_row]
  rfl

/-- Packing succeeds exactly for the counts that can be packed. -/
theorem pack_succeeds_iff (count : Nat) :
    (pack count).failure = none ↔ Parameter.Packable count := by
  have packing : (opcode (.plain .pack)).failure = none := rfl
  rw [pack, failure_andThen_eq_none_iff, (pushInteger_pushes count).succeeds_iff,
    Parameter.Packable]
  simp [packing]

end Emission

namespace Parameter

/-- An array with as many elements as a machine word counts can be packed: such a count
takes nine bytes at most, one of them for its sign. -/
theorem packable_of_lt {count : Nat} (small : count < UInt64.size) : Packable count := by
  have bytes : (SignedBytes.encode count).length ≤ 8 + 1 := by
    apply SignedBytes.length_encode_le
    · simp only [LittleEndian.limit]
      omega
    · simp only [LittleEndian.limit, UInt64.size] at small ⊢
      omega
  exact Nat.lt_of_le_of_lt bytes (by decide)

/-- A machine integer takes at most eight bytes, so it is never too long for a push. -/
theorem length_encode_int64_le (value : Int64) : (SignedBytes.encode value.toInt).length ≤ 8 := by
  have above := value.le_toInt
  have below := value.toInt_lt
  have bytes : (SignedBytes.encode value.toInt).length ≤ 7 + 1 := by
    apply SignedBytes.length_encode_le
    · simp only [LittleEndian.limit]
      omega
    · simp only [LittleEndian.limit]
      omega
  exact bytes

/-- The bytes of a machine integer lie below the limit of a payload. -/
theorem length_encode_int64 (value : Int64) :
    (SignedBytes.encode value.toInt).length < payloadLimit :=
  Nat.lt_of_le_of_lt (length_encode_int64_le value) (by decide)

/-- The items of a list are as many as its parameters. -/
theorem length_items? {parameters : List Parameter} {items : List Item}
    (meant : items? parameters = some items) : items.length = parameters.length := by
  induction parameters generalizing items with
  | nil =>
    cases meant
    rfl
  | cons first later inductionHypothesis =>
    rw [items?] at meant
    split at meant
    next item rest _ laterMeant =>
      cases meant
      simp [inductionHypothesis laterMeant]
    · cases meant

/-- A payload is written as the bytes it is. -/
theorem exists_row_data {data : List UInt8} (bounded : data.length < payloadLimit) :
    ∃ row, (Item.bytes data).pushes? = some row ∧ Emission.pushData data = .row row := by
  obtain ⟨push, chosen, pushed⟩ := (Emission.pushData_pushes data).exists_push bounded
  exact ⟨[push], Item.pushes?_of_push? chosen, pushed⟩

/-- An identifier of the right width is written as the bytes it is. -/
theorem exists_row_identifier {width : Nat} {data : List UInt8} (exactly : data.length = width)
    (narrow : width < payloadLimit) :
    ∃ row, (Item.bytes data).pushes? = some row ∧
      Emission.pushIdentifier width data = .row row := by
  rw [Emission.pushIdentifier_exact exactly]
  apply exists_row_data
  rw [exactly]
  exact narrow

mutual

/-- An encodable parameter has an item, and pushing it emits the row of that item.

One case for each kind. Payloads are pushed as the bytes of their item, truth values and
integers as the item of a number. For an array, the rows of the elements stand in front of
the count and the packing, and the count is that of the items, of which there are as many
as elements. -/
theorem exists_row (parameter : Parameter) (encodable : Encodable parameter) :
    ∃ item row, item? parameter = some item ∧ item.pushes? = some row ∧
      Emission.pushParameter parameter = .row row := by
  cases parameter with
  | signature data | byteArray data | publicKey data =>
    obtain ⟨row, written, pushed⟩ := exists_row_data encodable
    exact ⟨.bytes data, row, rfl, written, pushed⟩
  | string text =>
    obtain ⟨row, written, pushed⟩ := exists_row_data encodable
    exact ⟨.bytes (Text.utf8 text), row, rfl, written, pushed⟩
  | hash160 data | hash256 data =>
    obtain ⟨row, written, pushed⟩ := exists_row_identifier encodable (by decide)
    exact ⟨.bytes data, row, rfl, written, pushed⟩
  | boolean value =>
    obtain ⟨push, chosen, pushed⟩ := Emission.pushBoolean_row value
    exact ⟨_, [push], rfl, Item.pushes?_of_push? chosen, pushed⟩
  | integer value =>
    obtain ⟨push, chosen, pushed⟩ :=
      (Emission.pushInteger_pushes value.toInt).exists_push (length_encode_int64 value)
    exact ⟨_, [push], rfl, Item.pushes?_of_push? chosen, pushed⟩
  | array elements =>
    obtain ⟨packable, encodable⟩ := encodable
    obtain ⟨items, below, meant, written, pushed⟩ := exists_row_lastToFirst elements encodable
    obtain ⟨count, chosen, counted⟩ := Emission.pack_row packable
    rw [← length_items? meant] at chosen
    refine ⟨.array items, below ++ [count, Instruction.packing], ?_, ?_, ?_⟩
    · rw [item?, meant, Option.map_some]
    · exact Item.pushes?_array_iff.mpr ⟨below, count, written, chosen, rfl⟩
    · rw [Emission.pushParameter, pushed, counted, Emission.row_andThen_row]
  | unset kind => cases encodable

/-- Encodable parameters have items, and pushing them from the last to the first emits the
rows of these items, joined in the same order. -/
theorem exists_row_lastToFirst (parameters : List Parameter) (encodable : EncodableAll parameters) :
    ∃ items row, items? parameters = some items ∧ Item.pushesLastToFirst? items = some row ∧
      Emission.pushLastToFirst parameters = .row row := by
  cases parameters with
  | nil => exact ⟨[], [], rfl, rfl, rfl⟩
  | cons first later =>
    obtain ⟨firstEncodable, laterEncodable⟩ := encodable
    obtain ⟨item, top, firstMeant, firstWritten, firstPushed⟩ := exists_row first firstEncodable
    obtain ⟨items, below, laterMeant, laterWritten, laterPushed⟩ :=
      exists_row_lastToFirst later laterEncodable
    refine ⟨item :: items, below ++ top, ?_, ?_, ?_⟩
    · rw [items?, firstMeant, laterMeant]
    · exact Item.pushesLastToFirst?_cons_iff.mpr ⟨below, top, laterWritten, firstWritten, rfl⟩
    · rw [Emission.pushLastToFirst, laterPushed, firstPushed, Emission.row_andThen_row]

end

mutual

/-- Only an encodable parameter is pushed to its end. Each kind is stopped by what its
condition excludes, and an array is stopped by its elements or by its count. -/
theorem encodable_of_succeeds (parameter : Parameter)
    (succeeded : (Emission.pushParameter parameter).failure = none) : Encodable parameter := by
  cases parameter with
  | signature data | byteArray data | publicKey data =>
    exact (Emission.pushData_pushes data).succeeds_iff.mp succeeded
  | string text => exact (Emission.pushData_pushes (Text.utf8 text)).succeeds_iff.mp succeeded
  | hash160 data | hash256 data =>
    apply Decidable.byContradiction
    intro other
    rw [Emission.pushParameter, Emission.pushIdentifier_inexact other] at succeeded
    cases succeeded
  | boolean value | integer value => trivial
  | array elements =>
    rw [Emission.pushParameter, Emission.failure_andThen_eq_none_iff,
      Emission.pack_succeeds_iff] at succeeded
    exact ⟨succeeded.2, encodableAll_of_succeeds elements succeeded.1⟩
  | unset kind => cases succeeded

/-- Only encodable parameters are pushed to their end as a list, since the work on the
list is joined of the work on each of them. -/
theorem encodableAll_of_succeeds (parameters : List Parameter)
    (succeeded : (Emission.pushLastToFirst parameters).failure = none) :
    EncodableAll parameters := by
  cases parameters with
  | nil => trivial
  | cons first later =>
    rw [Emission.pushLastToFirst, Emission.failure_andThen_eq_none_iff] at succeeded
    exact ⟨encodable_of_succeeds first succeeded.2, encodableAll_of_succeeds later succeeded.1⟩

end

/-- Encodable parameters pushed one after the other write a row that replays to their
items. The first of them comes to lie lowest, so the stack has them in reverse. By
induction on the parameters, for every stack: the later ones are replayed above the item
of the first. -/
theorem exists_row_in_order (parameters : List Parameter) (encodable : EncodableAll parameters) :
    ∃ items row, items? parameters = some items ∧
      (∀ instruction ∈ row, instruction.Builds) ∧
      (parameters.flatMap fun parameter => (Emission.pushParameter parameter).bytes) =
        assemble row ∧
      ∀ stack, replay? row stack = some (items.reverse ++ stack) := by
  induction parameters with
  | nil => exact ⟨[], [], rfl, by simp, rfl, fun _ => rfl⟩
  | cons first later inductionHypothesis =>
    obtain ⟨firstEncodable, laterEncodable⟩ := encodable
    obtain ⟨item, top, firstMeant, firstWritten, firstPushed⟩ := exists_row first firstEncodable
    obtain ⟨items, rest, laterMeant, laterBuilds, laterBytes, laterReplay⟩ :=
      inductionHypothesis laterEncodable
    refine ⟨item :: items, top ++ rest, ?_, ?_, ?_, ?_⟩
    · rw [items?, firstMeant, laterMeant]
    · exact List.forall_mem_append.mpr ⟨Item.builds_pushes? item firstWritten, laterBuilds⟩
    · rw [List.flatMap_cons, firstPushed, laterBytes, assemble_append]
      rfl
    · intro stack
      rw [replay?_append, Item.replay?_pushes? item firstWritten stack, Option.bind_some,
        laterReplay, List.reverse_cons, List.append_assoc, List.singleton_append]

end Parameter

/-- Pushing encodable parameters into a script succeeds for each of them, whatever was
written before. Reading the script that holds their bytes ends without a fault, and
replaying its instructions on any stack ends with the items of the parameters pushed in
their order, on top of what was there.

The script is one row, put together from the rows of the parameters. It is read back
because its instructions are well formed, and it replays item by item because each row
does. -/
theorem replay_pushed_parameters (parameters : List Parameter)
    (encodable : Parameter.EncodableAll parameters) (stack : List Item) :
    (∀ parameter ∈ parameters, ∀ builder : Builder,
      (builder.perform (.pushParameter parameter)).failure = none) ∧
    ∃ items instructions,
      Parameter.items? parameters = some items ∧
      decode (Builder.empty.performAll (parameters.map .pushParameter)).contents =
        .ok instructions ∧
      replay? (instructions.map Located.toInstruction) stack = some (items.reverse ++ stack) := by
  constructor
  · intro parameter member builder
    have each := (Parameter.encodableAll_iff parameters).mp encodable parameter member
    obtain ⟨_, row, _, _, pushed⟩ := Parameter.exists_row parameter each
    exact congrArg Emission.failure pushed
  · obtain ⟨items, row, meant, builds, bytes, replayed⟩ :=
      Parameter.exists_row_in_order parameters encodable
    have contents : (Builder.empty.performAll (parameters.map .pushParameter)).contents =
        assemble row := by
      rw [Builder.contents_performAll, List.flatMap_map]
      exact bytes
    have wellFormed : ∀ instruction ∈ row, instruction.WellFormed :=
      fun instruction member => (builds instruction member).1
    refine ⟨items, locate 0 row, meant, ?_, ?_⟩
    · rw [contents, decode_assemble wellFormed]
    · rw [map_locate, replayed]

/-- An array within an array and an integer of two bytes, above a number that lay on
the stack before. -/
theorem replay_pushed_nested :
    ∃ instructions,
      decode (Builder.empty.performAll
        [.pushParameter (.array [.integer 1, .array [], .string "x"]),
          .pushParameter (.integer 300)]).contents = .ok instructions ∧
      replay? (instructions.map Located.toInstruction) [.number 7] =
        some [.bytes [1, 44], .array [.number 1, .array [], .bytes [120]], .number 7] := by
  obtain ⟨_, items, instructions, meant, decoded, replayed⟩ :=
    replay_pushed_parameters [.array [.integer 1, .array [], .string "x"], .integer 300]
      (by decide +kernel) [.number 7]
  have number : SignedBytes.encode 300 = [1, 44] := by decide +kernel
  have text : Text.utf8 "x" = [120] := by decide
  have one : (1 : Int64).toInt = 1 := rfl
  have large : (300 : Int64).toInt = 300 := rfl
  simp only [Parameter.items?, Parameter.item?, Parameter.integerItem, one, large, number,
    text] at meant
  cases meant
  exact ⟨instructions, decoded, replayed⟩

end ContractScript
