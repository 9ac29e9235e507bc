import ContractScript.Proofs.Invocations

/-!
# Where pushing stops

Pushing a parameter takes its pieces in a fixed order: the elements of an array from the
last to the first, each with all of its own pieces, then their count and the packing. A
piece is a leaf, a count or a packing, and only leaves have faults: a value that was
never given, or an identifier of another width.

Work that follows such an order stops at the first fault. What it writes is exactly what
the pieces before that fault write, those of arrays that were completed on the way
included, and the fault it reports is that one, however many others come later. Both the
pushing of a parameter and an invocation are work of this kind.
-/

namespace ContractScript

/-- One piece of the work of pushing parameters and of calling a contract with them. -/
inductive Piece
  /-- A parameter that is no array. -/
  | leaf (value : Parameter)
  | count (elements : Nat)
  | packing
  | call (contract : List UInt8) (mode : CallMode)

namespace Parameter

/-- The fault that a parameter has by itself, without its elements. -/
def fault? : Parameter → Option ScriptError
  | hash160 data => if data.length = 20 then none else some (.identifierLength 20 data.length)
  | hash256 data => if data.length = 32 then none else some (.identifierLength 32 data.length)
  | unset _ => some .valueMissing
  | _ => none

/-- A parameter stands somewhere in the tree of another one. -/
inductive Contains : Parameter → Parameter → Prop
  | itself (parameter : Parameter) : Contains parameter parameter
  | within {elements : List Parameter} {element inner : Parameter} (member : element ∈ elements)
      (contains : Contains element inner) : Contains (.array elements) inner

mutual

/-- No payload is too long for a push, nor the count of any array. The width of an
identifier is a matter of its own. -/
def Bounded : Parameter → Prop
  | signature data | byteArray data | publicKey data => data.length < payloadLimit
  | string text => (Text.utf8 text).length < payloadLimit
  | array elements => Packable elements.length ∧ BoundedAll elements
  | boolean _ | integer _ | hash160 _ | hash256 _ | unset _ => True

/-- No payload in a list is too long for a push. -/
def BoundedAll : List Parameter → Prop
  | [] => True
  | first :: later => Bounded first ∧ BoundedAll later

end

mutual

/-- The pieces of a parameter in the order in which they are pushed. -/
def order : Parameter → List Piece
  | array elements => orderLastToFirst elements ++ [.count elements.length, .packing]
  | other => [.leaf other]

/-- The pieces of a list of parameters, those of the last one first. -/
def orderLastToFirst : List Parameter → List Piece
  | [] => []
  | first :: later => orderLastToFirst later ++ order first

end

/-- A list is pushed element by element from its end. -/
theorem orderLastToFirst_eq (elements : List Parameter) :
    orderLastToFirst elements = elements.reverse.flatMap order := by
  induction elements with
  | nil => rfl
  | cons first later inductionHypothesis =>
    simp [orderLastToFirst, inductionHypothesis]

end Parameter

namespace Piece

/-- What a piece adds by itself. -/
def emission : Piece → Emission
  | leaf value => .pushParameter value
  | count elements => .pushInteger elements
  | packing => .opcode (.plain .pack)
  | call contract mode => .instruction (.calling mode contract)

/-- The pieces of an invocation: the array of the arguments, the name of the operation,
and the call. -/
def ofInvocation (contract : List UInt8) (operation : String) (arguments : List Parameter)
    (mode : CallMode) : List Piece :=
  (Parameter.array arguments).order ++ [.leaf (.string operation), .call contract mode]

/-- The bytes of a piece. -/
def encoding (piece : Piece) : List UInt8 :=
  piece.emission.bytes

/-- The fault of a piece; only leaves have one. -/
def fault? : Piece → Option ScriptError
  | leaf value => value.fault?
  | count _ | packing | call _ _ => none

/-- A piece has no fault. -/
def sound (piece : Piece) : Bool :=
  piece.fault?.isNone

end Piece

namespace Emission

/-- The work on pieces in a row, which stops at the first fault. -/
def upToFault (pieces : List Piece) : Emission :=
  ⟨(pieces.takeWhile Piece.sound).flatMap Piece.encoding, pieces.findSome? Piece.fault?⟩

/-- Work on two rows of pieces is the work on the first and then on the second. By
induction on the first row: a faulty piece stops the joined work as well, and a sound one
only puts its bytes in front. -/
theorem upToFault_append (first second : List Piece) :
    upToFault (first ++ second) = (upToFault first).andThen (upToFault second) := by
  induction first with
  | nil => exact (nothing_andThen (upToFault second)).symm
  | cons piece later inductionHypothesis =>
    cases fault : piece.fault? with
    | some found => simp [upToFault, andThen, Piece.sound, fault]
    | none =>
      have head (pieces : List Piece) : upToFault (piece :: pieces) =
          (⟨piece.encoding, none⟩ : Emission).andThen (upToFault pieces) := by
        simp [upToFault, andThen, Piece.sound, fault]
      rw [List.cons_append, head, head, inductionHypothesis, andThen_assoc]

/-- The work on a single piece without a fault is all that the piece adds. That the piece
has no fault of its own does not say that it succeeds, since a payload may be too long. -/
theorem upToFault_sound {piece : Piece} (sound : piece.fault? = none)
    (succeeded : piece.emission.failure = none) : upToFault [piece] = piece.emission := by
  have complete : piece.emission = ⟨piece.encoding, none⟩ := by
    rw [← succeeded]
    rfl
  rw [complete]
  simp [upToFault, Piece.sound, sound]

/-- The work on a single piece with a fault. -/
theorem upToFault_fault {piece : Piece} {fault : ScriptError}
    (found : piece.fault? = some fault) : upToFault [piece] = failed fault := by
  simp [upToFault, Piece.sound, found, failed]

/-- Counting and packing are pieces without a fault, as long as the count can be
pushed. -/
theorem pack_eq_upToFault {count : Nat} (packable : Parameter.Packable count) :
    pack count = upToFault [.count count, .packing] := by
  have counted : upToFault [.count count] = pushInteger count :=
    upToFault_sound rfl ((pushInteger_pushes count).succeeds_iff.mpr packable)
  have packed : upToFault [.packing] = opcode (.plain .pack) := upToFault_sound rfl rfl
  have joined := upToFault_append [.count count] [.packing]
  rw [counted, packed] at joined
  exact joined.symm

/-- A leaf that is pushed to its end is a piece without a fault. -/
theorem pushParameter_sound {leaf : Parameter} (sound : leaf.fault? = none)
    (succeeded : (pushParameter leaf).failure = none) :
    pushParameter leaf = upToFault [.leaf leaf] := by
  have pieceSound : (Piece.leaf leaf).fault? = none := sound
  exact (upToFault_sound pieceSound succeeded).symm

/-- An identifier is pushed to its end or stopped by its width. One statement serves both
kinds of identifiers; the assumptions say of the leaf what its kind makes true by
definition. -/
theorem pushIdentifier_eq_upToFault {leaf : Parameter} {width : Nat} {data : List UInt8}
    (pushed : pushParameter leaf = pushIdentifier width data)
    (fault : leaf.fault? =
      if data.length = width then none else some (.identifierLength width data.length))
    (narrow : width < Parameter.payloadLimit) :
    pushParameter leaf = upToFault [.leaf leaf] := by
  by_cases exactly : data.length = width
  · rw [if_pos exactly] at fault
    apply pushParameter_sound fault
    rw [pushed, pushIdentifier_exact exactly, (pushData_pushes data).succeeds_iff, exactly]
    exact narrow
  · rw [if_neg exactly] at fault
    have found : (Piece.leaf leaf).fault? = some (.identifierLength width data.length) := fault
    rw [pushed, pushIdentifier_inexact exactly, upToFault_fault found]

mutual

/-- Pushing a parameter is the work on its pieces up to the first fault.

By cases of the parameter. A leaf is one piece, and either it has a fault, which stops it
at once, or its bounded payload is pushed to the end. An array is the pieces of its
elements with two more, and joined work is the work on joined rows. -/
theorem pushParameter_eq_upToFault (parameter : Parameter) (bounded : parameter.Bounded) :
    pushParameter parameter = upToFault parameter.order := by
  cases parameter with
  | signature data | byteArray data | publicKey data =>
    apply pushParameter_sound rfl
    exact (pushData_pushes data).succeeds_iff.mpr bounded
  | string text =>
    apply pushParameter_sound rfl
    exact (pushData_pushes (Text.utf8 text)).succeeds_iff.mpr bounded
  | boolean value => exact pushParameter_sound rfl rfl
  | integer value =>
    apply pushParameter_sound rfl
    have short := Parameter.length_encode_int64 value
    exact (pushInteger_pushes value.toInt).succeeds_iff.mpr short
  | hash160 data | hash256 data => exact pushIdentifier_eq_upToFault rfl rfl (by decide)
  | unset kind =>
    have missing : (Piece.leaf (.unset kind)).fault? = some .valueMissing := rfl
    exact (upToFault_fault missing).symm
  | array elements =>
    obtain ⟨packable, elementsBounded⟩ := bounded
    rw [pushParameter, Parameter.order, upToFault_append, pack_eq_upToFault packable,
      pushLastToFirst_eq_upToFault elements elementsBounded]

/-- Pushing a list of parameters is the work on their pieces up to the first fault. Both
take the later parameters before the first one. -/
theorem pushLastToFirst_eq_upToFault (parameters : List Parameter)
    (bounded : Parameter.BoundedAll parameters) :
    pushLastToFirst parameters = upToFault (Parameter.orderLastToFirst parameters) := by
  cases parameters with
  | nil => rfl
  | cons first later =>
    obtain ⟨firstBounded, laterBounded⟩ := bounded
    rw [pushLastToFirst, Parameter.orderLastToFirst, upToFault_append,
      pushLastToFirst_eq_upToFault later laterBounded,
      pushParameter_eq_upToFault first firstBounded]

end

/-- An invocation of a contract of the right width is the work on its pieces up to the
first fault. Its three parts are an array parameter, a text and a call, and each of them
is the work on its own pieces. -/
theorem invocation_eq_upToFault {contract : List UInt8} (exactly : contract.length = 20)
    {operation : String} (short : (Text.utf8 operation).length < Parameter.payloadLimit)
    {arguments : List Parameter} (bounded : (Parameter.array arguments).Bounded)
    (mode : CallMode) :
    invocation contract operation (some arguments) mode =
      upToFault (Piece.ofInvocation contract operation arguments mode) := by
  have packedArguments := pushParameter_eq_upToFault (.array arguments) bounded
  have name : pushText operation = upToFault [.leaf (.string operation)] :=
    pushParameter_eq_upToFault (.string operation) short
  have called : upToFault [.call contract mode] = instruction (.calling mode contract) :=
    upToFault_sound rfl rfl
  have call : row [.calling mode contract] = upToFault [.call contract mode] := by
    rw [called, instruction_eq_row]
  rw [invocation_exact exactly, ← pushParameter_array, packedArguments, name, call,
    ← upToFault_append, ← upToFault_append, List.append_assoc]
  rfl

end Emission

namespace Parameter

/-- A piece of a list is a piece of one of its elements. -/
theorem mem_orderLastToFirst_iff {elements : List Parameter} {piece : Piece} :
    piece ∈ orderLastToFirst elements ↔ ∃ element ∈ elements, piece ∈ element.order := by
  simp [orderLastToFirst_eq]

/-- A leaf with a fault is a piece of every parameter that contains it. That it has a
fault is needed, because an array contains itself and is no piece. -/
theorem leaf_mem_order {parameter leaf : Parameter} (contains : parameter.Contains leaf)
    {fault : ScriptError} (found : leaf.fault? = some fault) :
    .leaf leaf ∈ parameter.order := by
  induction contains with
  | itself parameter =>
    cases parameter with
    | array elements => cases found
    | _ => exact List.mem_singleton_self _
  | within member contains inductionHypothesis =>
    rw [order, List.mem_append]
    exact .inl (mem_orderLastToFirst_iff.mpr ⟨_, member, inductionHypothesis found⟩)

mutual

/-- The leaves among the pieces of a parameter stand in its tree. The count and the
packing of an array are no leaves, so a leaf comes from one of the elements. -/
theorem contains_of_leaf_mem_order {leaf : Parameter} (parameter : Parameter)
    (member : .leaf leaf ∈ parameter.order) : parameter.Contains leaf := by
  cases parameter with
  | array elements =>
    rw [order, List.mem_append] at member
    rcases member with member | member
    · obtain ⟨element, elementMember, contains⟩ :=
        contains_of_leaf_mem_orderLastToFirst elements member
      exact .within elementMember contains
    · simp at member
  | _ =>
    cases List.mem_singleton.mp member
    exact .itself _

/-- The leaves among the pieces of a list stand in the tree of an element, of a later one
or of the first. -/
theorem contains_of_leaf_mem_orderLastToFirst {leaf : Parameter} (elements : List Parameter)
    (member : .leaf leaf ∈ orderLastToFirst elements) :
    ∃ element ∈ elements, element.Contains leaf := by
  cases elements with
  | nil => cases member
  | cons first later =>
    rw [orderLastToFirst, List.mem_append] at member
    rcases member with member | member
    · obtain ⟨element, elementMember, contains⟩ :=
        contains_of_leaf_mem_orderLastToFirst later member
      exact ⟨element, List.mem_cons_of_mem first elementMember, contains⟩
    · exact ⟨first, List.mem_cons_self, contains_of_leaf_mem_order first member⟩

end

/-- The work on the pieces of a parameter meets a fault exactly if a leaf in its tree has
one. A fault that is met belongs to a piece, which is a leaf of the tree; and a faulty
leaf of the tree is a piece, so that the search cannot miss all of them. -/
theorem findSome?_order_iff (parameter : Parameter) :
    parameter.order.findSome? Piece.fault? ≠ none ↔
      ∃ leaf, parameter.Contains leaf ∧ leaf.fault? ≠ none := by
  constructor
  · intro met
    obtain ⟨fault, met⟩ := Option.ne_none_iff_exists'.mp met
    obtain ⟨piece, member, found⟩ := List.exists_of_findSome?_eq_some met
    cases piece with
    | leaf leaf =>
      have present : leaf.fault? = some fault := found
      refine ⟨leaf, contains_of_leaf_mem_order parameter member, ?_⟩
      rw [present]
      exact Option.some_ne_none fault
    | count elements | packing | call contract mode => cases found
  · rintro ⟨leaf, contains, present⟩
    obtain ⟨fault, found⟩ := Option.ne_none_iff_exists'.mp present
    intro unmet
    have sound := List.findSome?_eq_none_iff.mp unmet _ (leaf_mem_order contains found)
    exact present sound

end Parameter

/-- Pushing parameters and invoking contracts stop at the first fault in the order of
their pieces, and only there. A parameter without too long payloads fails exactly if a
leaf in its tree was never given a value or is an identifier of another width; the fault
is that of the first such leaf, and the script grows by exactly the pieces before it. An
invocation without an argument list adds nothing and succeeds, and one of a contract of
another width is refused before anything is added, whatever its arguments are. Any other
invocation takes the pieces of its argument array, the name and the call in this order,
and stops likewise.

Pushing and invoking are rewritten as work up to the first fault; then the fault and the
bytes can be read off, and which leaves have a fault is a matter of the tree alone. -/
theorem failures_follow_the_order_of_pieces (builder : Builder) :
    (∀ parameter : Parameter, parameter.Bounded →
      let step := builder.perform (.pushParameter parameter)
      (step.failure ≠ none ↔ ∃ leaf, parameter.Contains leaf ∧ leaf.fault? ≠ none) ∧
        step.failure = parameter.order.findSome? Piece.fault? ∧
        step.builder.contents = builder.contents ++
          (parameter.order.takeWhile Piece.sound).flatMap Piece.encoding) ∧
    (∀ hash operation mode,
      let step := builder.perform (.invocation hash operation none mode)
      step.failure = none ∧ step.builder = builder) ∧
    (∀ hash operation arguments mode, hash.length ≠ 20 →
      let step := builder.perform (.invocation hash operation (some arguments) mode)
      step.failure = some (.identifierLength 20 hash.length) ∧ step.builder = builder) ∧
    (∀ hash operation arguments mode, hash.length = 20 →
      (Parameter.array arguments).Bounded →
      (Text.utf8 operation).length < Parameter.payloadLimit →
      let step := builder.perform (.invocation hash operation (some arguments) mode)
      let pieces := Piece.ofInvocation hash operation arguments mode
      step.failure = pieces.findSome? Piece.fault? ∧
        step.builder.contents =
          builder.contents ++ (pieces.takeWhile Piece.sound).flatMap Piece.encoding) := by
  refine ⟨?_, ?_, ?_, ?_⟩
  · intro parameter bounded
    have pushed := Emission.pushParameter_eq_upToFault parameter bounded
    have failure : (builder.perform (.pushParameter parameter)).failure =
        parameter.order.findSome? Piece.fault? := congrArg Emission.failure pushed
    refine ⟨?_, failure, ?_⟩
    · rw [failure]
      exact parameter.findSome?_order_iff
    · rw [Builder.contents_perform, Operation.emission, pushed]
      rfl
  · intro hash operation mode
    refine ⟨rfl, ?_⟩
    simp [Builder.perform, Operation.emission, Emission.invocation, Emission.nothing]
  · intro hash operation arguments mode other
    have refused := Emission.invocation_inexact other operation arguments mode
    simp [Builder.perform, Operation.emission, refused, Emission.failed]
  · intro hash operation arguments mode exactly bounded short
    have invoked := Emission.invocation_eq_upToFault exactly short bounded mode
    refine ⟨congrArg Emission.failure invoked, ?_⟩
    rw [Builder.contents_perform, Operation.emission, invoked]
    rfl

/-- Of two faults the later element's is met first, and the array that was completed
before it stays; an invocation stops the same way before the name and the call, and a
contract of another width is refused although the arguments have faults as well. -/
theorem failures_at_two_faults :
    let parameters : List Parameter :=
      [.unset .void, .hash160 (List.replicate 19 0), .array [.integer 3], .integer 2]
    let builder : Builder := ⟨[0x61]⟩
    (builder.perform (.pushParameter (.array parameters))).failure =
        some (.identifierLength 20 19) ∧
      (builder.perform (.pushParameter (.array parameters))).builder.contents =
        [0x61, 0x52, 0x53, 0x51, 0xc1] ∧
      (builder.perform (.invocation (List.replicate 20 7) "a" (some parameters)
        .call)).failure = some (.identifierLength 20 19) ∧
      (builder.perform (.invocation (List.replicate 21 7) "a" (some parameters)
        .call)).failure = some (.identifierLength 20 21) := by
  intro parameters builder
  obtain ⟨pushes, _, inexact, exactly⟩ := failures_follow_the_order_of_pieces builder
  have bounded : (Parameter.array parameters).Bounded := by
    refine ⟨Parameter.packable_of_lt (by decide), trivial, trivial, ?_, trivial, trivial⟩
    exact ⟨Parameter.packable_of_lt (by decide), trivial, trivial⟩
  obtain ⟨_, failure, contents⟩ := pushes (.array parameters) bounded
  obtain ⟨invocationFailure, _⟩ :=
    exactly (List.replicate 20 7) "a" parameters .call (by decide) bounded (by decide)
  refine ⟨?_, ?_, ?_, ?_⟩
  · rw [failure]
    decide
  · rw [contents]
    decide +kernel
  · rw [invocationFailure]
    decide
  · exact (inexact (List.replicate 21 7) "a" parameters .call (by decide)).1

end ContractScript
