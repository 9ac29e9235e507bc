import ContractScript.CommandLine.Execution
import ContractScript.Proofs.Digits
import ContractScript.Proofs.FirstFault
import Mathlib.Data.List.Forall2

/-!
# From the texts of an invocation to its script

A command reads its texts, does one operation on an empty script and prints what was
added. The hash of an invocation is read as bytes first and checked for its width later,
which together accepts the texts of identifiers. A parameter that is read from a text is
neither an array nor without a value, so only the width of an identifier can still stop it
from being written.

The main statement follows the texts through reading, writing, printing and reading the
printed digits: the command succeeds exactly if every text stands for a value that can be
written, and the digits hold the invocation that the texts describe.
-/

namespace ContractScript

/-- Work on the members of a list succeeds with values exactly if it does for every
member, in their order. By induction on the members: the first one has to succeed, and all
later ones. -/
theorem mapM_eq_ok_iff {α β ε : Type} (work : α → Except ε β) (members : List α)
    (values : List β) :
    members.mapM work = .ok values ↔
      List.Forall₂ (fun member value => work member = .ok value) members values := by
  induction members generalizing values with
  | nil =>
    rw [List.mapM_nil, List.forall₂_nil_left_iff]
    constructor
    · rintro ⟨⟩
      rfl
    · rintro rfl
      rfl
  | cons member later inductionHypothesis =>
    rw [List.mapM_cons, List.forall₂_cons_left_iff]
    constructor
    · intro succeeded
      cases first : work member with
      | error fault =>
        rw [first] at succeeded
        cases succeeded
      | ok value =>
        cases rest : later.mapM work with
        | error fault =>
          rw [first, rest] at succeeded
          cases succeeded
        | ok others =>
          rw [first, rest] at succeeded
          cases succeeded
          exact ⟨value, others, rfl, (inductionHypothesis others).mp rest, rfl⟩
    · rintro ⟨value, others, first, rest, rfl⟩
      rw [first, (inductionHypothesis others).mpr rest]
      rfl

/-- An identifier is read from a text that denotes its bytes. The width is not mentioned,
because the bytes of an identifier have it. -/
theorem Identifier.ofText_eq_ok_iff {width : Nat} {text : String} {identifier : Identifier width} :
    ofText width text = .ok identifier ↔ Hex.ofText? text = some identifier.bytes := by
  unfold ofText
  cases Hex.ofText? text with
  | none => simp
  | some bytes =>
    have read : ofBytes width bytes = .ok identifier ↔ bytes = identifier.bytes := by
      rw [ofBytes_eq_ok_iff, eq_comm]
    simp only [Option.some.injEq, ← read]
    cases ofBytes width bytes <;> simp [Except.mapError]

namespace Parameter

/-- A parameter that is written by a single push, if by any. -/
def Single : Parameter → Prop
  | array _ | unset _ => False
  | _ => True

/-- A single parameter whose payload is short enough can be written exactly if it is no
identifier of another width. Only two kinds have a width, and for all others nothing is
left to ask. -/
theorem encodable_iff_of_single {parameter : Parameter} (single : parameter.Single)
    (bounded : parameter.Bounded) :
    parameter.Encodable ↔ (∀ data, parameter = .hash160 data → data.length = 20) ∧
      (∀ data, parameter = .hash256 data → data.length = 32) := by
  cases parameter with
  | array _ | unset _ => cases single
  | hash160 data | hash256 data => simp [Encodable]
  | signature _ | byteArray _ | publicKey _ | string _ | boolean _ | integer _ =>
    exact iff_of_true bounded ⟨fun _ => nofun, fun _ => nofun⟩

end Parameter

namespace CommandLine

/-- Bytes are read from a text that denotes them. -/
theorem hexBytes_eq_ok_iff {text : String} {bytes : List UInt8} :
    hexBytes text = .ok bytes ↔ Hex.ofText? text = some bytes := by
  unfold hexBytes
  cases Hex.ofText? text <;> simp

/-- The value of a text is no array, and it is there. One case for each kind; the three
kinds that could give another value are refused. -/
theorem single_of_parameterOfValue {kind : Parameter.Kind} {text : String} {value : Parameter}
    (read : parameterOfValue kind text = .ok value) : value.Single := by
  cases kind with
  | integer | boolean =>
    simp only [parameterOfValue] at read
    split at read <;> cases read
    trivial
  | string =>
    cases read
    trivial
  | byteArray | hash160 | hash256 | publicKey | signature =>
    simp only [parameterOfValue] at read
    cases bytes : hexBytes text <;> rw [bytes] at read <;> cases read
    trivial
  | array | interopInterface | void => cases read

/-- The parameter of a text is no array, and it has a value. -/
theorem single_of_parameterOfText {text : String} {value : Parameter}
    (read : parameterOfText text = .ok value) : value.Single := by
  unfold parameterOfText at read
  split at read
  · cases read
  · split at read
    · exact single_of_parameterOfValue read
    · cases read

/-- The values of an invocation are those of its hash and of its parameters. -/
theorem invocationValues_eq_ok_iff {hash : String} {texts : List String} {bytes : List UInt8}
    {values : List Parameter} :
    invocationValues hash texts = .ok (bytes, values) ↔
      Hex.ofText? hash = some bytes ∧
        List.Forall₂ (fun text value => parameterOfText text = .ok value) texts values := by
  rw [← hexBytes_eq_ok_iff, ← mapM_eq_ok_iff, invocationValues]
  cases hexBytes hash with
  | error fault => simp [bind, Except.bind]
  | ok found =>
    cases texts.mapM parameterOfText <;> simp [bind, Except.bind, pure, Except.pure]

/-- What an operation on an empty script prints is the text of what it adds, and its
fault is the fault of the command. -/
theorem assembled_result (operation : Operation) (listed : Bool)
    (success : List UInt8 → List Log.Record) :
    (assembled operation listed success).result =
      match operation.emission.failure with
      | some cause => .error (.script cause)
      | none => scriptText operation.emission.bytes listed := by
  simp only [assembled, Builder.perform, Builder.empty, List.nil_append]
  cases operation.emission.failure <;> rfl

/-- An invocation with arguments prints exactly if its texts have values of which the
invocation can be written, and then it prints what this adds.

Reading the texts either fails or gives the values. With them, assembling prints the
digits of the emission if that was not stopped, and has its fault otherwise. -/
theorem invoke_result_eq_ok_iff {hash operation : String} {texts : List String}
    {mode : CallMode} {out : String} :
    (Command.invoke hash operation texts mode true false).execute.result = .ok out ↔
      ∃ bytes values, Hex.ofText? hash = some bytes ∧
        List.Forall₂ (fun text value => parameterOfText text = .ok value) texts values ∧
        (Emission.invocation bytes operation (some values) mode).failure = none ∧
        out = Hex.encode (Emission.invocation bytes operation (some values) mode).bytes := by
  have printed (bytes : List UInt8) (values : List Parameter) :
      (assembled (.invocation bytes operation (some values) mode) false fun script =>
        [assembledRecord operation texts.length script]).result = .ok out ↔
      (Emission.invocation bytes operation (some values) mode).failure = none ∧
        out = Hex.encode (Emission.invocation bytes operation (some values) mode).bytes := by
    rw [assembled_result, Operation.emission]
    cases (Emission.invocation bytes operation (some values) mode).failure with
    | some fault => simp
    | none => simp [scriptText, eq_comm]
  constructor
  · intro succeeded
    simp only [Command.execute] at succeeded
    split at succeeded
    · cases succeeded
    next bytes values read =>
      obtain ⟨hashRead, textsRead⟩ := invocationValues_eq_ok_iff.mp read
      obtain ⟨written, digits⟩ := (printed bytes values).mp succeeded
      exact ⟨bytes, values, hashRead, textsRead, written, digits⟩
  · rintro ⟨bytes, values, hashRead, textsRead, written, digits⟩
    have read := invocationValues_eq_ok_iff.mpr ⟨hashRead, textsRead⟩
    simp only [Command.execute, read]
    exact (printed bytes values).mpr ⟨written, digits⟩

end CommandLine

/-- What a successful invocation adds can be read to its end. The call is the last
instruction, and those before it leave the argument array and the name on an empty stack.
The emission is one row, so this is the decoding and the replay of that row. -/
theorem Emission.decode_invocation {contract : List UInt8} {operation : String}
    {arguments : List Parameter} {mode : CallMode}
    (succeeded : (invocation contract operation (some arguments) mode).failure = none) :
    ∃ items before call,
      Parameter.items? arguments = some items ∧
      decode (invocation contract operation (some arguments) mode).bytes =
        .ok (before ++ [call]) ∧
      call.toInstruction = .calling mode contract ∧
      replay? (before.map Located.toInstruction) [] =
        some [.bytes (Text.utf8 operation), .array items] := by
  obtain ⟨exactly, items, pushed, name, meant, written, chosen, emitted⟩ :=
    invocation_row succeeded
  have wellFormed := Item.wellFormed_invocation written chosen mode exactly
  refine ⟨items, locate 0 (pushed ++ [name]),
    ⟨.calling mode contract, (assemble (pushed ++ [name])).length⟩, meant, ?_, rfl, ?_⟩
  · rw [emitted, row, decode_assemble wellFormed, locate_append, Nat.zero_add]
    rfl
  · rw [map_locate]
    exact Item.replay?_array_name written chosen

namespace CommandLine

section Texts

variable {texts : List String}
  (bounded : ∀ text ∈ texts, ∀ value, parameterOfText text = .ok value → value.Bounded)

include bounded

/-- Every text stands for a parameter that can be written exactly if it is accepted and is
no identifier of another width. By induction on the texts; a text has one value at most,
so the conditions on it can be stated of any value. -/
theorem exists_encodable_iff :
    (∃ values, List.Forall₂ (fun text value => parameterOfText text = .ok value) texts values ∧
      Parameter.EncodableAll values) ↔
      ∀ text ∈ texts, ∃ value, parameterOfText text = .ok value ∧
        (∀ data, value = .hash160 data → data.length = 20) ∧
        (∀ data, value = .hash256 data → data.length = 32) := by
  induction texts with
  | nil => exact ⟨fun _ => by simp, fun _ => ⟨[], .nil, trivial⟩⟩
  | cons text later inductionHypothesis =>
    obtain ⟨textBounded, laterBounded⟩ := List.forall_mem_cons.mp bounded
    have each {value : Parameter} (read : parameterOfText text = .ok value) :=
      Parameter.encodable_iff_of_single (single_of_parameterOfText read) (textBounded value read)
    rw [List.forall_mem_cons, ← inductionHypothesis laterBounded]
    constructor
    · rintro ⟨_, _ | ⟨read, rest⟩, encodable, laterEncodable⟩
      exact ⟨⟨_, read, (each read).mp encodable⟩, ⟨_, rest, laterEncodable⟩⟩
    · rintro ⟨⟨value, read, widths⟩, ⟨values, rest, laterEncodable⟩⟩
      exact ⟨value :: values, .cons read rest, (each read).mpr widths, laterEncodable⟩

end Texts

/-- Invoking an operation from texts works from end to end. Let the name of the operation
and the payloads that the parameter texts denote be short enough for a push, and the
parameters few enough to be packed, as every count of a machine word is. The command
prints a text exactly if the hash is the text of an identifier, every parameter text is
accepted, and every identifier among the parameters has its width. The text is an even
number of lower-case hexadecimal digits, and their bytes can be read to the end: the last
instruction enters the contract of that hash in the wanted mode, and those before it leave
on an empty stack exactly the array of the parameters' items, in the order of the texts,
and the name of the operation above it.

Success is that of the invocation of the values, whose conditions are those on the texts:
the width of the contract, that of the identifiers, and the lengths that are assumed. What
is printed are the digits of a row, which the laws on reading digits and on decoding
invocations take back to the values. -/
theorem invoke_prints_what_texts_describe (hash operation : String) (texts : List String)
    (mode : CallMode) (short : (Text.utf8 operation).length < Parameter.payloadLimit)
    (bounded : ∀ text ∈ texts, ∀ value, parameterOfText text = .ok value → value.Bounded)
    (packable : Parameter.Packable texts.length) :
    let result := (Command.invoke hash operation texts mode true false).execute.result
    ((∃ out, result = .ok out) ↔
      (∃ contract, Identifier.ofText 20 hash = .ok contract) ∧
        ∀ text ∈ texts, ∃ value, parameterOfText text = .ok value ∧
          (∀ data, value = .hash160 data → data.length = 20) ∧
          (∀ data, value = .hash256 data → data.length = 32)) ∧
    ∀ out, result = .ok out → ∃ contract values items script before call,
      Identifier.ofText 20 hash = .ok contract ∧
      List.Forall₂ (fun text value => parameterOfText text = .ok value) texts values ∧
      Parameter.items? values = some items ∧
      (∀ digit ∈ out.toList, digit ∈ Hex.lowerDigits) ∧
      out.toList.length = 2 * script.length ∧
      Hex.decode? out.toList = some script ∧
      decode script = .ok (before ++ [call]) ∧
      call.opcode = .contractCall mode ∧
      call.operand = contract.bytes ∧
      replay? (before.map Located.toInstruction) [] =
        some [.bytes (Text.utf8 operation), .array items] := by
  intro result
  constructor
  · rw [← exists_encodable_iff bounded]
    constructor
    · rintro ⟨out, printed⟩
      obtain ⟨bytes, values, hashRead, textsRead, written, _⟩ :=
        invoke_result_eq_ok_iff.mp printed
      obtain ⟨exactly, encodable, _⟩ :=
        (Emission.invocation_succeeds_iff bytes operation values mode).mp written
      exact ⟨⟨⟨bytes, exactly⟩, Identifier.ofText_eq_ok_iff.mpr hashRead⟩,
        values, textsRead, encodable.2⟩
    · rintro ⟨⟨contract, hashRead⟩, values, textsRead, encodable⟩
      have count : texts.length = values.length := textsRead.length_eq
      rw [count] at packable
      have written := (Emission.invocation_succeeds_iff contract.bytes operation values mode).mpr
        ⟨contract.length_bytes, ⟨packable, encodable⟩, short⟩
      have bytes := Identifier.ofText_eq_ok_iff.mp hashRead
      exact ⟨_, invoke_result_eq_ok_iff.mpr ⟨_, _, bytes, textsRead, written, rfl⟩⟩
  · intro out printed
    obtain ⟨bytes, values, hashRead, textsRead, written, rfl⟩ :=
      invoke_result_eq_ok_iff.mp printed
    obtain ⟨exactly, _⟩ :=
      (Emission.invocation_succeeds_iff bytes operation values mode).mp written
    obtain ⟨items, before, call, meant, decoded, calling, replayed⟩ :=
      Emission.decode_invocation written
    refine ⟨⟨bytes, exactly⟩, values, items, _, before, call,
      Identifier.ofText_eq_ok_iff.mpr hashRead, textsRead, meant, ?_, ?_, ?_, decoded, ?_, ?_,
      replayed⟩
    · rw [Hex.encode, String.toList_ofList]
      exact fun digit member => Hex.mem_lowerDigits_of_mem_digits member
    · rw [Hex.encode, String.toList_ofList, Hex.length_digits]
    · rw [Hex.encode, String.toList_ofList, Hex.decode?_digits]
    · rw [calling]
      rfl
    · rw [calling]
      rfl

/-- A hash in mixed case behind `0x`, and texts of three kinds: a number of two bytes,
bytes that are a call opcode, and a text with a colon of its own. -/
theorem invoke_prints_three_kinds :
    let result := (Command.invoke "0xABababababababababababababababababababab" "g"
      ["int:300", "BYTES:0x67", "str:a:b"] .tailCall true false).execute.result
    ∃ out script before call, result = .ok out ∧
      Hex.decode? out.toList = some script ∧
      decode script = .ok (before ++ [call]) ∧
      call.opcode = .contractCall .tailCall ∧
      call.operand = List.replicate 20 0xab ∧
      replay? (before.map Located.toInstruction) [] =
        some [.bytes [0x67], .array [.bytes [1, 44], .bytes [0x67], .bytes [97, 58, 98]]] := by
  intro result
  have number : parameterOfText "int:300" = .ok (.integer 300) := by decide +kernel
  have data : parameterOfText "BYTES:0x67" = .ok (.byteArray [0x67]) := by decide +kernel
  have text : parameterOfText "str:a:b" = .ok (.string "a:b") := by decide +kernel
  have contract : Identifier.ofText 20 "0xABababababababababababababababababababab" =
      .ok ⟨List.replicate 20 0xab, rfl⟩ := by decide +kernel
  have bounded : ∀ text ∈ ["int:300", "BYTES:0x67", "str:a:b"],
      ∀ value, parameterOfText text = .ok value → value.Bounded := by
    have short {bytes : List UInt8} (few : bytes.length < 4) :
        bytes.length < Parameter.payloadLimit := Nat.lt_trans few (by decide)
    simp only [List.forall_mem_cons, number, data, text, Except.ok.injEq, forall_eq']
    exact ⟨trivial, short (by decide), short (by decide +kernel), by simp⟩
  obtain ⟨accepted, printed⟩ := invoke_prints_what_texts_describe
    "0xABababababababababababababababababababab" "g" ["int:300", "BYTES:0x67", "str:a:b"]
    .tailCall (by decide +kernel) bounded (Parameter.packable_of_lt (by decide))
  obtain ⟨out, succeeded⟩ := accepted.mpr ⟨⟨_, contract⟩, by
    simp only [List.forall_mem_cons, number, data, text]
    exact ⟨⟨_, rfl, nofun, nofun⟩, ⟨_, rfl, nofun, nofun⟩, ⟨_, rfl, nofun, nofun⟩, by simp⟩⟩
  obtain ⟨found, values, items, script, before, call, identified, read, meant, _, _, digits,
    decoded, opcode, operand, replayed⟩ := printed out succeeded
  rw [contract] at identified
  cases identified
  simp only [List.forall₂_cons_left_iff, List.forall₂_nil_left_iff, number, data, text,
    Except.ok.injEq] at read
  obtain ⟨_, _, rfl, ⟨_, _, rfl, ⟨_, _, rfl, rfl, rfl⟩, rfl⟩, rfl⟩ := read
  have encoded : SignedBytes.encode 300 = [1, 44] := by decide +kernel
  have large : (300 : Int64).toInt = 300 := rfl
  have letters : Text.utf8 "a:b" = [97, 58, 98] := by decide +kernel
  simp only [Parameter.items?, Parameter.item?, Parameter.integerItem, large, encoded,
    letters] at meant
  cases meant
  exact ⟨out, script, before, call, succeeded, digits, decoded, opcode, operand, replayed⟩

end CommandLine

end ContractScript
