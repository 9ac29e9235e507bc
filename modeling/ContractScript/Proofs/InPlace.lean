import ContractScript.Assembler
import ContractScript.Proofs.Invocations

/-!
# Work in place comes to its emission

Work on an assembler puts bytes behind those that stand and looks at nothing that was
written before, so that it adds the same wherever the script stands: the bytes of its
emission, and the fault that stops it. This goes through every step of the work, the nested
arrays included, by joining: work that is done after other work adds what follows from
joining their emissions.

Only an invocation lets a record come in. It measures the script in front of its work and
behind it; the difference is what it has added, because nothing that stood was changed.
-/

namespace ContractScript

/-- Of work that changes a state and may be stopped, the second part goes on with the value and
the state of the first, unless that was stopped. -/
theorem run_bind_state {ε σ α β : Type} (first : ExceptT ε (StateM σ) α)
    (second : α → ExceptT ε (StateM σ) β) (before : σ) :
    (ExceptT.run (first >>= second)).run before =
      match (ExceptT.run first).run before with
      | (.ok value, after) => (ExceptT.run (second value)).run after
      | (.error fault, after) => (.error fault, after) := by
  rw [ExceptT.run_bind, StateT.run_bind]
  rcases (ExceptT.run first).run before with ⟨_ | _, after⟩ <;> rfl

namespace Assembler

/-- Work behind other work goes on where that has ended, unless that was stopped. -/
theorem run_bind (assembler : Assembler) (first second : Assembling Unit) :
    assembler.run (do first; second) =
      match assembler.run first with
      | (none, after) => after.run second
      | (some fault, after) => (some fault, after) := by
  unfold run
  rw [run_bind_state]
  rcases (ExceptT.run first).run assembler with ⟨_ | _, after⟩ <;> rfl

/-- Work on a value that was checked is not begun if the check fails. -/
theorem run_checked {α : Type} (assembler : Assembler) (checked : Except ScriptError α)
    (work : α → Assembling Unit) :
    assembler.run (do let value ← checked; work value) =
      match checked with
      | .ok value => assembler.run (work value)
      | .error fault => (some fault, assembler) := by
  cases checked <;> rfl

end Assembler

namespace Assembling

/-- Work adds an emission: wherever the script stands, the bytes of the emission are put
behind it, its fault stops the work, and the journal is left alone. -/
def Adds (work : Assembling Unit) (emission : Emission) : Prop :=
  ∀ assembler : Assembler, assembler.run work =
    (emission.failure, { assembler with script := assembler.script ++ emission.bytes })

/-- Work behind other work adds the one emission joined to the other. If the first part is
stopped, neither the second part nor its emission comes into play. -/
theorem Adds.andThen {first second : Assembling Unit} {emission other : Emission}
    (adds : first.Adds emission) (addsOther : second.Adds other) :
    Adds (do first; second) (emission.andThen other) := by
  intro assembler
  rw [Assembler.run_bind, adds]
  obtain ⟨bytes, failure⟩ := emission
  cases failure with
  | some fault => rfl
  | none => simp [addsOther _, Emission.andThen]

/-- No work adds nothing. -/
theorem adds_nothing : Adds (return) .nothing := by
  intro assembler
  simp only [Emission.nothing, List.append_nil]
  rfl

/-- Bytes that are put down are added. -/
theorem adds_append (bytes : List UInt8) : (append bytes).Adds ⟨bytes, none⟩ :=
  fun _ => rfl

/-- Work that is stopped at once adds nothing. -/
theorem adds_throw (fault : ScriptError) : Adds (throw fault) (.failed fault) := by
  intro assembler
  simp only [Emission.failed, List.append_nil]
  rfl

/-- An opcode and its operand are added as one instruction. -/
theorem adds_instruction (code : Opcode) (operand : List UInt8) :
    (instruction code operand).Adds (.instruction ⟨code, operand⟩) :=
  (adds_append [code.byte]).andThen (adds_append operand)

/-- An opcode is added as an instruction without an operand. -/
theorem adds_opcode (code : Opcode) : (opcode code).Adds (.opcode code) :=
  adds_append [code.byte]

/-- Only a jump is added as one. -/
theorem adds_jump (code : Opcode) (distance : Int16) :
    (jump code distance).Adds (.jump code distance) := by
  cases code with
  | jump kind => exact adds_instruction _ _
  | _ => exact adds_throw _

/-- A payload is added by its shortest push: what announces it is the opcode of that push,
with the length field if it has one. In place the announcement and the payload are two
steps; if no field is wide enough, the first of them is stopped. -/
theorem adds_pushData (data : List UInt8) : (pushData data).Adds (.pushData data) := by
  unfold pushData announce Emission.pushData Instruction.pushing?
  by_cases short : data.length < 76
  · simp only [short, ↓reduceIte, ↓reduceDIte]
    exact (adds_append [UInt8.ofNat data.length]).andThen (adds_append data)
  · simp only [short, ↓reduceIte, ↓reduceDIte]
    cases LengthField.narrowest? data.length with
    | none => exact (adds_throw _).andThen (adds_append data)
    | some field =>
      have joined := (adds_instruction (.pushCounted field)
        (LittleEndian.bytes field.width data.length)).andThen (adds_append data)
      simpa [Emission.andThen, Emission.instruction, Instruction.encode] using joined

/-- The opcodes of the numbers from one to sixteen follow one another, so an opcode can be
computed from the number. -/
theorem byte_pushNumber {number : Int} (positive : 1 ≤ number)
    (small : (number - 1).toNat < 16) :
    oneByte + UInt8.ofInt (number - 1) = (Opcode.pushNumber ⟨(number - 1).toNat, small⟩).byte := by
  have all : ∀ predecessor : Fin 16, oneByte + UInt8.ofInt predecessor.val =
      (Opcode.pushNumber predecessor).byte := by
    decide
  have value : ((number - 1).toNat : Int) = number - 1 := by omega
  have following := all ⟨(number - 1).toNat, small⟩
  rwa [value] at following

/-- An integer is added by an opcode of its own or by its bytes. The choices are made in
the same order on both sides; only the opcodes of small numbers are computed here and
looked up there. -/
theorem adds_pushInteger (number : Int) : (pushInteger number).Adds (.pushInteger number) := by
  unfold pushInteger Emission.pushInteger
  split
  · exact adds_opcode _
  · split
    · exact adds_append [emptyByte]
    · split
      next small =>
        rw [byte_pushNumber small.1]
        exact adds_opcode _
      · exact adds_pushData _

/-- A truth value is added by the opcode of one or of the empty payload. -/
theorem adds_pushBoolean (value : Bool) : (pushBoolean value).Adds (.pushBoolean value) := by
  cases value with
  | false => exact adds_append [emptyByte]
  | true => exact adds_append [oneByte]

/-- An identifier is added like any other payload, or not at all. -/
theorem adds_pushIdentifier (width : Nat) (data : List UInt8) :
    (pushIdentifier width data).Adds (.pushIdentifier width data) := by
  intro assembler
  rw [pushIdentifier, Emission.pushIdentifier, Assembler.run_checked]
  cases Identifier.ofBytes width data with
  | ok identifier => exact adds_pushData identifier.bytes assembler
  | error fault => exact adds_throw fault assembler

/-- A count and the packing are added one behind the other. -/
theorem adds_pack (count : Nat) : (pack count).Adds (.pack count) :=
  (adds_pushInteger count).andThen (adds_opcode _)

mutual

/-- A parameter adds its emission. By cases of the parameter: the work on an array is the
work on its elements and then the packing, whatever stands below. -/
theorem adds_pushParameter (parameter : Parameter) :
    (pushParameter parameter).Adds (.pushParameter parameter) := by
  cases parameter with
  | signature data | byteArray data | publicKey data => exact adds_pushData data
  | string text => exact adds_pushData (Text.utf8 text)
  | boolean value => exact adds_pushBoolean value
  | integer value => exact adds_pushInteger value.toInt
  | hash160 data => exact adds_pushIdentifier 20 data
  | hash256 data => exact adds_pushIdentifier 32 data
  | unset kind => exact adds_throw _
  | array elements =>
    rw [pushParameter, Emission.pushParameter]
    exact (adds_pushLastToFirst elements).andThen (adds_pack elements.length)

/-- A list of parameters adds its emission, the later parameters before the first one. -/
theorem adds_pushLastToFirst (parameters : List Parameter) :
    (pushLastToFirst parameters).Adds (.pushLastToFirst parameters) := by
  cases parameters with
  | nil => exact adds_nothing
  | cons first later =>
    rw [pushLastToFirst, Emission.pushLastToFirst]
    exact (adds_pushLastToFirst later).andThen (adds_pushParameter first)

end

/-- The call of a service adds its emission. The name is checked before anything is put
down: it may be empty, or too long where it is not hashed. -/
theorem adds_serviceCall (name : String) (hashed : Bool) :
    (serviceCall name hashed).Adds (.serviceCall name hashed) := by
  intro assembler
  rw [serviceCall, Assembler.run_checked, serviceName, Emission.serviceCall]
  by_cases nameless : name.isEmpty = true
  · simp only [nameless, ↓reduceIte]
    exact adds_throw _ assembler
  · by_cases short : hashed = true
    · simp only [nameless, short, ↓reduceIte]
      exact adds_instruction _ _ assembler
    · by_cases long : longestServiceName < (Text.utf8 name).length
      · simp only [nameless, short, long, ↓reduceIte]
        exact adds_throw _ assembler
      · simp only [nameless, short, long, ↓reduceIte]
        exact adds_instruction _ _ assembler

/-- Entering a contract adds the packed arguments, the name and the call. In place the
four steps follow one another, and joining emissions is associative. -/
theorem adds_enter (contract : Hash160) (operation : String) (arguments : List Parameter)
    (mode : CallMode) :
    (enter contract operation arguments mode).Adds
      (((Emission.packed arguments).andThen (.pushText operation)).andThen
        (.contractCall contract mode)) := by
  have call : (contractCall contract mode).Adds (.contractCall contract mode) :=
    adds_instruction _ _
  have work := (adds_pushLastToFirst arguments).andThen
    ((adds_pack arguments.length).andThen ((adds_pushData (Text.utf8 operation)).andThen call))
  rwa [← Emission.andThen_assoc, ← Emission.andThen_assoc] at work

end Assembling

namespace Operation

/-- The records of an operation: one if it succeeds and is an invocation with arguments. -/
def records (operation : Operation) : List Log.Record :=
  match operation.emission.failure with
  | some _ => []
  | none => (operation.record? operation.emission.bytes.length).toList

end Operation

/-- The record of an invocation of a contract, once it has added so many bytes. -/
theorem Operation.record?_invocation (contract : Hash160) (name : String)
    (arguments : List Parameter) (mode : CallMode) (added : Nat) :
    (invocation contract.bytes name (some arguments) mode).record? added =
      some (invocationRecord contract name arguments.length added) := by
  simp only [record?, invocationRecord, Identifier.text]

namespace Builder

/-- A builder leaves the records of the operation, wherever it stands. -/
theorem records_perform (builder : Builder) (operation : Operation) :
    (builder.perform operation).records = operation.records := by
  cases failure : operation.emission.failure with
  | some fault => simp only [perform, Operation.records, failure]
  | none =>
    simp only [perform, Operation.records, failure, size, List.length_append,
      Nat.add_sub_cancel_left]

end Builder

namespace Assembler

/-- Work between two measurements of the script. The first one is the length of the script
that stood, so the difference is what the work has added. If the work is stopped, the
second measurement is not made and no record comes in. -/
theorem run_measured (assembler : Assembler) {work : Assembling Unit} {emission : Emission}
    (adds : work.Adds emission) (record : Nat → Log.Record) :
    assembler.run (do
        let before ← Assembling.size
        work
        let after ← Assembling.size
        Assembling.note (record (after - before))) =
      (emission.failure, ⟨assembler.script ++ emission.bytes, match emission.failure with
        | some _ => assembler.journal
        | none => assembler.journal.note (record emission.bytes.length)⟩) := by
  have noted (behind : Assembler) (before : Nat) : behind.run (do
        let after ← Assembling.size
        Assembling.note (record (after - before))) = (none,
      ⟨behind.script, behind.journal.note (record (behind.script.length - before))⟩) := rfl
  have begun : assembler.run (do
        let before ← Assembling.size
        work
        let after ← Assembling.size
        Assembling.note (record (after - before))) =
      assembler.run (do
        work
        let after ← Assembling.size
        Assembling.note (record (after - assembler.script.length))) := rfl
  rw [begun, run_bind, adds]
  cases emission.failure with
  | some fault => rfl
  | none => simp only [noted, List.length_append, Nat.add_sub_cancel_left]

/-- An invocation with arguments in place puts down its emission and lets its record come
in.

A hash of another width stops it before it begins, and there is no record. Otherwise it is
work between two measurements: where that is stopped, there is no record either, and where
it is not, the record names the bytes of the emission, because these are what was
measured. -/
theorem run_invocation (assembler : Assembler) (hash : List UInt8) (name : String)
    (arguments : List Parameter) (mode : CallMode) :
    let operation := Operation.invocation hash name (some arguments) mode
    assembler.run (Assembling.invocation hash name arguments mode) =
      (operation.emission.failure, ⟨assembler.script ++ operation.emission.bytes,
        assembler.journal.noteAll operation.records⟩) := by
  intro operation
  rw [Assembling.invocation, run_checked]
  cases checked : Identifier.ofBytes 20 hash with
  | error fault =>
    have emission : operation.emission = .failed fault := by
      simp [operation, Operation.emission, Emission.invocation, checked]
    simp [Operation.records, emission, Emission.failed, Log.Journal.noteAll]
  | ok contract =>
    have emission : operation.emission =
        ((Emission.packed arguments).andThen (.pushText name)).andThen
          (.contractCall contract mode) := by
      simp [operation, Operation.emission, Emission.invocation, checked]
    have bytes : contract.bytes = hash := Identifier.ofBytes_eq_ok_iff.mp checked
    have record (added : Nat) : operation.record? added =
        some (invocationRecord contract name arguments.length added) := by
      rw [← Operation.record?_invocation contract name arguments mode added, bytes]
    have measured := assembler.run_measured (Assembling.adds_enter contract name arguments mode)
      (invocationRecord contract name arguments.length)
    rw [← emission] at measured
    refine measured.trans ?_
    cases failure : operation.emission.failure with
    | some fault => simp only [Operation.records, failure, Log.Journal.noteAll, List.foldl_nil]
    | none =>
      simp only [Operation.records, failure, record, Option.toList_some, Log.Journal.noteAll,
        List.foldl_cons, List.foldl_nil]

/-- An operation in place puts the bytes of its emission behind the script, is stopped by
the fault of its emission, and lets its records come in. By cases of the operation: only
an invocation with arguments has a record, and for all others it is enough that they add
their emissions. -/
theorem perform_eq (assembler : Assembler) (operation : Operation) :
    assembler.perform operation = (operation.emission.failure,
      ⟨assembler.script ++ operation.emission.bytes,
        assembler.journal.noteAll operation.records⟩) := by
  -- Apart from an invocation with arguments, an operation has no record, and adding its
  -- emission is all that it does.
  have silent (adds : operation.work.Adds operation.emission)
      (none : ∀ added, operation.record? added = none) :
      assembler.perform operation = (operation.emission.failure,
        ⟨assembler.script ++ operation.emission.bytes,
          assembler.journal.noteAll operation.records⟩) := by
    have nothing : operation.records = [] := by
      unfold Operation.records
      split
      · rfl
      · rw [none, Option.toList_none]
    rw [nothing]
    exact adds assembler
  cases operation with
  | invocation hash name arguments mode =>
    cases arguments with
    | none => exact silent Assembling.adds_nothing fun _ => rfl
    | some arguments => exact assembler.run_invocation hash name arguments mode
  | opcode code => exact silent (Assembling.adds_opcode code) fun _ => rfl
  | instruction whole => exact silent (Assembling.adds_instruction _ _) fun _ => rfl
  | jump code distance => exact silent (Assembling.adds_jump code distance) fun _ => rfl
  | contractCall contract mode => exact silent (Assembling.adds_instruction _ _) fun _ => rfl
  | pushData data => exact silent (Assembling.adds_pushData data) fun _ => rfl
  | pushText text => exact silent (Assembling.adds_pushData _) fun _ => rfl
  | pushBoolean value => exact silent (Assembling.adds_pushBoolean value) fun _ => rfl
  | pushInt64 number => exact silent (Assembling.adds_pushInteger _) fun _ => rfl
  | pushInteger number => exact silent (Assembling.adds_pushInteger number) fun _ => rfl
  | pushParameter parameter => exact silent (Assembling.adds_pushParameter parameter) fun _ => rfl
  | serviceCall name hashed => exact silent (Assembling.adds_serviceCall name hashed) fun _ => rfl

/-- Operations in place put down their emissions one behind the other and let their
records come in. By induction on the operations, each of which starts where the one before
has ended, by a fault or not. -/
theorem performAll_eq (assembler : Assembler) (operations : List Operation) :
    assembler.performAll operations = (operations.map fun operation => operation.emission.failure,
      ⟨assembler.script ++ operations.flatMap fun operation => operation.emission.bytes,
        assembler.journal.noteAll (operations.flatMap Operation.records)⟩) := by
  induction operations generalizing assembler with
  | nil => simp [performAll, Log.Journal.noteAll]
  | cons operation later inductionHypothesis =>
    rw [performAll, perform_eq]
    simp only [inductionHypothesis, List.map_cons, List.flatMap_cons, List.append_assoc,
      Log.Journal.noteAll, List.foldl_append]

/-- What an operation does where nothing was written before. -/
def alone (settings : Log.Settings) (operation : Operation) : Option ScriptError × Assembler :=
  (fresh settings).perform operation

/-- Alone, an operation writes its emission, and those of its records that are admitted. -/
theorem alone_eq (settings : Log.Settings) (operation : Operation) :
    alone settings operation = (operation.emission.failure, ⟨operation.emission.bytes,
      ⟨settings, (operation.records.filter fun record => settings.admits record.level).map
        fun record => ⟨record, settings.timestamps⟩⟩⟩) := by
  rw [alone, perform_eq, Log.Journal.noteAll_eq]
  simp only [fresh, List.nil_append]

end Assembler

/-- Operations only add, and what they add depends on nothing but themselves and, for the
log, the settings. In place on any script and any journal, an operation is stopped by the
same fault as alone, puts behind the script exactly the bytes that it writes alone, and
behind the entries exactly those that it makes alone; a builder does the same. So a run of
operations, of which any may fail, writes one behind the other what each of them writes
alone. The log has no part in this: with any other journal the faults and the script are
the same. Where everything is logged, an invocation makes an entry exactly if it succeeds
and has arguments, and this entry reports by how many bytes the script has grown.

Each part compares two closed forms: `perform_eq` and `performAll_eq` say what work in
place leaves on any script, and `alone_eq` what it leaves on the empty one. -/
theorem operations_add_what_they_add_alone :
    (∀ (assembler : Assembler) (operation : Operation),
      let alone := Assembler.alone assembler.journal.settings operation
      let done := assembler.perform operation
      let step := (⟨assembler.script⟩ : Builder).perform operation
      done.1 = alone.1 ∧ done.2.script = assembler.script ++ alone.2.script ∧
        done.2.journal.settings = assembler.journal.settings ∧
        done.2.journal.entries = assembler.journal.entries ++ alone.2.journal.entries ∧
        step.failure = done.1 ∧ step.builder.contents = done.2.script ∧
        assembler.journal.noteAll step.records = done.2.journal) ∧
    (∀ (assembler : Assembler) (operations : List Operation),
      let alone := Assembler.alone assembler.journal.settings
      let done := assembler.performAll operations
      done.1 = (operations.map fun operation => (alone operation).1) ∧
        done.2.script =
          assembler.script ++ (operations.flatMap fun operation => (alone operation).2.script) ∧
        done.2.journal.entries = assembler.journal.entries ++
          (operations.flatMap fun operation => (alone operation).2.journal.entries) ∧
        ((⟨assembler.script⟩ : Builder).performAll operations).contents = done.2.script) ∧
    (∀ (script : List UInt8) (journal other : Log.Journal) (operations : List Operation),
      let done := (⟨script, journal⟩ : Assembler).performAll operations
      let otherDone := (⟨script, other⟩ : Assembler).performAll operations
      done.1 = otherDone.1 ∧ done.2.script = otherDone.2.script) ∧
    (∀ (assembler : Assembler) hash name arguments mode,
      assembler.journal.settings.level = .debug →
      let done := assembler.perform (.invocation hash name arguments mode)
      let grown := done.2.script.length - assembler.script.length
      (∀ given, arguments = some given → done.1 = none →
        ∃ contract : Hash160, contract.bytes = hash ∧
          done.2.journal.entries = assembler.journal.entries ++
            [⟨invocationRecord contract name given.length grown,
              assembler.journal.settings.timestamps⟩]) ∧
      (arguments = none ∨ done.1 ≠ none →
        done.2.journal.entries = assembler.journal.entries)) := by
  refine ⟨?_, ?_, ?_, ?_⟩
  · intro assembler operation alone done step
    have doneEq : done = _ := assembler.perform_eq operation
    have aloneEq : alone = _ := Assembler.alone_eq assembler.journal.settings operation
    rw [doneEq, aloneEq]
    refine ⟨rfl, rfl, ?_, ?_, rfl, rfl, ?_⟩
    · rw [Log.Journal.noteAll_eq]
    · rw [Log.Journal.noteAll_eq]
    · rw [Builder.records_perform]
  · intro assembler operations alone done
    have doneEq : done = _ := assembler.performAll_eq operations
    have aloneEq : alone = _ := funext (Assembler.alone_eq assembler.journal.settings)
    rw [doneEq, aloneEq]
    refine ⟨rfl, rfl, ?_, Builder.contents_performAll _ operations⟩
    rw [Log.Journal.noteAll_eq, List.filter_flatMap, List.map_flatMap]
  · intro script journal other operations done otherDone
    have doneEq : done = _ := Assembler.performAll_eq ⟨script, journal⟩ operations
    have otherEq : otherDone = _ := Assembler.performAll_eq ⟨script, other⟩ operations
    rw [doneEq, otherEq]
    exact ⟨rfl, rfl⟩
  · intro assembler hash name arguments mode everything done grown
    have doneEq : done = _ := assembler.perform_eq (.invocation hash name arguments mode)
    have admitted (record : Log.Record) :
        assembler.journal.settings.admits record.level = true := by
      rw [Log.Settings.admits, everything]
      cases record.level <;> decide
    have all (records : List Log.Record) :
        (records.filter fun record => assembler.journal.settings.admits record.level) = records :=
      List.filter_eq_self.mpr fun record _ => admitted record
    have added : grown = (Operation.invocation hash name arguments mode).emission.bytes.length := by
      simp only [grown, doneEq, List.length_append, Nat.add_sub_cancel_left]
    rw [doneEq, Log.Journal.noteAll_eq, all, added]
    refine ⟨?_, ?_⟩
    · rintro given rfl succeeded
      obtain ⟨exactly, _⟩ := (Emission.invocation_succeeds_iff hash name given mode).mp succeeded
      obtain ⟨contract, rfl⟩ : ∃ contract : Hash160, contract.bytes = hash := ⟨⟨hash, exactly⟩, rfl⟩
      have failure :
          (Operation.invocation contract.bytes name (some given) mode).emission.failure = none :=
        succeeded
      refine ⟨contract, rfl, ?_⟩
      simp only [Operation.records, failure, Operation.record?_invocation, Option.toList_some,
        List.map_singleton]
    · intro silent
      have nothing : (Operation.invocation hash name arguments mode).records = [] := by
        rcases silent with rfl | failed
        · rfl
        · obtain ⟨fault, stopped⟩ := Option.ne_none_iff_exists'.mp failed
          have failure : (Operation.invocation hash name arguments mode).emission.failure =
              some fault := stopped
          simp only [Operation.records, failure]
      rw [nothing, List.map_nil, List.append_nil]

/-- An invocation that is stopped at its first argument, behind the last one, leaves the byte of
that and no entry. The whole invocation behind it makes an entry of its own bytes only. -/
theorem operations_add_around_fault :
    let assembler : Assembler := ⟨[0x61], ⟨⟨.debug, false⟩, []⟩⟩
    let hash : List UInt8 := List.replicate 20 1
    let stopped := Operation.invocation hash "mint" (some [.unset .string, .integer 7]) .call
    let whole := Operation.invocation hash "mint" (some [.boolean true, .integer 7]) .call
    (assembler.perform stopped).1 = some .valueMissing ∧
      (assembler.perform stopped).2.script = [0x61, 0x57] ∧
      (assembler.perform stopped).2.journal.entries = [] ∧
      (assembler.perform whole).1 = none ∧
      (∃ contract : Hash160, contract.bytes = hash ∧
        (assembler.perform whole).2.journal.entries =
          [⟨invocationRecord contract "mint" 2 30, false⟩]) ∧
      (assembler.performAll [stopped, whole]).2.script =
        [0x61, 0x57, 0x57, 0x51, 0x52, 0xC1, 4] ++ Text.utf8 "mint" ++ [0x67] ++ hash := by
  intro assembler hash stopped whole
  obtain ⟨one, _, _, log⟩ := operations_add_what_they_add_alone
  obtain ⟨failure, script, _⟩ := one assembler stopped
  obtain ⟨_, silent⟩ := log assembler hash "mint" (some [.unset .string, .integer 7]) .call rfl
  obtain ⟨logged, _⟩ := log assembler hash "mint" (some [.boolean true, .integer 7]) .call rfl
  have succeeded : (assembler.perform whole).1 = none := by decide
  have grown : (assembler.perform whole).2.script.length - assembler.script.length = 30 := by decide
  refine ⟨failure, script, silent (Or.inr (by decide)), succeeded, ?_, by decide⟩
  obtain ⟨contract, bytes, entries⟩ := logged _ rfl succeeded
  rw [grown] at entries
  exact ⟨contract, bytes, entries⟩

end ContractScript
