import ContractScript.Proofs.Alignment
import ContractScript.Proofs.Collisions
import ContractScript.Proofs.InPlace
import ContractScript.Proofs.ShortestPushes

/-!
# Calls of services

A service is called by its name, or by the beginning of the digest of its name, behind one
byte with the length of what follows. Lengths are those of the UTF-8 bytes. The limit of a
name that is written out is lower than what a byte can count, and a hashed name has four
bytes, so the length is never cut down to a byte, and the reader takes exactly the bytes that
were written. A text is determined by its UTF-8 bytes, so two names that are written out are
never written alike.
-/

namespace ContractScript

/-- What stands for a service in its call: the bytes of its name, or the first four of the
digest of its name. -/
def calledName (name : String) (hashed : Bool) : List UInt8 :=
  if hashed then (Sha256.digest (Text.utf8 name)).take 4 else Text.utf8 name

/-- The name that stands for a service by its digest has four bytes. -/
theorem length_calledName_hashed (name : String) : (calledName name true).length = 4 := by
  rw [calledName, if_pos rfl, List.length_take, Sha256.length_digest]
  rfl

namespace Emission

/-- The length of a name that a byte can count is written as it is. Behind the opcode
stands the count, and behind the count what it counts, so the call is one instruction. -/
theorem callByName_eq_row {called : List UInt8} (short : called.length < 256) :
    ∃ count : UInt8, count.toNat = called.length ∧
      callByName called = row [⟨.serviceCall, count :: called⟩] :=
  ⟨UInt8.ofNat called.length, UInt8.toNat_ofNat_of_lt' short, instruction_eq_row _⟩

/-- The three outcomes of calling a service: the name is missing, it is too long to be
written out, or it is written. They are tried in this order, and the limit is asked only
of a name that is not hashed. -/
theorem serviceCall_cases (name : String) (hashed : Bool) :
    (name = "" ∧ serviceCall name hashed = failed .serviceNameEmpty) ∨
      (name ≠ "" ∧ hashed = false ∧ 252 < (Text.utf8 name).length ∧
        serviceCall name hashed = failed (.serviceNameTooLong (Text.utf8 name).length)) ∨
      (name ≠ "" ∧ (hashed = true ∨ (Text.utf8 name).length ≤ 252) ∧
        serviceCall name hashed = callByName (calledName name hashed)) := by
  by_cases empty : name = ""
  · exact .inl ⟨empty, by simp [serviceCall, empty]⟩
  · have named : name.isEmpty = false := by simpa using empty
    cases hashed with
    | true =>
      refine .inr (.inr ⟨empty, .inl rfl, ?_⟩)
      simp [serviceCall, named, calledName, serviceIdentifier]
    | false =>
      by_cases long : 252 < (Text.utf8 name).length
      · refine .inr (.inl ⟨empty, rfl, long, ?_⟩)
        simp [serviceCall, named, longestServiceName, long]
      · refine .inr (.inr ⟨empty, .inr (Nat.not_lt.mp long), ?_⟩)
        simp [serviceCall, named, longestServiceName, long, calledName]

section Outcomes

variable {name : String} {hashed : Bool}

/-- A service is called if it has a name that is hashed or short enough. Each of the three
outcomes decides both sides. -/
theorem serviceCall_succeeds_iff :
    (serviceCall name hashed).failure = none ↔
      name ≠ "" ∧ (hashed = true ∨ (Text.utf8 name).length ≤ 252) := by
  rcases serviceCall_cases name hashed with
    ⟨rfl, emitted⟩ | ⟨_, rfl, long, emitted⟩ | ⟨named, fits, emitted⟩
  · simp [emitted, failed]
  · simp [emitted, failed, long]
  · simp [emitted, callByName, instruction, named, fits]

/-- The missing name comes first, whether names are hashed or not, and it is reported for
no other reason. -/
theorem serviceCall_nameless_iff :
    (serviceCall name hashed).failure = some .serviceNameEmpty ↔ name = "" := by
  rcases serviceCall_cases name hashed with
    ⟨rfl, emitted⟩ | ⟨named, _, _, emitted⟩ | ⟨named, _, emitted⟩
  · simp [emitted, failed]
  · simp [emitted, failed, named]
  · simp [emitted, callByName, instruction, named]

/-- A name is too long only where it is written out, and its length is reported. The empty
name is below the limit, so that the fault for it does not hide this one. -/
theorem serviceCall_overlong_iff {reported : Nat} :
    (serviceCall name hashed).failure = some (.serviceNameTooLong reported) ↔
      hashed = false ∧ 252 < reported ∧ reported = (Text.utf8 name).length := by
  rcases serviceCall_cases name hashed with
    ⟨rfl, emitted⟩ | ⟨_, rfl, long, emitted⟩ | ⟨_, fits, emitted⟩
  · have nothing : (Text.utf8 "").length = 0 := rfl
    simp only [emitted, failed, nothing, Option.some.injEq, reduceCtorEq, false_iff, not_and]
    omega
  · simp only [emitted, failed, Option.some.injEq, ScriptError.serviceNameTooLong.injEq,
      true_and]
    omega
  · simp only [emitted, callByName, instruction, reduceCtorEq, false_iff, not_and]
    rintro rfl
    simp only [Bool.false_eq_true, false_or] at fits
    omega

/-- A service that is called has one instruction, and the byte in front of its name has the
length of the name. The limit enters here: a byte counts up to 255. -/
theorem serviceCall_eq_row (called : (serviceCall name hashed).failure = none) :
    ∃ count : UInt8, count.toNat = (calledName name hashed).length ∧
      serviceCall name hashed = row [⟨.serviceCall, count :: calledName name hashed⟩] := by
  have short : (calledName name hashed).length < 256 := by
    obtain ⟨_, fits⟩ := serviceCall_succeeds_iff.mp called
    cases hashed with
    | true =>
      rw [length_calledName_hashed]
      decide
    | false =>
      simp only [Bool.false_eq_true, false_or] at fits
      rw [calledName, if_neg Bool.false_ne_true]
      omega
  rcases serviceCall_cases name hashed with ⟨_, emitted⟩ | ⟨_, _, _, emitted⟩ | ⟨_, _, emitted⟩
  · simp [emitted, failed] at called
  · simp [emitted, failed] at called
  · rw [emitted]
    exact callByName_eq_row short

/-- A call that is refused adds nothing: both faults are found before the first byte is
written, and a name that is written has no fault. -/
theorem serviceCall_eq_failed {fault : ScriptError}
    (refused : (serviceCall name hashed).failure = some fault) :
    serviceCall name hashed = failed fault := by
  rcases serviceCall_cases name hashed with ⟨_, emitted⟩ | ⟨_, _, _, emitted⟩ | ⟨_, _, emitted⟩
  · rw [emitted] at refused ⊢
    exact congrArg failed (Option.some.inj refused)
  · rw [emitted] at refused ⊢
    exact congrArg failed (Option.some.inj refused)
  · simp [emitted, callByName, instruction] at refused

end Outcomes

/-- Names that are written out are told apart by what is written. Equal bytes have the
same opcode, the same count and the same UTF-8 bytes behind them, and these determine the
name. -/
theorem eq_of_serviceCall_bytes {name other : String}
    (called : (serviceCall name false).failure = none)
    (otherCalled : (serviceCall other false).failure = none)
    (same : (serviceCall name false).bytes = (serviceCall other false).bytes) : name = other := by
  obtain ⟨count, _, emitted⟩ := serviceCall_eq_row called
  obtain ⟨otherCount, _, otherEmitted⟩ := serviceCall_eq_row otherCalled
  rw [emitted, otherEmitted] at same
  simp only [row, assemble_cons, assemble_nil, List.append_nil, Instruction.encode,
    List.cons.injEq] at same
  exact Text.utf8_injective same.2.2

end Emission

/-- Calling a service. Whatever the script and whatever the text, the call succeeds exactly if
the name is not empty and is either hashed or no longer than 252 bytes; an empty name is
reported in both forms, and a name that is too long is reported with its length. A call that
succeeds adds a single instruction. Its operand is a byte and then the name, or the four bytes
of the digest, and the byte counts what follows it. Alone it is read as this instruction, and
behind a script that is read to its end as the one instruction more, at the end of the script.
A call that fails leaves the script as it was. In place the work is the same, and the
journal has no part in it. Where names are written out, equal bytes mean equal names. -/
theorem service_calls_add_one_counted_name (builder : Builder) (name : String) (hashed : Bool) :
    let operation := Operation.serviceCall name hashed
    let step := builder.perform operation
    (step.failure = none ↔ name ≠ "" ∧ (hashed = true ∨ (Text.utf8 name).length ≤ 252)) ∧
    (step.failure = some .serviceNameEmpty ↔ name = "") ∧
    (∀ reported, step.failure = some (.serviceNameTooLong reported) ↔
      hashed = false ∧ 252 < reported ∧ reported = (Text.utf8 name).length) ∧
    (step.failure = none → ∃ count : UInt8, count.toNat = (calledName name hashed).length ∧
      let call : Instruction := ⟨.serviceCall, count :: calledName name hashed⟩
      step.builder.contents = builder.contents ++ call.encode ∧
      decode call.encode = .ok [⟨call, 0⟩] ∧
      ∀ items, decode builder.contents = .ok items →
        decode step.builder.contents = .ok (items ++ [⟨call, builder.size⟩])) ∧
    (step.failure ≠ none → step.builder = builder) ∧
    (∀ journal, (⟨builder.contents, journal⟩ : Assembler).perform operation =
      (step.failure, ⟨step.builder.contents, journal⟩)) ∧
    ∀ (other : Builder) (otherName : String), hashed = false → step.failure = none →
      (other.perform (.serviceCall otherName false)).failure = none →
      builder.added operation = other.added (.serviceCall otherName false) →
        name = otherName := by
  refine ⟨Emission.serviceCall_succeeds_iff, Emission.serviceCall_nameless_iff,
    fun _ => Emission.serviceCall_overlong_iff, ?written, ?refused, ?inPlace, ?told⟩
  case written =>
    intro called
    obtain ⟨count, counted, emitted⟩ := Emission.serviceCall_eq_row called
    have wellFormed := Instruction.wellFormed_serviceCall_iff.mpr counted
    have contents : (builder.perform (.serviceCall name hashed)).builder.contents =
        builder.contents ++
          (⟨.serviceCall, count :: calledName name hashed⟩ : Instruction).encode := by
      rw [Builder.contents_perform, Operation.emission, emitted]
      exact congrArg (builder.contents ++ ·) (List.append_nil _)
    refine ⟨count, counted, contents, ?_, ?_⟩
    · exact (decode_eq_single_iff _ _).mpr ⟨wellFormed, rfl, rfl⟩
    · intro items decoded
      rw [contents]
      exact decode_append_encode decoded wellFormed
  case refused =>
    intro stopped
    obtain ⟨fault, refused⟩ := Option.ne_none_iff_exists'.mp stopped
    have nothing : (Emission.serviceCall name hashed).bytes = [] :=
      congrArg Emission.bytes (Emission.serviceCall_eq_failed refused)
    simp [Builder.perform, Operation.emission, nothing]
  case inPlace =>
    intro journal
    have silent : (Operation.serviceCall name hashed).records = [] := by
      unfold Operation.records
      split <;> rfl
    rw [Assembler.perform_eq, silent]
    rfl
  case told =>
    rintro other otherName rfl called otherCalled same
    rw [Builder.added_eq_emission, Builder.added_eq_emission] at same
    exact Emission.eq_of_serviceCall_bytes called otherCalled same

/-- Of letters that take two bytes each, 126 are the longest name that is written out: its
252 bytes are what the limit allows. With one more letter the name is too long by its
bytes, although the limit has more bytes than the name has letters; hashed it may be
called. -/
theorem service_calls_of_accented_names :
    let longest := String.ofList (List.replicate 126 'é')
    let longer := String.ofList (List.replicate 127 'é')
    let step := Builder.empty.perform (.serviceCall longest false)
    (step.failure = none ∧ decode step.builder.contents =
      .ok [⟨⟨.serviceCall, 252 :: Text.utf8 longest⟩, 0⟩]) ∧
    (Builder.empty.perform (.serviceCall longer false)).failure =
      some (.serviceNameTooLong 254) ∧
    (Builder.empty.perform (.serviceCall longer false)).builder = Builder.empty ∧
    (Builder.empty.perform (.serviceCall longer true)).failure = none := by
  intro longest longer step
  have longestLength : (Text.utf8 longest).length = 252 := by decide +kernel
  have longerLength : (Text.utf8 longer).length = 254 := by decide +kernel
  have named : longest ≠ "" ∧ longer ≠ "" := by decide +kernel
  obtain ⟨succeeds, _, _, written, _⟩ :=
    service_calls_add_one_counted_name Builder.empty longest false
  obtain ⟨_, _, overlong, _, refused, _⟩ :=
    service_calls_add_one_counted_name Builder.empty longer false
  obtain ⟨hashedSucceeds, _⟩ := service_calls_add_one_counted_name Builder.empty longer true
  have called : step.failure = none := succeeds.mpr ⟨named.1, .inr (Nat.le_of_eq longestLength)⟩
  have tooLong := (overlong 254).mpr ⟨rfl, by decide, longerLength.symm⟩
  obtain ⟨count, counted, _, _, read⟩ := written called
  have byte : count = 252 := UInt8.toNat_inj.mp (counted.trans longestLength)
  subst byte
  refine ⟨⟨called, read [] (by decide +kernel)⟩, tooLong, refused ?_,
    hashedSucceeds.mpr ⟨named.2, .inl rfl⟩⟩
  rw [tooLong]
  exact Option.some_ne_none _

end ContractScript
