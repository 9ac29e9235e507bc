import ContractScript.CommandLine.Request
import ContractScript.Parameter.Meaning

/-!
# What requests take from argument lists

Arguments in front of the name of a command are flags; those behind it are read by the form
of the command into flags and values. One inversion says what the first argument of a list
that asks for something can be, and the rest follows by induction on the list: values are
taken from the arguments in their order, and the verbose flag is never taken back.
-/

namespace ContractScript.CommandLine

/-- Leading flags never take the verbose flag back. Once it is set, a second one is
refused, and help or version end the reading, so only the empty list goes on. -/
theorem verbose_of_leading {given : List Flag} {verbose : Bool}
    (read : leading true given = .proceed verbose) : verbose = true := by
  cases given with
  | nil =>
    cases read
    rfl
  | cons flag others => cases flag <;> cases read

/-- Leading flags without the verbose flag are none at all. -/
theorem eq_nil_of_leading {given : List Flag} (read : leading false given = .proceed false) :
    given = [] := by
  cases given with
  | nil => rfl
  | cons flag others =>
    cases flag with
    | verbose => cases verbose_of_leading read
    | _ => cases read

namespace Demand

/-- If a list asks for a request, its first argument gives leading flags, and the rest
asks for the same; or it names the command, which is made of the rest. Any other first
argument ends the reading without a request. -/
theorem readFrom_cons_cases {argument : String} {rest : List String} {verbose : Bool}
    {request : Request} (read : readFrom verbose (argument :: rest) = some (.request request)) :
    (∃ given after, leadingForm.token 0 argument = .flags given ∧
      leading verbose given = .proceed after ∧ readFrom after rest = some (.request request)) ∨
    leadingForm.token 0 argument = .value ∧ ∃ name given, CommandName.ofText? argument = some name ∧
      name.form.read rest = some given ∧ name.command? given = some request.command ∧
      request.verbose = (verbose || decide (.verbose ∈ given.flags)) := by
  rw [readFrom] at read
  split at read
  next given token =>
    split at read
    next after proceeds => exact .inl ⟨given, after, token, proceeds, read⟩
    · cases read
    · cases read
  next token =>
    simp only [Option.bind_eq_bind, Option.bind_eq_some_iff, Option.pure_def, Option.some.injEq,
      Demand.request.injEq] at read
    obtain ⟨name, named, given, taken, command, makes, rfl⟩ := read
    exact .inr ⟨token, name, given, named, taken, makes, rfl⟩
  · split at read <;> cases read
  · cases read

/-- Behind the verbose flag, every request logs everything: no further leading flag takes
it back, and the command adds its own flag to it by `or`. -/
theorem verbose_of_readFrom {arguments : List String} {request : Request}
    (read : readFrom true arguments = some (.request request)) : request.verbose = true := by
  induction arguments with
  | nil => cases read
  | cons argument rest inductionHypothesis =>
    rcases readFrom_cons_cases read with
      ⟨_, after, _, proceeds, others⟩ | ⟨_, _, _, _, _, _, verbose⟩
    · rw [verbose_of_leading proceeds] at others
      exact inductionHypothesis others
    · rw [verbose, Bool.true_or]

/-- The verbose flag in front of a request that does not log everything changes this and
nothing else.

By induction on the arguments. In front of the name of the command nothing can set the
flag, or the request would log everything already; so all lists of leading flags there are
empty and are read alike with it. Behind the name the flag is not looked at until the
end. -/
theorem readFrom_true {arguments : List String} {command : Command}
    (read : readFrom false arguments = some (.request ⟨false, command⟩)) :
    readFrom true arguments = some (.request ⟨true, command⟩) := by
  induction arguments with
  | nil => cases read
  | cons argument rest inductionHypothesis =>
    rcases readFrom_cons_cases read with
      ⟨given, after, token, proceeds, others⟩ | ⟨token, name, given, named, taken, makes, _⟩
    · cases after with
      | true => cases verbose_of_readFrom others
      | false =>
        rw [eq_nil_of_leading proceeds] at token
        rw [readFrom, token]
        exact inductionHypothesis others
    · simp only [readFrom, token, named, taken, makes, Option.bind_eq_bind, Option.bind_some,
        Bool.true_or, Option.pure_def]

end Demand

end ContractScript.CommandLine
