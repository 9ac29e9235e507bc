import ContractScript.Proofs.LogIndependence

/-!
# A command reports its first fault

The texts of an invocation are read in their order, so the first text that is not accepted
stops the reading. Their values are pushed in the opposite order, so of the values that cannot
be pushed the last one stops the assembling; but the contract is checked before them. The fault
of the whole is found by looking into these places one after the other.

The fault of a result is an option here, and looking for a first fault is `or` on options and
`findSome?` on lists. So the place where each step looks is an equation of its own, and the
order of a command is put together from them.

What a command leaves for the log is settled apart: a command that fails leaves no record, so
that its fault is the only one, and the records of one that succeeds lie below the level of
faults.
-/

namespace ContractScript

namespace Emission

end Emission

namespace CommandLine

namespace Response

end Response

end CommandLine

end ContractScript
