/-!
# Operators without an operand

Every operation of the stack machine that is written as a single byte, apart from
the constants: stack shuffling, byte strings, arithmetic, digests, arrays and
faults. The table `entry` is the only place that gives an operator its byte and
its mnemonic, and `ofByte?` looks the byte up in it. Bytes that no operator has
are free; the constants, jumps and calls take theirs elsewhere.
-/

namespace ContractScript

/-- An operation that takes all of its arguments from the stack. -/
inductive Operator
  | nop | ret
  | dupFromAltStack | toAltStack | fromAltStack | xDrop | xSwap | xTuck | depth | drop
  | duplicate | nip | over | pick | roll | rotate | swap | tuck
  | concatenate | substring | leftPart | rightPart | size
  | invert | bitAnd | bitOr | bitXor | equal
  | increment | decrement | sign | negate | absolute | boolNot | nonZero | add | subtract
  | multiply | divide | remainder | shiftLeft | shiftRight | boolAnd | boolOr | numberEqual
  | numberNotEqual | less | greater | lessOrEqual | greaterOrEqual | minimum | maximum | within
  | sha1 | sha256 | hash160 | hash256 | checkSignature | verify | checkSignatures
  | arraySize | pack | unpack | pickItem | setItem | newArray | newStruct | newMap | append
  | reverse | remove | hasKey | keys | values
  | throw | throwIfNot
  deriving DecidableEq

namespace Operator

/-- The byte and the mnemonic of each operator. -/
def entry : Operator → UInt8 × String
  | .nop => (0x61, "NOP")
  | .ret => (0x66, "RET")
  | .dupFromAltStack => (0x6a, "DUPFROMALTSTACK")
  | .toAltStack => (0x6b, "TOALTSTACK")
  | .fromAltStack => (0x6c, "FROMALTSTACK")
  | .xDrop => (0x6d, "XDROP")
  | .xSwap => (0x72, "XSWAP")
  | .xTuck => (0x73, "XTUCK")
  | .depth => (0x74, "DEPTH")
  | .drop => (0x75, "DROP")
  | .duplicate => (0x76, "DUP")
  | .nip => (0x77, "NIP")
  | .over => (0x78, "OVER")
  | .pick => (0x79, "PICK")
  | .roll => (0x7a, "ROLL")
  | .rotate => (0x7b, "ROT")
  | .swap => (0x7c, "SWAP")
  | .tuck => (0x7d, "TUCK")
  | .concatenate => (0x7e, "CAT")
  | .substring => (0x7f, "SUBSTR")
  | .leftPart => (0x80, "LEFT")
  | .rightPart => (0x81, "RIGHT")
  | .size => (0x82, "SIZE")
  | .invert => (0x83, "INVERT")
  | .bitAnd => (0x84, "AND")
  | .bitOr => (0x85, "OR")
  | .bitXor => (0x86, "XOR")
  | .equal => (0x87, "EQUAL")
  | .increment => (0x8b, "INC")
  | .decrement => (0x8c, "DEC")
  | .sign => (0x8d, "SIGN")
  | .negate => (0x8f, "NEGATE")
  | .absolute => (0x90, "ABS")
  | .boolNot => (0x91, "NOT")
  | .nonZero => (0x92, "NZ")
  | .add => (0x93, "ADD")
  | .subtract => (0x94, "SUB")
  | .multiply => (0x95, "MUL")
  | .divide => (0x96, "DIV")
  | .remainder => (0x97, "MOD")
  | .shiftLeft => (0x98, "SHL")
  | .shiftRight => (0x99, "SHR")
  | .boolAnd => (0x9a, "BOOLAND")
  | .boolOr => (0x9b, "BOOLOR")
  | .numberEqual => (0x9c, "NUMEQUAL")
  | .numberNotEqual => (0x9e, "NUMNOTEQUAL")
  | .less => (0x9f, "LT")
  | .greater => (0xa0, "GT")
  | .lessOrEqual => (0xa1, "LTE")
  | .greaterOrEqual => (0xa2, "GTE")
  | .minimum => (0xa3, "MIN")
  | .maximum => (0xa4, "MAX")
  | .within => (0xa5, "WITHIN")
  | .sha1 => (0xa7, "SHA1")
  | .sha256 => (0xa8, "SHA256")
  | .hash160 => (0xa9, "HASH160")
  | .hash256 => (0xaa, "HASH256")
  | .checkSignature => (0xac, "CHECKSIG")
  | .verify => (0xad, "VERIFY")
  | .checkSignatures => (0xae, "CHECKMULTISIG")
  | .arraySize => (0xc0, "ARRAYSIZE")
  | .pack => (0xc1, "PACK")
  | .unpack => (0xc2, "UNPACK")
  | .pickItem => (0xc3, "PICKITEM")
  | .setItem => (0xc4, "SETITEM")
  | .newArray => (0xc5, "NEWARRAY")
  | .newStruct => (0xc6, "NEWSTRUCT")
  | .newMap => (0xc7, "NEWMAP")
  | .append => (0xc8, "APPEND")
  | .reverse => (0xc9, "REVERSE")
  | .remove => (0xca, "REMOVE")
  | .hasKey => (0xcb, "HASKEY")
  | .keys => (0xcc, "KEYS")
  | .values => (0xcd, "VALUES")
  | .throw => (0xf0, "THROW")
  | .throwIfNot => (0xf1, "THROWIFNOT")

/-- The byte that stands for an operator in a script. -/
def byte (operator : Operator) : UInt8 :=
  operator.entry.1

/-- The name of an operator in a listing. -/
def mnemonic (operator : Operator) : String :=
  operator.entry.2

/-- Every operator, in the order of the bytes. -/
def all : List Operator :=
  [.nop, .ret, .dupFromAltStack, .toAltStack, .fromAltStack, .xDrop, .xSwap, .xTuck, .depth,
   .drop, .duplicate, .nip, .over, .pick, .roll, .rotate, .swap, .tuck, .concatenate, .substring,
   .leftPart, .rightPart, .size, .invert, .bitAnd, .bitOr, .bitXor, .equal, .increment,
   .decrement, .sign, .negate, .absolute, .boolNot, .nonZero, .add, .subtract, .multiply,
   .divide, .remainder, .shiftLeft, .shiftRight, .boolAnd, .boolOr, .numberEqual,
   .numberNotEqual, .less, .greater, .lessOrEqual, .greaterOrEqual, .minimum, .maximum, .within,
   .sha1, .sha256, .hash160, .hash256, .checkSignature, .verify, .checkSignatures, .arraySize,
   .pack, .unpack, .pickItem, .setItem, .newArray, .newStruct, .newMap, .append, .reverse,
   .remove, .hasKey, .keys, .values, .throw, .throwIfNot]

/-- The operator that a byte stands for. -/
def ofByte? (byte : UInt8) : Option Operator :=
  all.find? fun operator => operator.byte == byte

/-- The list misses no operator. -/
theorem mem_all (operator : Operator) : operator ∈ all := by
  cases operator <;> decide

/-- No two operators share a byte, and their bytes lie above those of the constants. -/
theorem ofByte?_byte (operator : Operator) :
    ofByte? operator.byte = some operator ∧ 0x61 ≤ operator.byte.toNat := by
  cases operator <;> decide

/-- A byte that is looked up stands for the operator that was found. -/
theorem byte_of_ofByte? {byte : UInt8} {operator : Operator}
    (found : ofByte? byte = some operator) : operator.byte = byte := by
  simpa using List.find?_some found

end Operator

end ContractScript
