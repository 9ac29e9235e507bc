import ContractScript.LittleEndian

/-!
# SHA-256

The digest of a byte string: the message is padded to whole blocks of sixteen
32-bit words, and each block is folded into a chaining state of eight words by
sixty-four rounds. `digest` gives the 32 bytes of the final state, most significant
byte of each word first. Nothing else in the library depends on how the digest is
computed; that it always has 32 bytes is the only law that is used.
-/

namespace ContractScript.Sha256

/-- The chaining state between two blocks. -/
structure State where
  a : UInt32
  b : UInt32
  c : UInt32
  d : UInt32
  e : UInt32
  f : UInt32
  g : UInt32
  h : UInt32

/-- The state before the first block. -/
def initial : State :=
  ⟨0x6a09e667, 0xbb67ae85, 0x3c6ef372, 0xa54ff53a, 0x510e527f, 0x9b05688c, 0x1f83d9ab, 0x5be0cd19⟩

/-- The constant added in each of the sixty-four rounds. -/
def roundConstants : List UInt32 :=
  [0x428a2f98, 0x71374491, 0xb5c0fbcf, 0xe9b5dba5, 0x3956c25b, 0x59f111f1, 0x923f82a4, 0xab1c5ed5,
   0xd807aa98, 0x12835b01, 0x243185be, 0x550c7dc3, 0x72be5d74, 0x80deb1fe, 0x9bdc06a7, 0xc19bf174,
   0xe49b69c1, 0xefbe4786, 0x0fc19dc6, 0x240ca1cc, 0x2de92c6f, 0x4a7484aa, 0x5cb0a9dc, 0x76f988da,
   0x983e5152, 0xa831c66d, 0xb00327c8, 0xbf597fc7, 0xc6e00bf3, 0xd5a79147, 0x06ca6351, 0x14292967,
   0x27b70a85, 0x2e1b2138, 0x4d2c6dfc, 0x53380d13, 0x650a7354, 0x766a0abb, 0x81c2c92e, 0x92722c85,
   0xa2bfe8a1, 0xa81a664b, 0xc24b8b70, 0xc76c51a3, 0xd192e819, 0xd6990624, 0xf40e3585, 0x106aa070,
   0x19a4c116, 0x1e376c08, 0x2748774c, 0x34b0bcb5, 0x391c0cb3, 0x4ed8aa4a, 0x5b9cca4f, 0x682e6ff3,
   0x748f82ee, 0x78a5636f, 0x84c87814, 0x8cc70208, 0x90befffa, 0xa4506ceb, 0xbef9a3f7, 0xc67178f2]

/-- A word rotated to the right. -/
def rotate (word amount : UInt32) : UInt32 :=
  (word >>> amount) ||| (word <<< (32 - amount))

/-- The number of zero bytes between the closing bit and the length. -/
def paddingZeros (length : Nat) : Nat :=
  (55 + 64 - length % 64) % 64

/-- The message length in bits as eight bytes, most significant first. -/
def lengthBytes (length : Nat) : List UInt8 :=
  (LittleEndian.bytes 8 (8 * length)).reverse

/-- The message, a closing one bit, zeros and the length: whole blocks of 64 bytes. -/
def pad (message : List UInt8) : List UInt8 :=
  message ++ 0x80 :: List.replicate (paddingZeros message.length) 0 ++ lengthBytes message.length

/-- The 32-bit word of four bytes, most significant first. -/
def word (first second third fourth : UInt8) : UInt32 :=
  first.toUInt32 <<< 24 ||| second.toUInt32 <<< 16 ||| third.toUInt32 <<< 8 ||| fourth.toUInt32

/-- Words of a byte string behind those already read, newest first; fewer than
four bytes at the end are left out. -/
def wordsOnto (earlier : List UInt32) : List UInt8 → List UInt32
  | first :: second :: third :: fourth :: rest =>
    wordsOnto (word first second third fourth :: earlier) rest
  | _ => earlier.reverse

/-- The word that follows the sixteen latest words of a schedule, newest first. -/
def nextWord (latest : List UInt32) : UInt32 :=
  let two := latest.getD 1 0
  let fifteen := latest.getD 14 0
  let low := rotate fifteen 7 ^^^ rotate fifteen 18 ^^^ (fifteen >>> 3)
  let high := rotate two 17 ^^^ rotate two 19 ^^^ (two >>> 10)
  latest.getD 15 0 + low + latest.getD 6 0 + high

/-- Add `count` words to a schedule held newest first. -/
def extend : Nat → List UInt32 → List UInt32
  | 0, latest => latest
  | count + 1, latest => extend count (nextWord latest :: latest)

/-- The sixty-four words of a block, in the order in which the rounds use them. -/
def schedule (block : List UInt32) : List UInt32 :=
  (extend 48 block.reverse).reverse

/-- One round with its constant and its word of the schedule. -/
def round (state : State) (constant scheduled : UInt32) : State :=
  let sumHigh := rotate state.e 6 ^^^ rotate state.e 11 ^^^ rotate state.e 25
  let choice := (state.e &&& state.f) ^^^ (~~~state.e &&& state.g)
  let first := state.h + sumHigh + choice + constant + scheduled
  let sumLow := rotate state.a 2 ^^^ rotate state.a 13 ^^^ rotate state.a 22
  let majority := (state.a &&& state.b) ^^^ (state.a &&& state.c) ^^^ (state.b &&& state.c)
  ⟨first + (sumLow + majority), state.a, state.b, state.c,
    state.d + first, state.e, state.f, state.g⟩

/-- Fold one block of sixteen words into the state. -/
def compress (state : State) (block : List UInt32) : State :=
  let final := (roundConstants.zip (schedule block)).foldl
    (fun current step => round current step.1 step.2) state
  ⟨state.a + final.a, state.b + final.b, state.c + final.c, state.d + final.d,
    state.e + final.e, state.f + final.f, state.g + final.g, state.h + final.h⟩

/-- Fold all blocks of a word string into the state; a shorter rest would be one
more block, but padding leaves none. -/
def absorb (state : State) (words : List UInt32) : State :=
  match words with
  | [] => state
  | first :: rest => absorb (compress state (first :: rest.take 15)) (rest.drop 15)
termination_by words.length
decreasing_by
  simp only [List.length_drop, List.length_cons]
  omega

/-- The four bytes of a word, most significant first. -/
def wordBytes (word : UInt32) : List UInt8 :=
  [(word >>> 24).toUInt8, (word >>> 16).toUInt8, (word >>> 8).toUInt8, word.toUInt8]

/-- The 32 digest bytes of a message. -/
def digest (message : List UInt8) : List UInt8 :=
  let final := absorb initial (wordsOnto [] (pad message))
  [final.a, final.b, final.c, final.d, final.e, final.f, final.g, final.h].flatMap wordBytes

/-- Every digest has 32 bytes. -/
@[simp] theorem length_digest (message : List UInt8) : (digest message).length = 32 := by
  simp [digest, wordBytes]

/-- The digests of the empty message and of `abc` begin with the known bytes. -/
example : (digest []).take 4 = [0xe3, 0xb0, 0xc4, 0x42] ∧
    (digest [0x61, 0x62, 0x63]).take 4 = [0xba, 0x78, 0x16, 0xbf] := by
  decide +kernel

end ContractScript.Sha256
