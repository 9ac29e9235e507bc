/-!
# Signed integers as bytes

An integer of any size as the shortest two's complement byte string, most
significant byte first. The first byte carries the sign, so a positive number
whose top bit is set gets one more zero byte and a negative one whose top bit is
clear one more `0xff` byte. `value` reads any such string, shortest or not, and
takes the empty one as zero.
-/

namespace ContractScript.SignedBytes

/-- The bytes of `number` in front of less significant ones: the low byte is
split off until a single signed byte remains. -/
def encodeOnto (lower : List UInt8) (number : Int) : List UInt8 :=
  if -128 ≤ number ∧ number < 128 then UInt8.ofInt number :: lower
  else encodeOnto (UInt8.ofInt number :: lower) (number / 256)
termination_by number.natAbs
decreasing_by omega

/-- The shortest signed byte string of an integer; zero takes one byte. -/
def encode (number : Int) : List UInt8 :=
  encodeOnto [] number

/-- The integer that a signed byte string stands for. -/
def value : List UInt8 → Int
  | [] => 0
  | first :: rest =>
    rest.foldl (fun high byte => 256 * high + byte.toNat) first.toInt8.toInt

end ContractScript.SignedBytes
