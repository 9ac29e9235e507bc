/-!
# Text as bytes and without case

Texts are stored as UTF-8, and every length limit of the library counts those
bytes, not characters. Names are looked up without regard to the case of ASCII
letters; letters of other scripts are compared as they stand. Blanks are those of
all scripts, line ends included.
-/

namespace ContractScript.Text

/-- The UTF-8 bytes of a text. -/
def utf8 (text : String) : List UInt8 :=
  text.toUTF8.data.toList

/-- A text with its ASCII letters in lower case. -/
def lower (text : String) : String :=
  String.ofList (text.toList.map Char.toLower)

/-- Two texts agree up to the case of ASCII letters. -/
def sameName (first second : String) : Bool :=
  lower first == lower second

/-- A character is blank: it has the Unicode property `White_Space`. -/
def isBlank (char : Char) : Bool :=
  let code := char.toNat
  (0x09 ≤ code && code ≤ 0x0d) || (0x2000 ≤ code && code ≤ 0x200a) ||
    [0x20, 0x85, 0xa0, 0x1680, 0x2028, 0x2029, 0x202f, 0x205f, 0x3000].contains code

/-- A text without the blanks at its end. -/
def trimmedRight (text : String) : String :=
  String.ofList (text.toList.reverse.dropWhile isBlank).reverse

/-- A text filled up on the right with blanks to at least `width` characters. -/
def padRight (width : Nat) (text : String) : String :=
  String.ofList (text.toList.rightpad width ' ')

end ContractScript.Text
