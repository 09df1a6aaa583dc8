/-! # Blank characters

The characters with the Unicode property `White_Space`, and the two uses that the rest of the library makes
of them: trimming a text and asking whether anything is left.
-/

namespace TextHarvest.Text

/-- The 25 characters with the Unicode property `White_Space`. -/
def isBlank (c : Char) : Bool :=
  (9 ≤ c.toNat && c.toNat ≤ 13) || c.toNat == 0x20 || c.toNat == 0x85 || c.toNat == 0xA0 ||
    c.toNat == 0x1680 || (0x2000 ≤ c.toNat && c.toNat ≤ 0x200A) || c.toNat == 0x2028 ||
    c.toNat == 0x2029 || c.toNat == 0x202F || c.toNat == 0x205F || c.toNat == 0x3000

/-- A text is blank when it has no visible character: trimming blanks would leave nothing. -/
def allBlank (text : String) : Bool :=
  text.toList.all isBlank

/-- The byte-order mark, which may open a text and is not part of it. -/
def byteOrderMark : Char :=
  Char.ofNat 0xFEFF

def dropByteOrderMark : List Char → List Char
  | [] => []
  | c :: rest => if c = byteOrderMark then rest else c :: rest

/-- Drop the characters of a class at both ends. -/
def trimBy (drop : Char → Bool) (text : List Char) : List Char :=
  ((text.dropWhile drop).reverse.dropWhile drop).reverse

end TextHarvest.Text
