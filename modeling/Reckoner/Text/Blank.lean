/-!
# Blank characters and lower case

`isBlank` is the White_Space property of the character database.  `trim` removes blanks from both
ends of a text.  `lowerToAscii` is the part of the lower-case mapping that ends in ASCII: the ASCII
capitals, the capital I with a dot and the Kelvin sign.  Every other character has a lower case
outside ASCII or is its own lower case.
-/

namespace Reckoner.Text

/-- The White_Space property. -/
def isBlank (c : Char) : Bool :=
  let code := c.toNat
  (9 ≤ code && code ≤ 13) || code == 0x20 || code == 0x85 || code == 0xa0 || code == 0x1680 ||
    (0x2000 ≤ code && code ≤ 0x200a) || code == 0x2028 || code == 0x2029 || code == 0x202f ||
    code == 0x205f || code == 0x3000

/-- The text without the blanks at its two ends. -/
def trim (text : List Char) : List Char :=
  ((text.dropWhile isBlank).reverse.dropWhile isBlank).reverse

/-- The lower case of a character whenever that is an ASCII character.  Characters whose lower case
is not ASCII are left alone, so they stay outside ASCII. -/
def lowerToAscii (c : Char) : Char :=
  if c.toNat = 0x130 then 'i'
  else if c.toNat = 0x212a then 'k'
  else c.toLower

end Reckoner.Text
