import Stepwise.Text.Range

/-!
# Blank characters

The Unicode white space together with the four information separators U+001C to U+001F.
U+200B, U+FEFF and U+180E are not blank. `trim` takes blanks off both ends of a text.
-/

namespace Stepwise.Text

/-- Ranges of the blank characters. -/
def blankRanges : Ranges :=
  [(0x9, 0xD), (0x1C, 0x20), (0x85, 0x85), (0xA0, 0xA0), (0x1680, 0x1680), (0x2000, 0x200A),
   (0x2028, 0x2029), (0x202F, 0x202F), (0x205F, 0x205F), (0x3000, 0x3000)]

/-- A white space character or an information separator. -/
def isBlank (c : Char) : Bool := inRanges blankRanges c

/-- The text without the characters of a class at its ends. -/
def trimWhile (drop : Char → Bool) (s : List Char) : List Char :=
  ((s.dropWhile drop).reverse.dropWhile drop).reverse

/-- The text without blanks at its ends. -/
def trim (s : List Char) : List Char := trimWhile isBlank s

end Stepwise.Text
