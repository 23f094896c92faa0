/-!
# Code points

Half of a surrogate pair is no character, but JSON can spell one that stands alone. A text that
holds one is kept as it is; only where it has to be encoded it is refused.
-/

namespace Stepwise.Text

/-- A code point of a text: a character, or half of a surrogate pair. -/
inductive Point
  | char (c : Char)
  | half (n : Fin 0x800)
  deriving DecidableEq

namespace Point

/-- The code of a point. -/
def code : Point → Nat
  | .char c => c.toNat
  | .half n => 0xD800 + n

/-- The character that a point is, if it is one. -/
def char? : Point → Option Char
  | .char c => some c
  | .half _ => none

end Point

/-- The points of a text. -/
def points (s : String) : List Point := s.toList.map .char

/-- No half of a surrogate pair is in the text. -/
def isPaired (s : List Point) : Bool := s.all (·.char?.isSome)

end Stepwise.Text
