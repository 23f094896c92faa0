import Stepwise.Text.Hex

/-!
# Percent signs in addresses

In an address a percent sign with two hexadecimal digits stands for a byte, and the bytes of
characters are those of UTF-8.
-/

namespace Stepwise.Text

/-- The bytes that an address stands for. -/
def bytesOfAddress : List Char → List UInt8
  | [] => []
  | '%' :: a :: b :: rest =>
    match hexValue? a, hexValue? b with
    | some high, some low => UInt8.ofNat (high * 16 + low) :: bytesOfAddress rest
    | _, _ => '%'.toNat.toUInt8 :: bytesOfAddress (a :: b :: rest)
  | c :: rest => (String.singleton c).toUTF8.toList ++ bytesOfAddress rest

/-- The text that an address stands for; bytes that are no characters leave it as it is. -/
def decodeAddress (s : String) : String :=
  (String.fromUTF8? ⟨(bytesOfAddress s.toList).toArray⟩).getD s

/-- A text with the bytes of all characters escaped that are not plain. -/
def escape (isPlain : Char → Bool) (s : List Char) : List Char :=
  s.flatMap fun c =>
    if isPlain c then [c]
    else (String.singleton c).toUTF8.toList.flatMap fun byte =>
      '%' :: (hex 2 byte.toNat).map Char.toUpper

/-- A character that stands for itself in an address. -/
def isPlainInAddress (c : Char) : Bool :=
  c.isAlphanum || "_.-~:/%#?=@[]!$&'()*+,;".toList.contains c

/-- The address of a text. -/
def encodeAddress (s : String) : String := String.ofList (escape isPlainInAddress s.toList)

/-- A character that stands for itself in a parameter. -/
def isPlainInParameter (c : Char) : Bool := c.isAlphanum || "_.-~".toList.contains c

/-- The escaped text of a parameter, in which a plus sign stands for a blank. -/
def encodeParameter (s : String) : String :=
  String.ofList ((escape (fun c => isPlainInParameter c || c = ' ') s.toList).map fun c =>
    if c = ' ' then '+' else c)

/-- Parameters with their names, as they stand after a question mark. -/
def encodeParameters (parameters : List (String × String)) : String :=
  "&".intercalate
    (parameters.map fun (name, value) => encodeParameter name ++ "=" ++ encodeParameter value)

end Stepwise.Text
