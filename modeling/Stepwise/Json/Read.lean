import Stepwise.Text.Quoted
import Stepwise.Number.Reading
import Stepwise.Value.Shown

/-!
# Reading JSON text

The reader takes JSON with the three number names `NaN`, `Infinity` and `-Infinity`. A whole
number is an integer of any size up to a limit of digits; a number with a fraction or an exponent
is a double. A repeated field name keeps its first place and last value. A text that is refused
is refused with a reason and the place where it was found.
-/

namespace Stepwise.Json

/-- Why a text is not JSON. -/
inductive Problem
  | value
  | fieldName
  | colon
  | comma
  | extraData
  | openText
  | badEscape
  | badUnicode
  | controlCharacter
  deriving DecidableEq

/-- The wording of a problem. -/
def Problem.message : Problem → String
  | .value => "Expecting value"
  | .fieldName => "Expecting property name enclosed in double quotes"
  | .colon => "Expecting ':' delimiter"
  | .comma => "Expecting ',' delimiter"
  | .extraData => "Extra data"
  | .openText => "Unterminated string starting at"
  | .badEscape => "Invalid \\escape"
  | .badUnicode => "Invalid \\uXXXX escape"
  | .controlCharacter => "Invalid control character at"

/-- The refusal of a text. -/
inductive Refusal
  /-- The text is not JSON: the problem and the number of characters before it. -/
  | malformed (problem : Problem) (offset : Nat)
  /-- A whole number with more digits than are read. -/
  | longNumber (digits : Nat)
  deriving DecidableEq

/-- What is left of a text, and how many characters came before. -/
structure Cursor where
  rest : List Char
  offset : Nat

/-- The four characters that JSON counts as blank. -/
def isBlank (c : Char) : Bool := c = ' ' || c = '\t' || c = '\n' || c = '\r'

namespace Cursor

/-- Goes on by a number of characters. -/
def advance (c : Cursor) (count : Nat) : Cursor := ⟨c.rest.drop count, c.offset + count⟩

/-- Goes on to the next character that is not blank. -/
def skipBlank (c : Cursor) : Cursor := c.advance (c.rest.takeWhile isBlank).length

/-- Fails at this place. -/
def fail {α : Type} (c : Cursor) (problem : Problem) : Except Refusal α :=
  .error (.malformed problem c.offset)

end Cursor

/-- The value of four hexadecimal digits. -/
def hexValue4? (a b c d : Char) : Option Nat := do
  let a ← Text.hexValue? a
  let b ← Text.hexValue? b
  let c ← Text.hexValue? c
  let d ← Text.hexValue? d
  return ((a * 16 + b) * 16 + c) * 16 + d

/-- The character that a backslash and a letter stand for. -/
def unescape? : Char → Option Char
  | '"' => some '"'
  | '\\' => some '\\'
  | '/' => some '/'
  | 'b' => some '\x08'
  | 'f' => some '\x0c'
  | 'n' => some '\n'
  | 'r' => some '\r'
  | 't' => some '\t'
  | _ => none

/-- The first half of a surrogate pair. -/
def isHighSurrogate (n : Nat) : Bool := decide (0xD800 ≤ n ∧ n ≤ 0xDBFF)

/-- The second half of a surrogate pair. -/
def isLowSurrogate (n : Nat) : Bool := decide (0xDC00 ≤ n ∧ n ≤ 0xDFFF)

/-- The character of a code. Half a pair stands for no character, and a text of characters cannot
hold it; so it is replaced here, although it is only refused where the text has to be encoded. -/
def charOfCode (n : Nat) : Char :=
  if isHighSurrogate n || isLowSurrogate n then '\uFFFD' else Char.ofNat n

/-- The characters of a row of codes; a pair of surrogates stands for one character. -/
def charsOfCodes : List Nat → List Char
  | [] => []
  | [code] => [charOfCode code]
  | high :: low :: rest =>
    if isHighSurrogate high && isLowSurrogate low then
      Char.ofNat (0x10000 + (high - 0xD800) * 0x400 + (low - 0xDC00)) :: charsOfCodes rest
    else charOfCode high :: charsOfCodes (low :: rest)

/-- Puts a code in front of those of the rest of a string. -/
def consCode (code : Nat) (rest : Except Refusal (List Nat × Cursor)) :
    Except Refusal (List Nat × Cursor) :=
  rest.map fun (codes, cursor) => (code :: codes, cursor)

/-- The codes of the rest of a string whose opening quote stands at `start`; `offset` characters
came before the text given. -/
def readText (start offset : Nat) : List Char → Except Refusal (List Nat × Cursor)
  | [] => .error (.malformed .openText start)
  | '"' :: rest => .ok ([], ⟨rest, offset + 1⟩)
  | '\\' :: 'u' :: a :: b :: c :: d :: next :: rest =>
    match hexValue4? a b c d with
    | none => .error (.malformed .badUnicode (offset + 1))
    | some code => consCode code (readText start (offset + 6) (next :: rest))
  | '\\' :: 'u' :: _ => .error (.malformed .badUnicode (offset + 1))
  | ['\\'] => .error (.malformed .openText start)
  | '\\' :: c :: rest =>
    match unescape? c with
    | none => .error (.malformed .badEscape offset)
    | some c => consCode c.toNat (readText start (offset + 2) rest)
  | c :: rest =>
    if c.toNat < 0x20 then .error (.malformed .controlCharacter offset)
    else consCode c.toNat (readText start (offset + 1) rest)

/-- The string that begins after the opening quote at the cursor. -/
def readString (cursor : Cursor) : Except Refusal (String × Cursor) :=
  (readText cursor.offset (cursor.offset + 1) (cursor.rest.drop 1)).map
    fun (codes, cursor) => (String.ofList (charsOfCodes codes), cursor)

/-- An ASCII digit. -/
def isDigit (c : Char) : Bool := '0' ≤ c && c ≤ '9'

/-- The digits of the whole part of a number: a single zero, or a row that does not begin with
one. -/
def wholeDigits : List Char → List Char
  | '0' :: _ => ['0']
  | s => s.takeWhile isDigit

/-- The fraction that a text begins with: a point with digits after it, or nothing. -/
def fractionDigits : List Char → List Char
  | '.' :: s => s.takeWhile isDigit
  | _ => []

/-- The exponent that a text begins with: its length in characters and its value. -/
def exponentPart : List Char → Nat × Int
  | c :: s =>
    if c = 'e' ∨ c = 'E' then
      let (negative, s, sign) := match s with
        | '-' :: s => (true, s, 1)
        | '+' :: s => (false, s, 1)
        | s => (false, s, 0)
      let digits := s.takeWhile isDigit
      let n : Int := Text.numeral (digits.map fun d => d.toNat - '0'.toNat)
      if digits.isEmpty then (0, 0)
      else (1 + sign + digits.length, if negative then -n else n)
    else (0, 0)
  | [] => (0, 0)

/-- The number that a text begins with. -/
def readNumber (cursor : Cursor) : Except Refusal (Value × Cursor) :=
  let (negative, body) := match cursor.rest with
    | '-' :: body => (true, body)
    | body => (false, body)
  let signed := if negative then cursor.advance 1 else cursor
  let whole := wholeDigits body
  if whole.isEmpty then cursor.fail .value
  else
    let fraction := fractionDigits (body.drop whole.length)
    let point := if fraction.isEmpty then 0 else 1 + fraction.length
    let (width, exponent) := exponentPart (body.drop (whole.length + point))
    let valueOf (digits : List Char) := Text.numeral (digits.map fun d => d.toNat - '0'.toNat)
    let after := signed.advance (whole.length + point + width)
    if point = 0 ∧ width = 0 then
      if digitLimit < whole.length then .error (.longNumber whole.length)
      else
        let n : Int := valueOf whole
        .ok (.int (if negative then -n else n), after)
    else
      let numeral : Decimal := ⟨negative, valueOf (whole ++ fraction), exponent - fraction.length⟩
      .ok (.double numeral.toDouble, after)

/-- A word of fixed spelling, or else a number. -/
def readWord (cursor : Cursor) : Except Refusal (Value × Cursor) :=
  let words : List (String × Value) :=
    [("null", .null), ("true", .bool true), ("false", .bool false), ("NaN", .double .nan),
      ("Infinity", .double (.infinite false)), ("-Infinity", .double (.infinite true))]
  match words.find? fun (word, _) => word.toList.isPrefixOf cursor.rest with
  | some (word, value) => .ok (value, cursor.advance word.length)
  | none => readNumber cursor

mutual

/-- The value that a text begins with; `fuel` bounds the number of values and fields read. -/
def readValue (fuel : Nat) (cursor : Cursor) : Except Refusal (Value × Cursor) :=
  match fuel with
  | 0 => cursor.fail .value
  | fuel + 1 =>
    match cursor.rest with
    | '"' :: _ => do
      let (s, cursor) ← readString cursor
      return (.text s, cursor)
    | '[' :: _ =>
      let cursor := (cursor.advance 1).skipBlank
      match cursor.rest with
      | ']' :: _ => .ok (.list [], cursor.advance 1)
      | _ => do
        let (items, cursor) ← readItems fuel cursor
        return (.list items, cursor)
    | '\x7b' :: _ =>
      let cursor := (cursor.advance 1).skipBlank
      match cursor.rest with
      | '\x7d' :: _ => .ok (.object [], cursor.advance 1)
      | _ => do
        let (fields, cursor) ← readFields fuel cursor
        return (.object (Fields.ofList fields), cursor)
    | _ => readWord cursor

/-- The items of a list up to its closing bracket; there is at least one. -/
def readItems (fuel : Nat) (cursor : Cursor) : Except Refusal (List Value × Cursor) :=
  match fuel with
  | 0 => cursor.fail .value
  | fuel + 1 => do
    let (value, cursor) ← readValue fuel cursor
    let cursor := cursor.skipBlank
    match cursor.rest with
    | ']' :: _ => return ([value], cursor.advance 1)
    | ',' :: _ =>
      let (items, cursor) ← readItems fuel (cursor.advance 1).skipBlank
      return (value :: items, cursor)
    | _ => cursor.fail .comma

/-- The fields of an object up to its closing brace; there is at least one. -/
def readFields (fuel : Nat) (cursor : Cursor) : Except Refusal (List (Key × Value) × Cursor) :=
  match fuel with
  | 0 => cursor.fail .value
  | fuel + 1 =>
    match cursor.rest with
    | '"' :: _ => do
      let (name, cursor) ← readString cursor
      let cursor := cursor.skipBlank
      match cursor.rest with
      | ':' :: _ =>
        let (value, cursor) ← readValue fuel (cursor.advance 1).skipBlank
        let field := (Key.text name, value)
        let cursor := cursor.skipBlank
        match cursor.rest with
        | '\x7d' :: _ => return ([field], cursor.advance 1)
        | ',' :: _ =>
          let (fields, cursor) ← readFields fuel (cursor.advance 1).skipBlank
          return (field :: fields, cursor)
        | _ => cursor.fail .comma
      | _ => cursor.fail .colon
    | _ => cursor.fail .fieldName

end

/-- Reads a whole text as one value. -/
def read (s : List Char) : Except Refusal Value := do
  let (value, cursor) ← readValue (2 * s.length + 1) (Cursor.mk s 0).skipBlank
  let cursor := cursor.skipBlank
  if cursor.rest.isEmpty then return value else cursor.fail .extraData

/-- Reads the text of a message body, which may begin with a byte order mark. -/
def readBody (s : List Char) : Except Refusal Value :=
  match s with
  | '\uFEFF' :: rest => read rest
  | s => read s

/-- The text that was read from a body: without its byte order mark. -/
def bodyText : List Char → List Char
  | '\uFEFF' :: rest => rest
  | s => s

/-- The wording of a refusal of a text, with the line and the column of the place. -/
def Refusal.message (text : List Char) : Refusal → String
  | .malformed problem offset =>
    let before := text.take offset
    let line := before.count '\n' + 1
    let column := (before.reverse.takeWhile (· ≠ '\n')).length + 1
    problem.message ++ ": line " ++ toString line ++ " column " ++ toString column
      ++ " (char " ++ toString offset ++ ")"
  | .longNumber digits =>
    "Exceeds the limit (" ++ toString digitLimit
      ++ " digits) for integer string conversion: value has " ++ toString digits
      ++ " digits; use sys.set_int_max_str_digits() to increase the limit"

end Stepwise.Json
