import Stepwise.Text.Hex
import Stepwise.Text.Printable

/-!
# Quoted text

A text shown inside a message: in single quotes, or in double quotes when it holds a single
one and no double one; quotes of the kind used, backslashes and unprintable characters are
escaped.
-/

namespace Stepwise.Text

/-- One character of a quoted text. -/
def quoteChar (quote c : Char) : List Char :=
  if c = quote ∨ c = '\\' then ['\\', c]
  else if c = '\n' then ['\\', 'n']
  else if c = '\r' then ['\\', 'r']
  else if c = '\t' then ['\\', 't']
  else if isPrintable c then [c]
  else if c.toNat < 0x100 then '\\' :: 'x' :: hex 2 c.toNat
  else if c.toNat < 0x10000 then '\\' :: 'u' :: hex 4 c.toNat
  else '\\' :: 'U' :: hex 8 c.toNat

/-- A text in quotes. -/
def quoted (s : List Char) : List Char :=
  let quote := if s.contains '\'' && !s.contains '"' then '"' else '\''
  quote :: s.flatMap (quoteChar quote) ++ [quote]

end Stepwise.Text
