import Stepwise.Template.Path
import Stepwise.Template.Render
import Stepwise.Template.Token

/-!
# Filling templates

Filling a text replaces each token by the rendered value its path leads to; a token whose path is
missing stays. What was put in is not looked at again. Values that are not texts are left as they
are. Resolving a text that is one token, blanks around it aside, gives the value itself.
-/

namespace Stepwise.Template

/-- What a piece becomes. -/
def fillPiece (root : Fields) : Piece → Except Fault (List Char)
  | .char c => .ok [c]
  | .token path => do
    match ← lookup path root with
    | some value => return value.render
    | none => return (Piece.token path).source

/-- What a row of pieces becomes; the first fault ends the filling. -/
def fillPieces (root : Fields) : List Piece → Except Fault (List Char)
  | [] => .ok []
  | piece :: rest => do
    let first ← fillPiece root piece
    let rest ← fillPieces root rest
    return first ++ rest

/-- A text with its tokens replaced. -/
def fill (root : Fields) (s : List Char) : Except Fault (List Char) := fillPieces root (pieces s)

/-- A value with the tokens of a text replaced. -/
def interpolate (root : Fields) : Value → Except Fault Value
  | .text s => (fill root s.toList).map fun s => .text (String.ofList s)
  | value => .ok value

/-- The path of a text that is one token, blanks around it aside. -/
def soleToken? (s : List Char) : Option (List Char) :=
  match tokenAt? (Text.trim s) with
  | some (path, []) => some path
  | _ => none

/-- Like `interpolate`, but a sole token gives the value its path leads to. -/
def resolve (root : Fields) (value : Value) : Except Fault Value :=
  match value with
  | .text s =>
    match soleToken? s.toList with
    | some path => do
      match ← lookup path root with
      | some found => return found
      | none => interpolate root value
    | none => interpolate root value
  | value => .ok value

end Stepwise.Template
