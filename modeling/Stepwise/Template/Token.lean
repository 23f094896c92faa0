/-!
# Tokens in a text

A token is two opening braces, a path of at least one character that is no closing brace, and
two closing braces. `pieces` cuts a text into its tokens and the characters between them, taking
the leftmost token each time; `source` puts the pieces together again.
-/

namespace Stepwise.Template

/-- A part of a text: a character of its own, or a token with its path. -/
inductive Piece
  | char (c : Char)
  | token (path : List Char)
  deriving DecidableEq

/-- The characters a piece was cut from. -/
def Piece.source : Piece → List Char
  | .char c => [c]
  | .token path => '\x7b' :: '\x7b' :: path ++ ['\x7d', '\x7d']

/-- A character that may stand in a path. -/
def inPath (c : Char) : Bool := c != '\x7d'

/-- The path of the token that a text begins with, and what follows the token. -/
def tokenAt? : List Char → Option (List Char × List Char)
  | '\x7b' :: '\x7b' :: body =>
    match body.takeWhile inPath, body.dropWhile inPath with
    | c :: path, '\x7d' :: '\x7d' :: rest => some (c :: path, rest)
    | _, _ => none
  | _ => none

theorem source_of_tokenAt? {s path rest : List Char} (h : tokenAt? s = some (path, rest)) :
    s = (Piece.token path).source ++ rest := by
  unfold tokenAt? at h
  split at h
  · next body =>
    split at h
    · next c path' rest' htake hdrop =>
      obtain ⟨rfl, rfl⟩ : c :: path' = path ∧ rest' = rest := by simpa using h
      have hbody : body = (c :: path') ++ '\x7d' :: '\x7d' :: rest' := by
        rw [← htake, ← hdrop, List.takeWhile_append_dropWhile]
      simp [Piece.source, hbody]
    · simp at h
  · simp at h

theorem length_of_tokenAt? {s path rest : List Char} (h : tokenAt? s = some (path, rest)) :
    rest.length < s.length := by
  rw [source_of_tokenAt? h]
  simp [Piece.source]
  omega

/-- The pieces of a text from left to right. -/
def pieces (s : List Char) : List Piece :=
  match s with
  | [] => []
  | c :: rest =>
    match _h : tokenAt? (c :: rest) with
    | some (path, after) => .token path :: pieces after
    | none => .char c :: pieces rest
termination_by s.length
decreasing_by
  · exact length_of_tokenAt? _h
  · simp

/-- Nothing of a text is lost when it is cut into pieces. -/
theorem flatMap_source_pieces (s : List Char) : (pieces s).flatMap Piece.source = s := by
  fun_induction pieces s with
  | case1 => rfl
  | case2 c rest path after h ih => rw [List.flatMap_cons, ih, ← source_of_tokenAt? h]
  | case3 c rest h ih => simp [Piece.source, ih]

end Stepwise.Template
