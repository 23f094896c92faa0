import Mathlib.Data.List.Infix
import Mathlib.Data.List.TakeWhile
import Mathlib.Tactic.Common
import Stepwise.Template.Token

/-!
# How a text falls into tokens

A text is scanned from the left: where a token begins it is taken as a whole, and any other
character stands for itself. There is one way to scan a text, and `pieces` gives it. A literal
holds no two opening braces in a row and does not end in one, so it takes no part in a token that
follows it.
-/

namespace Stepwise.Template

/-- What may stand between the braces of a token. -/
structure IsPath (path : List Char) : Prop where
  ne_nil : path ≠ []
  unclosed : '\x7d' ∉ path

instance (path : List Char) : Decidable (IsPath path) :=
  decidable_of_iff (path ≠ [] ∧ '\x7d' ∉ path) ⟨fun h => ⟨h.1, h.2⟩, fun h => ⟨h.1, h.2⟩⟩

/-- The scan of a text from left to right. -/
inductive Scans : List Char → List Piece → Prop
  | nil : Scans [] []
  | token {path rest : List Char} {cut : List Piece} (h : IsPath path) (hrest : Scans rest cut) :
      Scans ((Piece.token path).source ++ rest) (.token path :: cut)
  | char {c : Char} {rest : List Char} {cut : List Piece}
      (h : ∀ path after, IsPath path → c :: rest ≠ (Piece.token path).source ++ after)
      (hrest : Scans rest cut) : Scans (c :: rest) (.char c :: cut)

variable {s path rest after literal : List Char} {c : Char} {cut : List Piece}

/-! ## The token at the head of a text -/

theorem inPath_iff : inPath c = true ↔ c ≠ '\x7d' := by simp [inPath]

theorem IsPath.inPath (h : IsPath path) : ∀ c ∈ path, inPath c = true := by
  intro c hc
  rw [inPath_iff]
  rintro rfl
  exact h.unclosed hc

theorem isPath_of_tokenAt? (h : tokenAt? s = some (path, rest)) : IsPath path := by
  unfold tokenAt? at h
  split at h
  · next body =>
    split at h
    · next c path' rest' htake _ =>
      obtain ⟨rfl, rfl⟩ : c :: path' = path ∧ rest' = rest := by simpa using h
      constructor
      · simp
      · intro hmem
        rw [← htake] at hmem
        simpa [inPath] using List.mem_takeWhile_imp hmem
    · simp at h
  · simp at h

/-- A token is recognised whatever follows it, and with the path that it was made of. -/
theorem tokenAt?_source (h : IsPath path) (rest : List Char) :
    tokenAt? ((Piece.token path).source ++ rest) = some (path, rest) := by
  have htake : (path ++ '\x7d' :: '\x7d' :: rest).takeWhile inPath = path := by
    rw [List.takeWhile_append_of_pos h.inPath, List.takeWhile_cons]
    simp [inPath]
  have hdrop : (path ++ '\x7d' :: '\x7d' :: rest).dropWhile inPath = '\x7d' :: '\x7d' :: rest := by
    rw [List.dropWhile_append_of_pos h.inPath, List.dropWhile_cons]
    simp [inPath]
  have hsource : (Piece.token path).source ++ rest =
      '\x7b' :: '\x7b' :: (path ++ '\x7d' :: '\x7d' :: rest) := by
    simp [Piece.source]
  rw [hsource, tokenAt?, htake, hdrop]
  cases path with
  | nil => exact absurd rfl h.ne_nil
  | cons c path => rfl

theorem tokenAt?_eq_some_iff :
    tokenAt? s = some (path, rest) ↔ IsPath path ∧ s = (Piece.token path).source ++ rest := by
  constructor
  · intro h
    exact ⟨isPath_of_tokenAt? h, source_of_tokenAt? h⟩
  · rintro ⟨hpath, rfl⟩
    exact tokenAt?_source hpath rest

theorem tokenAt?_eq_none_iff : tokenAt? s = none ↔
    ∀ path after, IsPath path → s ≠ (Piece.token path).source ++ after := by
  rw [Option.eq_none_iff_forall_ne_some]
  constructor
  · intro h path after hpath heq
    exact h (path, after) (tokenAt?_eq_some_iff.mpr ⟨hpath, heq⟩)
  · rintro h ⟨path, after⟩ heq
    obtain ⟨hpath, hs⟩ := tokenAt?_eq_some_iff.mp heq
    exact h path after hpath hs

/-! ## The scan of a text -/

theorem pieces_token (h : IsPath path) (rest : List Char) :
    pieces ((Piece.token path).source ++ rest) = .token path :: pieces rest := by
  have htoken := tokenAt?_source h rest
  have hcons : (Piece.token path).source ++ rest =
      '\x7b' :: ('\x7b' :: path ++ ['\x7d', '\x7d'] ++ rest) := rfl
  rw [hcons] at htoken ⊢
  rw [pieces]
  split
  · next path' after heq =>
    obtain ⟨rfl, rfl⟩ : path' = path ∧ after = rest := by
      simpa using heq.symm.trans htoken
    rfl
  · next hnone =>
    rw [htoken] at hnone
    cases hnone

theorem pieces_char (h : tokenAt? (c :: rest) = none) :
    pieces (c :: rest) = .char c :: pieces rest := by
  rw [pieces]
  split
  · next path after heq => simp [h] at heq
  · rfl

theorem scans_pieces (s : List Char) : Scans s (pieces s) := by
  fun_induction pieces s with
  | case1 => exact .nil
  | case2 c rest path after h ih =>
    rw [source_of_tokenAt? h]
    exact .token (isPath_of_tokenAt? h) ih
  | case3 c rest h ih => exact .char (tokenAt?_eq_none_iff.mp h) ih

/-- There is one scan of a text. -/
theorem scans_iff : Scans s cut ↔ cut = pieces s := by
  constructor
  · intro h
    induction h with
    | nil => rw [pieces]
    | token h _ ih => rw [pieces_token h, ih]
    | char h _ ih => rw [pieces_char (tokenAt?_eq_none_iff.mpr h), ih]
  · rintro rfl
    exact scans_pieces s

/-! ## Literals -/

/-- A stretch of text that no token can begin in. -/
structure IsLiteral (literal : List Char) : Prop where
  single : ¬ ['\x7b', '\x7b'] <:+: literal
  ended : ¬ ['\x7b'] <:+ literal

instance (literal : List Char) : Decidable (IsLiteral literal) :=
  decidable_of_iff (¬ ['\x7b', '\x7b'] <:+: literal ∧ ¬ ['\x7b'] <:+ literal)
    ⟨fun h => ⟨h.1, h.2⟩, fun h => ⟨h.1, h.2⟩⟩

theorem IsLiteral.tail (h : IsLiteral (c :: literal)) : IsLiteral literal where
  single hin := h.single (hin.trans (List.suffix_cons c literal).isInfix)
  ended hend := h.ended (hend.trans (List.suffix_cons c literal))

/-- No token begins at a character of a literal, whatever follows the literal. -/
theorem IsLiteral.tokenAt?_eq_none (h : IsLiteral (c :: literal)) (rest : List Char) :
    tokenAt? (c :: literal ++ rest) = none := by
  rw [tokenAt?_eq_none_iff]
  intro path after _ heq
  obtain ⟨rfl, hrest⟩ : c = '\x7b' ∧
      literal ++ rest = '\x7b' :: (path ++ ['\x7d', '\x7d'] ++ after) := by
    simpa [Piece.source] using heq
  cases literal with
  | nil => exact h.ended (List.suffix_refl _)
  | cons d literal =>
    obtain ⟨rfl, _⟩ : d = '\x7b' ∧ _ := by simpa using hrest
    exact h.single (List.prefix_append ['\x7b', '\x7b'] literal).isInfix

theorem pieces_literal (h : IsLiteral literal) (rest : List Char) :
    pieces (literal ++ rest) = literal.map .char ++ pieces rest := by
  induction literal with
  | nil => rfl
  | cons c literal ih =>
    have hhead : tokenAt? (c :: (literal ++ rest)) = none := h.tokenAt?_eq_none rest
    rw [List.cons_append, pieces_char hhead, ih h.tail]
    rfl

end Stepwise.Template
