import Mathlib.Tactic.Common
import Stepwise.Proofs.Template.Filling
import Stepwise.Proofs.Text.Padding

/-!
# Texts of one token

A text that is one token with blanks around it is resolved to the value that the path leads to,
and filled with the text of that value between the blanks. Resolving and filling are the same for
every other text, faults included, and both leave alone what is no text.
-/

namespace Stepwise.Template

open Text

/-- A text is one token, with blanks before and after it. -/
structure IsSole (s before path after : List Char) : Prop where
  blankBefore : AllBlank before
  isPath : IsPath path
  blankAfter : AllBlank after
  eq_append : s = before ++ (Piece.token path).source ++ after

variable {root : Fields} {s before path after : List Char} {found : Option Value} {fault : Fault}

/-! ## Finding the token -/

/-- No token begins in blanks. -/
theorem isLiteral_of_allBlank (h : AllBlank s) : IsLiteral s := by
  have hbrace : '\x7b' ∉ s := fun hmem => by
    have hblank := h _ hmem
    revert hblank
    decide
  constructor
  · intro hin
    exact hbrace (hin.subset List.mem_cons_self)
  · intro hend
    exact hbrace (hend.subset List.mem_cons_self)

theorem unpadded_source (path : List Char) : Unpadded (Piece.token path).source where
  first := by
    rintro c ⟨⟩
    rfl
  last := by
    have hsource : (Piece.token path).source =
        ('\x7b' :: '\x7b' :: path ++ ['\x7d']) ++ ['\x7d'] := by simp [Piece.source]
    rw [hsource, List.getLast?_concat]
    rintro c ⟨⟩
    rfl

theorem IsSole.trim_eq (h : IsSole s before path after) : trim s = (Piece.token path).source := by
  rw [h.eq_append, trim_padded h.blankBefore h.blankAfter (unpadded_source path)]

/-- The path that is found is that of the only token. -/
theorem soleToken?_eq_some_iff :
    soleToken? s = some path ↔ ∃ before after, IsSole s before path after := by
  constructor
  · intro h
    unfold soleToken? at h
    split at h
    · next found htoken =>
      obtain rfl := Option.some.inj h
      obtain ⟨hpath, htrim⟩ := tokenAt?_eq_some_iff.mp htoken
      obtain ⟨before, after, hb, ha, hs⟩ := exists_padding s
      rw [htrim, List.append_nil] at hs
      exact ⟨before, after, hb, hpath, ha, hs⟩
    · cases h
  · rintro ⟨before, after, h⟩
    have htoken := tokenAt?_source h.isPath []
    rw [List.append_nil, ← h.trim_eq] at htoken
    rw [soleToken?, htoken]

/-! ## The two results -/

theorem fill_token_fails (h : IsPath path) (hfault : lookup path root = .error fault)
    (rest : List Char) : fill root ((Piece.token path).source ++ rest) = .error fault := by
  rw [fill, pieces_token h, fillPieces, fillPiece, hfault]
  rfl

/-- The blanks around the only token stay. -/
theorem fill_sole (h : IsSole s before path after) (hfound : lookup path root = .ok found) :
    fill root s = .ok (before ++ replacement path found ++ after) := by
  have hslot : fill root ([Slot.mk path found after].flatMap Slot.source) =
      .ok ([Slot.mk path found after].flatMap Slot.filled) := by
    refine fill_slots fun slot hslot => ?_
    rw [List.mem_singleton.mp hslot]
    exact ⟨h.isPath, isLiteral_of_allBlank h.blankAfter, hfound⟩
  rw [List.flatMap_singleton, List.flatMap_singleton] at hslot
  rw [h.eq_append, List.append_assoc, fill_literal (isLiteral_of_allBlank h.blankBefore),
    List.append_assoc]
  exact congrArg (Except.map (before ++ ·)) hslot

theorem fill_sole_fails (h : IsSole s before path after)
    (hfault : lookup path root = .error fault) : fill root s = .error fault := by
  rw [h.eq_append, List.append_assoc, fill_literal (isLiteral_of_allBlank h.blankBefore),
    fill_token_fails h.isPath hfault]
  rfl

section

variable {s : String}

theorem interpolate_sole (h : IsSole s.toList before path after)
    (hfound : lookup path root = .ok found) : interpolate root (.text s) =
      .ok (.text (String.ofList (before ++ replacement path found ++ after))) := by
  rw [interpolate, fill_sole h hfound]
  rfl

theorem interpolate_sole_fails (h : IsSole s.toList before path after)
    (hfault : lookup path root = .error fault) : interpolate root (.text s) = .error fault := by
  rw [interpolate, fill_sole_fails h hfault]
  rfl

/-- What a text is resolved to hangs on whether it is one token, and on what the path leads to. -/
theorem resolve_sole (h : IsSole s.toList before path after) : resolve root (.text s) =
    (lookup path root).bind fun found =>
      match found with
      | some value => .ok value
      | none => interpolate root (.text s) := by
  rw [resolve, soleToken?_eq_some_iff.mpr ⟨before, after, h⟩]
  rfl

theorem resolve_of_not_sole (h : ∀ before path after, ¬ IsSole s.toList before path after) :
    resolve root (.text s) = interpolate root (.text s) := by
  have hnone : soleToken? s.toList = none := by
    rw [Option.eq_none_iff_forall_ne_some]
    intro path hpath
    obtain ⟨before, after, hsole⟩ := soleToken?_eq_some_iff.mp hpath
    exact h before path after hsole
  rw [resolve, hnone]

theorem resolve_to_value {value : Value} (h : IsSole s.toList before path after)
    (hvalue : lookup path root = .ok (some value)) : resolve root (.text s) = .ok value := by
  rw [resolve_sole h, hvalue]
  rfl

/-- Where no only token leads to a value, resolving is filling. -/
theorem resolve_to_filled (h : ∀ before path after value, IsSole s.toList before path after →
    lookup path root ≠ .ok (some value)) :
    resolve root (.text s) = interpolate root (.text s) := by
  by_cases hpath : ∃ before path after, IsSole s.toList before path after
  · obtain ⟨before, path, after, hsole⟩ := hpath
    rw [resolve_sole hsole]
    cases hlookup : lookup path root with
    | error fault => exact (interpolate_sole_fails hsole hlookup).symm
    | ok found =>
      cases found with
      | none => rfl
      | some value => exact absurd hlookup (h before path after value hsole)
  · push Not at hpath
    exact resolve_of_not_sole hpath

/-- A text is filled if the lookups of its tokens have results. -/
theorem exists_filled (h : ∀ path, .token path ∈ pieces s.toList →
    ∃ found, lookup path root = .ok found) :
    ∃ filled, interpolate root (.text s) = .ok (.text filled) := by
  cases hfill : fillPieces root (pieces s.toList) with
  | ok filled => exact ⟨String.ofList filled, by rw [interpolate, fill, hfill]; rfl⟩
  | error fault =>
    obtain ⟨path, hmem, hmisread⟩ := fillPieces_fails_iff.mp ⟨fault, hfill⟩
    obtain ⟨fault', hfault⟩ := lookup_fails_iff.mpr hmisread
    obtain ⟨found, hfound⟩ := h path hmem
    rw [hfault] at hfound
    cases hfound

end

/-! ## Resolving and filling -/

/-- A text that is one token with blanks around it, whose path leads to a value, is resolved to that
value and filled with its text between the blanks. Every other text is resolved to what it is
filled to, or both fail alike; they do not fail if the lookups of its tokens do not. What is no
text stays as it is. -/
theorem resolving_agrees_with_filling (root : Fields) :
    (∀ s : String, ∀ before path after value, IsSole s.toList before path after →
      lookup path root = .ok (some value) →
        resolve root (.text s) = .ok value ∧ interpolate root (.text s) =
          .ok (.text (String.ofList (before ++ value.render ++ after)))) ∧
    (∀ s : String, (∀ before path after value, IsSole s.toList before path after →
      lookup path root ≠ .ok (some value)) →
        resolve root (.text s) = interpolate root (.text s)) ∧
    (∀ s : String, (∀ path, .token path ∈ pieces s.toList → ∃ found, lookup path root = .ok found) →
      ∃ value filled, resolve root (.text s) = .ok value ∧
        interpolate root (.text s) = .ok (.text filled)) ∧
    ∀ value, value.kind ≠ .text → resolve root value = .ok value ∧
      interpolate root value = .ok value := by
  refine ⟨?_, fun s => resolve_to_filled, ?_, ?_⟩
  · intro s before path after value hsole hvalue
    exact ⟨resolve_to_value hsole hvalue, interpolate_sole hsole hvalue⟩
  · intro s hs
    obtain ⟨filled, hfilled⟩ := exists_filled hs
    by_cases hvalue : ∃ before path after value, IsSole s.toList before path after ∧
        lookup path root = .ok (some value)
    · obtain ⟨before, path, after, value, hsole, hlookup⟩ := hvalue
      exact ⟨value, filled, resolve_to_value hsole hlookup, hfilled⟩
    · have hsame : resolve root (.text s) = interpolate root (.text s) :=
        resolve_to_filled fun before path after value hsole hlookup =>
          hvalue ⟨before, path, after, value, hsole, hlookup⟩
      exact ⟨.text filled, filled, hsame.trans hfilled, hfilled⟩
  · intro value hvalue
    cases value with
    | text s => exact absurd rfl hvalue
    | _ => exact ⟨rfl, rfl⟩

/-- A path that holds a brace, between a wide blank and the end of a line. -/
theorem padded_rows_resolved :
    let root : Fields := [(.text "\x7brows", .list [.int 1, .null])]
    let s := "\u2003\x7b\x7b\x7brows\x7d\x7d\n"
    IsSole s.toList ['\u2003'] "\x7brows".toList ['\n'] ∧
      resolve root (.text s) = .ok (.list [.int 1, .null]) ∧
      interpolate root (.text s) = .ok (.text "\u2003[1,null]\n") := by
  intro root s
  have hsole : IsSole s.toList ['\u2003'] "\x7brows".toList ['\n'] :=
    ⟨by decide, by decide, by decide, by decide⟩
  have hlookup : lookup "\x7brows".toList root = .ok (some (.list [.int 1, .null])) := rfl
  exact ⟨hsole, (resolving_agrees_with_filling root).1 s _ _ _ _ hsole hlookup⟩

end Stepwise.Template
