import Mathlib.Data.List.Forall2
import Mathlib.Tactic.Common
import Stepwise.Proofs.Template.Access
import Stepwise.Proofs.Template.Tokens

/-!
# What a template is filled with

Every token of a text is replaced on its own, by the rendered value that its path leads to or by
itself, and all other characters stay. What is put in takes no part in other tokens, whatever it
holds. Filling fails if and only if the path of some token is misread; every text without such a
token is filled.
-/

namespace Stepwise.Template

/-- What stands in place of a token for whose path a value was found, or none. -/
def replacement (path : List Char) : Option Value → List Char
  | some value => value.render
  | none => (Piece.token path).source

/-- What a piece of a text is replaced by. -/
inductive Becomes (root : Fields) : Piece → List Char → Prop
  | char (c : Char) : Becomes root (.char c) [c]
  | token {path : List Char} {found : Option Value} (h : lookup path root = .ok found) :
      Becomes root (.token path) (replacement path found)

/-- A token of a text with what is found for its path, and the literal that follows it. -/
structure Slot where
  path : List Char
  found : Option Value
  after : List Char

/-- The stretch of a text that a token and the literal after it take. -/
def Slot.source (slot : Slot) : List Char := (Piece.token slot.path).source ++ slot.after

/-- The same stretch with the token replaced. -/
def Slot.filled (slot : Slot) : List Char := replacement slot.path slot.found ++ slot.after

variable {root : Fields} {s path literal rest filled : List Char} {cut : List Piece}

/-! ## Pieces -/

theorem fillPiece_token {found : Option Value} (h : lookup path root = .ok found) :
    fillPiece root (.token path) = .ok (replacement path found) := by
  rw [fillPiece, h]
  cases found <;> rfl

theorem fillPiece_eq_ok_iff {piece : Piece} :
    fillPiece root piece = .ok filled ↔ Becomes root piece filled := by
  cases piece with
  | char c =>
    constructor
    · intro h
      obtain rfl : [c] = filled := by simpa [fillPiece] using h
      exact .char c
    · rintro ⟨⟩
      rfl
  | token path =>
    constructor
    · intro h
      obtain ⟨found, hfound, _⟩ := Except.ok_of_bind h
      rw [fillPiece_token hfound] at h
      obtain rfl := Except.ok.inj h
      exact .token hfound
    · rintro ⟨⟩
      exact fillPiece_token (by assumption)

theorem fillPieces_eq_ok_iff : fillPieces root cut = .ok filled ↔
    ∃ parts, List.Forall₂ (Becomes root) cut parts ∧ filled = parts.flatten := by
  induction cut generalizing filled with
  | nil => simp [fillPieces, eq_comm]
  | cons piece cut ih =>
    constructor
    · intro h
      obtain ⟨part, hpart, h⟩ := Except.ok_of_bind h
      obtain ⟨others, hothers, h⟩ := Except.ok_of_bind h
      obtain ⟨parts, hparts, rfl⟩ := ih.mp hothers
      exact ⟨part :: parts, .cons (fillPiece_eq_ok_iff.mp hpart) hparts, (Except.ok.inj h).symm⟩
    · rintro ⟨_, hparts, rfl⟩
      cases hparts with
      | cons hpart hparts =>
        rw [fillPieces, fillPiece_eq_ok_iff.mpr hpart, ih.mpr ⟨_, hparts, rfl⟩]
        rfl

/-- Filling fails at a token for which the lookup fails. -/
theorem fillPieces_fails_iff : (∃ fault, fillPieces root cut = .error fault) ↔
    ∃ path, .token path ∈ cut ∧ Misread root path := by
  induction cut with
  | nil => simp [fillPieces]
  | cons piece cut ih =>
    have hrest : ∀ part, fillPiece root piece = .ok part →
        ((∃ fault, fillPieces root (piece :: cut) = .error fault) ↔
          ∃ fault, fillPieces root cut = .error fault) := by
      intro part hpart
      rw [fillPieces, hpart]
      cases fillPieces root cut <;> simp [bind, Except.bind, pure, Except.pure]
    cases piece with
    | char c => simp [hrest [c] rfl, ih]
    | token path =>
      cases hlookup : lookup path root with
      | error fault =>
        have hmisread := lookup_fails_iff.mp ⟨fault, hlookup⟩
        have hfails : fillPieces root (.token path :: cut) = .error fault := by
          rw [fillPieces, fillPiece, hlookup]
          rfl
        exact iff_of_true ⟨fault, hfails⟩ ⟨path, List.mem_cons_self, hmisread⟩
      | ok found =>
        have hread : ¬ Misread root path := by
          rw [← lookup_fails_iff, hlookup]
          simp
        rw [hrest _ (fillPiece_token hlookup), ih]
        constructor
        · rintro ⟨other, hmem, hother⟩
          exact ⟨other, List.mem_cons_of_mem _ hmem, hother⟩
        · rintro ⟨other, hmem, hother⟩
          rcases List.mem_cons.mp hmem with heq | hmem
          · cases heq
            exact absurd hother hread
          · exact ⟨other, hmem, hother⟩

theorem fillPieces_chars (literal : List Char) (cut : List Piece) :
    fillPieces root (literal.map .char ++ cut) = (fillPieces root cut).map (literal ++ ·) := by
  induction literal with
  | nil =>
    show fillPieces root cut = _
    cases fillPieces root cut <;> rfl
  | cons c literal ih =>
    rw [List.map_cons, List.cons_append, fillPieces, ih]
    cases fillPieces root cut <;> rfl

/-! ## Texts -/

theorem fill_token (h : IsPath path) {found : Option Value} (hfound : lookup path root = .ok found)
    (rest : List Char) : fill root ((Piece.token path).source ++ rest) =
      (fill root rest).map (replacement path found ++ ·) := by
  rw [fill, pieces_token h, fillPieces, fillPiece_token hfound, fill]
  cases fillPieces root (pieces rest) <;> rfl

theorem fill_literal (h : IsLiteral literal) (rest : List Char) :
    fill root (literal ++ rest) = (fill root rest).map (literal ++ ·) := by
  rw [fill, pieces_literal h, fill, fillPieces_chars]

/-- Tokens that alternate with literals are each replaced. -/
theorem fill_slots {slots : List Slot} (h : ∀ slot ∈ slots, IsPath slot.path ∧
    IsLiteral slot.after ∧ lookup slot.path root = .ok slot.found) :
    fill root (slots.flatMap Slot.source) = .ok (slots.flatMap Slot.filled) := by
  induction slots with
  | nil => simp [fill, pieces, fillPieces]
  | cons slot slots ih =>
    obtain ⟨⟨hpath, hafter, hfound⟩, hslots⟩ := List.forall_mem_cons.mp h
    rw [List.flatMap_cons, Slot.source, List.append_assoc, fill_token hpath hfound,
      fill_literal hafter, ih hslots, List.flatMap_cons, Slot.filled, List.append_assoc]
    rfl

theorem interpolate_text (root : Fields) (s : List Char) :
    interpolate root (.text (String.ofList s)) =
      (fill root s).map fun filled => .text (String.ofList filled) := by
  rw [interpolate, String.toList_ofList]

/-! ## Filling in one pass -/

/-- In a text of literals and tokens in turn, every token becomes what is found for its path alone,
and the literals stay as they are. -/
theorem tokens_replaced_independently {first : List Char} {slots : List Slot}
    (hfirst : IsLiteral first) (hslots : ∀ slot ∈ slots, IsPath slot.path ∧
      IsLiteral slot.after ∧ lookup slot.path root = .ok slot.found) :
    interpolate root (.text (String.ofList (first ++ slots.flatMap Slot.source))) =
      .ok (.text (String.ofList (first ++ slots.flatMap Slot.filled))) := by
  rw [interpolate_text, fill_literal hfirst, fill_slots hslots]
  rfl

/-- A value holds a token, a path a brace, and a brace that is put in stands before another. -/
theorem inserted_tokens_stay :
    let root : Fields := [(.text "variables",
      .object [(.text "a", .text "\x7b\x7bb\x7d\x7d"), (.text "b", .text "\x7b")])]
    let slots : List Slot := [⟨"a".toList, some (.text "\x7b\x7bb\x7d\x7d"), "\x7d\x7d".toList⟩,
      ⟨"\x7bb".toList, none, []⟩, ⟨" b".toList, some (.text "\x7b"), "\x7bb\x7d\x7d".toList⟩]
    (IsLiteral "x\x7b ".toList ∧ ∀ slot ∈ slots, IsPath slot.path ∧ IsLiteral slot.after ∧
      lookup slot.path root = .ok slot.found) ∧
    interpolate root (.text (String.ofList ("x\x7b ".toList ++ slots.flatMap Slot.source))) =
      .ok (.text "x\x7b \x7b\x7bb\x7d\x7d\x7d\x7d\x7b\x7b\x7bb\x7d\x7d\x7b\x7bb\x7d\x7d") := by
  intro root slots
  have hfirst : IsLiteral "x\x7b ".toList := by decide
  have hslots : ∀ slot ∈ slots, IsPath slot.path ∧ IsLiteral slot.after ∧
      lookup slot.path root = .ok slot.found := by
    simp only [slots, List.forall_mem_cons]
    exact ⟨⟨by decide, by decide, rfl⟩, ⟨by decide, by decide, rfl⟩, ⟨by decide, by decide, rfl⟩,
      nofun⟩
  exact ⟨⟨hfirst, hslots⟩, tokens_replaced_independently hfirst hslots⟩

/-! ## When filling fails -/

/-- A lookup fails if and only if the path is misread. A text can be scanned in one way, and filling
it fails if and only if the path of one of its tokens is misread; in every other text each token
becomes the value that is found for its path, or stays. -/
theorem filling_fails_iff_misread (root : Fields) :
    (∀ path, (∃ fault, lookup path root = .error fault) ↔ Misread root path) ∧
    ∀ s : String, ∃ cut, (∀ other, Scans s.toList other ↔ other = cut) ∧
      ((∃ fault, interpolate root (.text s) = .error fault) ↔
        ∃ path, .token path ∈ cut ∧ Misread root path) ∧
      ((∀ path, .token path ∈ cut → ¬ Misread root path) →
        ∃ parts, List.Forall₂ (Becomes root) cut parts ∧
          interpolate root (.text s) = .ok (.text (String.ofList parts.flatten))) := by
  refine ⟨fun path => lookup_fails_iff, fun s => ⟨pieces s.toList, fun _ => scans_iff, ?_, ?_⟩⟩
  · rw [← fillPieces_fails_iff, interpolate, fill]
    cases fillPieces root (pieces s.toList) <;> simp [Except.map]
  · intro hread
    cases hfill : fillPieces root (pieces s.toList) with
    | error fault =>
      obtain ⟨path, hmem, hmisread⟩ := fillPieces_fails_iff.mp ⟨fault, hfill⟩
      exact absurd hmisread (hread path hmem)
    | ok filled =>
      obtain ⟨parts, hparts, rfl⟩ := fillPieces_eq_ok_iff.mp hfill
      exact ⟨parts, hparts, by rw [interpolate, fill, hfill]; rfl⟩

/-- A superscript two is a digit character and no decimal digit. -/
theorem superscript_index_fails :
    let root : Fields := [(.text "variables", .object [(.text "rows", .list [.int 1])])]
    lookup "rows.\u00b2".toList root = .error (.unreadableIndex "\u00b2") ∧
      interpolate root (.text "\x7b\x7brows.\u00b2\x7d\x7d") =
        .error (.unreadableIndex "\u00b2") := by
  intro root
  have hlookup : lookup "rows.\u00b2".toList root = .error (.unreadableIndex "\u00b2") := rfl
  refine ⟨hlookup, ?_⟩
  cbv

end Stepwise.Template
