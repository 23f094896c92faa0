import Mathlib.Data.List.Forall2
import Mathlib.Tactic.Common
import Stepwise.Proofs.Template.Findings

/-!
# Where paths lead

Segments lead from a value into it: through objects by the names of fields and through lists by
decimal indices. A walk finds what they lead to. It fails only where it comes to a list with a
segment of digit characters that spells no index, be it for a digit that is not decimal or for its
length.
-/

namespace Stepwise.Template

/-- A segment is taken for an index of a list. -/
structure LooksIndex (segment : List Char) : Prop where
  ne_nil : segment ≠ []
  digits : ∀ c ∈ segment, Text.isDigit c = true

/-- The decimal digits that a segment is made of, by value. -/
def HasDigits (segment : List Char) (digits : List Nat) : Prop :=
  List.Forall₂ (fun c digit => Text.decimalValue? c = some digit) segment digits

/-- A segment spells an index of a list, in the decimal digits of any script. -/
structure Spells (segment : List Char) (i : Nat) : Prop where
  ne_nil : segment ≠ []
  length_le : segment.length ≤ digitLimit
  numeral_eq : ∃ digits, HasDigits segment digits ∧ Text.numeral digits = i

/-- A segment is taken for an index and spells none. -/
def Misspelt (segment : List Char) : Prop := LooksIndex segment ∧ ∀ i, ¬ Spells segment i

/-- Segments lead from a value to one within it. -/
inductive Reaches : Value → List (List Char) → Value → Prop
  | here (value : Value) : Reaches value [] value
  | field {fields : Fields} {name : List Char} {value found : Value} {rest : List (List Char)}
      (h : fields.get? (.text (String.ofList name)) = some value)
      (hrest : Reaches value rest found) : Reaches (.object fields) (name :: rest) found
  | item {items : List Value} {segment : List Char} {i : Nat} {value found : Value}
      {rest : List (List Char)} (hi : Spells segment i) (h : items[i]? = some value)
      (hrest : Reaches value rest found) : Reaches (.list items) (segment :: rest) found

/-- Where a path begins: at the root if it has a field of the name that comes first, else at the
variables. -/
inductive Begins (root : Fields) (path : List Char) : Value → Prop
  | root (h : (root.get? (.text (String.ofList ((segments path).headD [])))).isSome = true) :
      Begins root path (.object root)
  | variables {vars : Fields}
      (h : root.get? (.text (String.ofList ((segments path).headD []))) = none)
      (hvars : root.get? (.text "variables") = some (.object vars)) :
      Begins root path (.object vars)

/-- A path comes to a list with a segment that is misspelt. -/
def Misread (root : Fields) (path : List Char) : Prop :=
  ∃ start before segment after items, Begins root path start ∧
    segments path = before ++ segment :: after ∧ Reaches start before (.list items) ∧
    Misspelt segment

variable {root : Fields} {path segment : List Char} {value found : Value}

/-! ## Indices -/

/-- The value of an ASCII digit is read off its code. -/
theorem decimalValue?_of_isDigit {c : Char} (h : c.isDigit = true) :
    Text.decimalValue? c = some (c.toNat - '0'.toNat) := by
  have hrange : 48 ≤ c.val ∧ c.val ≤ 57 := by simpa [Char.isDigit] using h
  have hlow : 48 ≤ c.toNat := UInt32.le_iff_toNat_le.mp hrange.1
  have hhigh : c.toNat < 48 + 10 := Nat.lt_succ_of_le (UInt32.le_iff_toNat_le.mp hrange.2)
  have hfirst : Text.zeros.find? (fun start => decide (start ≤ c.toNat ∧ c.toNat < start + 10)) =
      some 48 := List.find?_cons_of_pos (decide_eq_true ⟨hlow, hhigh⟩)
  rw [Text.decimalValue?, hfirst]
  rfl

/-- The digits of an ASCII numeral are told by their codes. -/
theorem hasDigits_of_ascii (h : ∀ c ∈ segment, c.isDigit = true) :
    HasDigits segment (segment.map fun c => c.toNat - '0'.toNat) := by
  rw [HasDigits, List.forall₂_map_right_iff, List.forall₂_same]
  exact fun c hc => decimalValue?_of_isDigit (h c hc)

theorem takeDecimals_eq_iff {digits : List Nat} :
    Text.takeDecimals segment = (digits, []) ↔ HasDigits segment digits := by
  unfold HasDigits
  induction segment generalizing digits with
  | nil => simp [Text.takeDecimals, eq_comm]
  | cons c rest ih =>
    rw [Text.takeDecimals, List.forall₂_cons_left_iff]
    cases hdigit : Text.decimalValue? c with
    | none => simp
    | some digit =>
      constructor
      · intro h
        obtain ⟨rfl, hrest⟩ := Prod.mk.inj h
        exact ⟨digit, _, rfl, ih.mp (Prod.ext rfl hrest), rfl⟩
      · rintro ⟨digit', others, hdigit', hothers, rfl⟩
        obtain rfl : digit = digit' := by simpa using hdigit'
        simp [ih.mpr hothers]

theorem HasDigits.isDigit {digits : List Nat} (h : HasDigits segment digits) :
    ∀ c ∈ segment, Text.isDigit c = true := by
  induction h with
  | nil => simp
  | cons hdigit _ ih =>
    intro c hc
    rcases List.mem_cons.mp hc with rfl | hc
    · simp [Text.isDigit, Text.isDecimal, hdigit]
    · exact ih c hc

theorem Spells.looksIndex {i : Nat} (h : Spells segment i) : LooksIndex segment := by
  obtain ⟨digits, hdigits, _⟩ := h.numeral_eq
  exact ⟨h.ne_nil, hdigits.isDigit⟩

theorem readIndex_eq_ok_iff (hne : segment ≠ []) {i : Nat} :
    readIndex segment = .ok i ↔ Spells segment i := by
  cases htake : Text.takeDecimals segment with
  | mk digits rest =>
    simp only [readIndex, htake]
    constructor
    · intro h
      split_ifs at h with hlong hrest
      obtain rfl := List.isEmpty_iff.mp hrest
      have hdigits := takeDecimals_eq_iff.mp htake
      have hlength : segment.length = digits.length := hdigits.length_eq
      exact ⟨hne, by omega, digits, hdigits, Except.ok.inj h⟩
    · rintro ⟨_, hlength, digits', hdigits, rfl⟩
      have hlength' : segment.length = digits'.length := hdigits.length_eq
      obtain ⟨rfl, rfl⟩ := Prod.mk.inj (htake.symm.trans (takeDecimals_eq_iff.mpr hdigits))
      have hshort : ¬ digitLimit < digits.length := by omega
      simp [hshort]

theorem misspelt_of_readIndex (h : LooksIndex segment) {fault : Fault}
    (hread : readIndex segment = .error fault) : Misspelt segment := by
  refine ⟨h, fun i hi => ?_⟩
  rw [(readIndex_eq_ok_iff h.ne_nil).mpr hi] at hread
  cases hread

/-! ## Single segments -/

theorem step_object (fields : Fields) (name : List Char) :
    step (.object fields) name = .ok (fields.get? (.text (String.ofList name))) := rfl

theorem step_list_of_looksIndex (h : LooksIndex segment) (items : List Value) :
    step (.list items) segment = (readIndex segment).map (items[·]?) := by
  have hdigits : segment.all Text.isDigit = true := List.all_eq_true.mpr h.digits
  simp [step, h.ne_nil, hdigits]

theorem step_list_of_not_looksIndex (h : ¬ LooksIndex segment) (items : List Value) :
    step (.list items) segment = .ok none := by
  have hother : (segment.isEmpty || !segment.all Text.isDigit) = true := by
    by_contra hindex
    simp only [Bool.or_eq_true, not_or, Bool.not_eq_true', Bool.not_eq_false,
      List.isEmpty_iff, List.all_eq_true] at hindex
    exact h ⟨hindex.1, hindex.2⟩
  simp only [step, hother, if_true]

/-- A step leads somewhere by the name of a field or by an index. -/
theorem step_eq_some_iff {next : Value} : step value segment = .ok (some next) ↔
    (∃ fields, value = .object fields ∧
      Fields.get? fields (.text (String.ofList segment)) = some next) ∨
      ∃ items i, value = .list items ∧ Spells segment i ∧ items[i]? = some next := by
  cases value with
  | object fields => simp [step_object]
  | list items =>
    by_cases hlooks : LooksIndex segment
    · rw [step_list_of_looksIndex hlooks]
      cases hread : readIndex segment with
      | error fault => simp [Except.map, (misspelt_of_readIndex hlooks hread).2]
      | ok i =>
        have hi := (readIndex_eq_ok_iff hlooks.ne_nil).mp hread
        constructor
        · intro h
          exact .inr ⟨items, i, rfl, hi, by simpa [Except.map] using h⟩
        · rintro (⟨_, h, _⟩ | ⟨_, j, h, hj, hnext⟩)
          · cases h
          · cases h
            have hij := (readIndex_eq_ok_iff hlooks.ne_nil).mpr hj
            obtain rfl : i = j := by simpa [hread] using hij
            simpa [Except.map] using hnext
    · have hnone : ∀ i, ¬ Spells segment i := fun i hi => hlooks hi.looksIndex
      simp [step_list_of_not_looksIndex hlooks, hnone]
  | _ => simp [step]

/-- A step fails only from a list, by a segment that is misspelt. -/
theorem step_fails_iff : (∃ fault, step value segment = .error fault) ↔
    ∃ items, value = .list items ∧ Misspelt segment := by
  cases value with
  | list items =>
    by_cases hlooks : LooksIndex segment
    · rw [step_list_of_looksIndex hlooks]
      cases hread : readIndex segment with
      | error fault => simp [Except.map, misspelt_of_readIndex hlooks hread]
      | ok i =>
        have hi := (readIndex_eq_ok_iff hlooks.ne_nil).mp hread
        have hnot : ¬ Misspelt segment := fun h => h.2 i hi
        simp [Except.map, hnot]
    · have hnot : ¬ Misspelt segment := fun h => hlooks h.1
      simp [step_list_of_not_looksIndex hlooks, hnot]
  | _ => simp [step]

/-! ## Walks -/

theorem reaches_cons_iff {rest : List (List Char)} : Reaches value (segment :: rest) found ↔
    ∃ next, step value segment = .ok (some next) ∧ Reaches next rest found := by
  constructor
  · intro h
    cases h with
    | field h hrest => exact ⟨_, step_eq_some_iff.mpr (.inl ⟨_, rfl, h⟩), hrest⟩
    | item hi h hrest => exact ⟨_, step_eq_some_iff.mpr (.inr ⟨_, _, rfl, hi, h⟩), hrest⟩
  · rintro ⟨next, hstep, hrest⟩
    obtain ⟨fields, rfl, h⟩ | ⟨items, i, rfl, hi, h⟩ := step_eq_some_iff.mp hstep
    · exact .field h hrest
    · exact .item hi h hrest

/-- A walk finds what the segments lead to. -/
theorem walk_eq_some_iff {path : List (List Char)} :
    walk value path = .ok (some found) ↔ Reaches value path found := by
  induction path generalizing value with
  | nil =>
    constructor
    · intro h
      obtain rfl : value = found := by simpa [walk] using h
      exact .here value
    · rintro ⟨⟩
      rfl
  | cons segment rest ih =>
    rw [reaches_cons_iff]
    constructor
    · intro h
      obtain ⟨next, hnext, hrest⟩ := Except.ok_of_bind h
      cases next with
      | none => cases hrest
      | some next => exact ⟨next, hnext, ih.mp hrest⟩
    · rintro ⟨next, hnext, hrest⟩
      rw [walk, hnext]
      exact ih.mpr hrest

/-- A walk fails where it comes to a list with a segment that is misspelt. -/
theorem walk_fails_iff {path : List (List Char)} : (∃ fault, walk value path = .error fault) ↔
    ∃ before segment after items, path = before ++ segment :: after ∧
      Reaches value before (.list items) ∧ Misspelt segment := by
  induction path generalizing value with
  | nil => simp [walk]
  | cons segment rest ih =>
    constructor
    · rintro ⟨fault, h⟩
      cases hstep : step value segment with
      | error fault' =>
        obtain ⟨items, rfl, hmisspelt⟩ := step_fails_iff.mp ⟨fault', hstep⟩
        exact ⟨[], segment, rest, items, rfl, .here _, hmisspelt⟩
      | ok next =>
        rw [walk, hstep] at h
        cases next with
        | none => cases h
        | some next =>
          obtain ⟨before, bad, after, items, rfl, hreach, hmisspelt⟩ := ih.mp ⟨fault, h⟩
          exact ⟨segment :: before, bad, after, items, rfl,
            reaches_cons_iff.mpr ⟨next, hstep, hreach⟩, hmisspelt⟩
    · rintro ⟨before, bad, after, items, hpath, hreach, hmisspelt⟩
      cases before with
      | nil =>
        obtain ⟨rfl, rfl⟩ : segment = bad ∧ rest = after := by simpa using hpath
        cases hreach
        obtain ⟨fault, hfault⟩ := step_fails_iff.mpr ⟨items, rfl, hmisspelt⟩
        exact ⟨fault, by rw [walk, hfault]; rfl⟩
      | cons first before =>
        obtain ⟨rfl, rfl⟩ : segment = first ∧ rest = before ++ bad :: after := by
          simpa using hpath
        obtain ⟨next, hnext, hreach⟩ := reaches_cons_iff.mp hreach
        rw [walk, hnext]
        exact ih.mpr ⟨before, bad, after, items, rfl, hreach, hmisspelt⟩

/-! ## Lookups -/

/-- A lookup walks from where the path begins, if it begins anywhere. -/
theorem lookup_cases (path : List Char) (root : Fields) :
    (∃ start, Begins root path start ∧ lookup path root = walk start (segments path)) ∨
      (∀ start, ¬ Begins root path start) ∧ lookup path root = .ok none := by
  by_cases hroot : (root.get? (.text (String.ofList ((segments path).headD [])))).isSome = true
  · exact .inl ⟨.object root, .root hroot, by simp only [lookup, hroot, if_true]⟩
  · have hnone : root.get? (.text (String.ofList ((segments path).headD []))) = none := by
      simpa using hroot
    by_cases hvars : ∃ vars, root.get? (.text "variables") = some (.object vars)
    · obtain ⟨vars, hvars⟩ := hvars
      have hlookup : lookup path root = walk (.object vars) (segments path) := by
        simp only [lookup, hroot, hvars, Bool.false_eq_true, if_false]
      exact .inl ⟨.object vars, .variables hnone hvars, hlookup⟩
    · refine .inr ⟨?_, ?_⟩
      · rintro _ (h | ⟨_, h⟩)
        · exact hroot h
        · exact hvars ⟨_, h⟩
      · simp only [lookup, hroot, Bool.false_eq_true, if_false]
        split
        · next vars h => exact absurd ⟨vars, h⟩ hvars
        · rfl

theorem Begins.unique {start start' : Value} (h : Begins root path start)
    (h' : Begins root path start') : start = start' := by
  cases h <;> cases h' <;> simp_all

/-- A lookup fails if and only if the path is misread. -/
theorem lookup_fails_iff : (∃ fault, lookup path root = .error fault) ↔ Misread root path := by
  obtain ⟨start, hstart, hlookup⟩ | ⟨hnone, hlookup⟩ := lookup_cases path root
  · rw [hlookup, walk_fails_iff]
    constructor
    · rintro ⟨before, segment, after, items, hpath, hreach, hmisspelt⟩
      exact ⟨start, before, segment, after, items, hstart, hpath, hreach, hmisspelt⟩
    · rintro ⟨start', before, segment, after, items, hstart', hpath, hreach, hmisspelt⟩
      obtain rfl := hstart.unique hstart'
      exact ⟨before, segment, after, items, hpath, hreach, hmisspelt⟩
  · rw [hlookup]
    constructor
    · rintro ⟨fault, h⟩
      cases h
    · rintro ⟨start, _, _, _, _, hstart, _⟩
      exact absurd hstart (hnone start)

end Stepwise.Template
