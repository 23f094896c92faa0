import Mathlib.Data.List.Forall2
import Mathlib.Tactic.Common
import Stepwise.Proofs.Number.Spelling
import Stepwise.Proofs.Run.Variables
import Stepwise.Proofs.Template.Access
import Stepwise.Proofs.Text.Padding

/-!
# The places that dotted paths name

A place in a value is reached through names of fields and indices of items. A dotted path begins
with the name of a root, or with a variable, and spells a row of places: a field by its name, an
item by its index in decimal. A lookup gives the value that stands there, or nothing where the
path comes to a dead end.
-/

namespace Stepwise

namespace Template

open Json

/-- One level down into a value: to the field of a name, or to the item of an index. -/
inductive Place
  | field (name : String)
  | item (i : Nat)

/-- A value stands at a row of places in another one. -/
inductive Stands : Value → List Place → Value → Prop
  | here (value : Value) : Stands value [] value
  | field {fields : Fields} {name : String} {value found : Value} {places : List Place}
      (h : (.text name, value) ∈ fields) (hrest : Stands value places found) :
      Stands (.object fields) (.field name :: places) found
  | item {items : List Value} {i : Nat} {value found : Value} {places : List Place}
      (h : items[i]? = some value) (hrest : Stands value places found) :
      Stands (.list items) (.item i :: places) found

/-- A text is a number in decimal; zeros may stand in front. -/
structure IsNumeral (segment : List Char) (i : Nat) : Prop where
  ne_nil : segment ≠ []
  digits : ∀ c ∈ segment, c.isDigit = true
  value_eq : Decimal.numberOf segment = i

/-- A segment spells a place: a field by its name, an item by its index in decimal. -/
def IsSpelt (segment : List Char) : Place → Prop
  | .field name => segment = name.toList
  | .item i => IsNumeral segment i

/-- Segments spell places at which a value stands in another one. -/
def Leads (value : Value) (parts : List (List Char)) (found : Value) : Prop :=
  ∃ places, List.Forall₂ IsSpelt parts places ∧ Stands value places found

/-- A segment leads nowhere from a value. -/
inductive DeadEnd : Value → List Char → Prop
  | absent {fields : Fields} {name : String} (h : ∀ value, (.text name, value) ∉ fields) :
      DeadEnd (.object fields) name.toList
  | beyond {items : List Value} {segment : List Char} {i : Nat} (hi : IsNumeral segment i)
      (h : items.length ≤ i) : DeadEnd (.list items) segment
  | notNumeral {items : List Value} {segment : List Char} (h : ∀ i, ¬ IsNumeral segment i) :
      DeadEnd (.list items) segment
  | plain {value : Value} {segment : List Char} (ho : value.kind ≠ .object)
      (hl : value.kind ≠ .list) : DeadEnd value segment

/-- Segments lead from a value to a dead end. -/
def Strays (value : Value) (parts : List (List Char)) : Prop :=
  ∃ before segment after last, parts = before ++ segment :: after ∧
    Leads value before last ∧ DeadEnd last segment

/-- The digit characters of a segment are ASCII digits, and not more than are read. -/
structure Readable (segment : List Char) : Prop where
  ascii : ∀ c ∈ segment, Text.isDigit c = true → c.isDigit = true
  short : segment.countP Text.isDigit ≤ digitLimit

instance (segment : List Char) : Decidable (Readable segment) :=
  decidable_of_iff ((segment.all fun c => !Text.isDigit c || c.isDigit) = true ∧
    segment.countP Text.isDigit ≤ digitLimit)
    ⟨fun h => ⟨by simpa [imp_iff_not_or] using h.1, h.2⟩,
      fun h => ⟨by simpa [imp_iff_not_or] using h.1, h.2⟩⟩

/-- The items and fields of a value are such as JSON can hold, and its fields have distinct names,
be they texts or not. -/
structure Navigable (value : Value) : Prop where
  within : Within value
  apart : ∀ fields, value = .object fields → Fields.Apart fields

end Template

namespace Json

theorem Clean.navigable {value : Value} (h : Clean value) : Template.Navigable value where
  within := h.within
  apart := by
    rintro fields rfl
    exact h.named.apart

end Json

namespace Template

open Json

variable {value next found : Value} {segment : List Char} {parts : List (List Char)}

/-! ## Indices -/

theorem isDigit_of_ascii {c : Char} (h : c.isDigit = true) : Text.isDigit c = true :=
  Text.isDigit_of_isDecimal (by rw [Text.isDecimal, decimalValue?_of_isDigit h]; rfl)

theorem Readable.length_le (h : Readable segment) (hdigits : ∀ c ∈ segment, c.isDigit = true) :
    segment.length ≤ digitLimit := by
  have hall : segment.countP Text.isDigit = segment.length :=
    List.countP_eq_length.mpr fun c hc => isDigit_of_ascii (hdigits c hc)
  exact hall ▸ h.short

/-- Among the segments that can be read, those that spell an index are the decimal numerals. -/
theorem Readable.spells_iff (h : Readable segment) {i : Nat} :
    Spells segment i ↔ IsNumeral segment i := by
  constructor
  · intro hi
    have hascii : ∀ c ∈ segment, c.isDigit = true :=
      fun c hc => h.ascii c hc (hi.looksIndex.digits c hc)
    obtain ⟨digits, hdigits, rfl⟩ := hi.numeral_eq
    refine ⟨hi.ne_nil, hascii, ?_⟩
    have htake := takeDecimals_eq_iff.mpr hdigits
    rw [takeDecimals_eq_iff.mpr (hasDigits_of_ascii hascii)] at htake
    rw [← Decimal.numeral_map_eq, (Prod.mk.inj htake).1]
  · intro hi
    exact ⟨hi.ne_nil, h.length_le hi.digits, _, hasDigits_of_ascii hi.digits,
      (Decimal.numeral_map_eq segment).trans hi.value_eq⟩

/-- What looks like an index and can be read is one. -/
theorem Readable.exists_isNumeral (h : Readable segment) (hlooks : LooksIndex segment) :
    ∃ i, IsNumeral segment i :=
  ⟨_, hlooks.ne_nil, fun c hc => h.ascii c hc (hlooks.digits c hc), rfl⟩

/-! ## Single segments -/

theorem leads_nil_iff : Leads value [] found ↔ value = found := by
  constructor
  · rintro ⟨places, hspelt, hstands⟩
    obtain rfl := List.forall₂_nil_left_iff.mp hspelt
    cases hstands
    rfl
  · rintro rfl
    exact ⟨[], .nil, .here value⟩

theorem leads_object_iff {fields : Fields} : Leads (.object fields) (segment :: parts) found ↔
    ∃ next, (.text (String.ofList segment), next) ∈ fields ∧ Leads next parts found := by
  constructor
  · rintro ⟨_, hspelt, hstands⟩
    obtain ⟨place, places, hfirst, hrest, rfl⟩ := List.forall₂_cons_left_iff.mp hspelt
    cases hstands with
    | field h hstands =>
      obtain rfl : segment = _ := hfirst
      rw [String.ofList_toList]
      exact ⟨_, h, places, hrest, hstands⟩
  · rintro ⟨next, h, places, hrest, hstands⟩
    have hspelt : IsSpelt segment (.field (String.ofList segment)) := String.toList_ofList.symm
    exact ⟨_, .cons hspelt hrest, .field h hstands⟩

theorem leads_list_iff {items : List Value} : Leads (.list items) (segment :: parts) found ↔
    ∃ next, (∃ i, IsNumeral segment i ∧ items[i]? = some next) ∧ Leads next parts found := by
  constructor
  · rintro ⟨_, hspelt, hstands⟩
    obtain ⟨place, places, hfirst, hrest, rfl⟩ := List.forall₂_cons_left_iff.mp hspelt
    cases hstands with
    | item h hstands => exact ⟨_, ⟨_, hfirst, h⟩, places, hrest, hstands⟩
  · rintro ⟨next, ⟨i, hi, h⟩, places, hrest, hstands⟩
    exact ⟨.item i :: places, .cons hi hrest, .item h hstands⟩

theorem not_leads_of_plain (ho : value.kind ≠ .object) (hl : value.kind ≠ .list) :
    ¬ Leads value (segment :: parts) found := by
  rintro ⟨_, hspelt, hstands⟩
  obtain ⟨place, places, -, -, rfl⟩ := List.forall₂_cons_left_iff.mp hspelt
  cases hstands with
  | field => exact ho rfl
  | item => exact hl rfl

/-- Segments lead on from what the first of them leads to. -/
theorem leads_cons_iff : Leads value (segment :: parts) found ↔
    ∃ next, Leads value [segment] next ∧ Leads next parts found := by
  cases value with
  | object fields => simp [leads_object_iff, leads_nil_iff]
  | list items => simp [leads_list_iff, leads_nil_iff]
  | _ =>
    refine iff_of_false (not_leads_of_plain nofun nofun) ?_
    rintro ⟨next, hfirst, -⟩
    exact absurd hfirst (not_leads_of_plain nofun nofun)

theorem deadEnd_object_iff {fields : Fields} : DeadEnd (.object fields) segment ↔
    ∀ value, (.text (String.ofList segment), value) ∉ fields := by
  constructor
  · intro h
    cases h with
    | absent h => rwa [String.ofList_toList]
    | plain ho => exact absurd rfl ho
  · intro h
    rw [← String.toList_ofList (l := segment)]
    exact .absent h

theorem deadEnd_list_iff {items : List Value} : DeadEnd (.list items) segment ↔
    (∃ i, IsNumeral segment i ∧ items.length ≤ i) ∨ ∀ i, ¬ IsNumeral segment i := by
  constructor
  · intro h
    cases h with
    | beyond hi h => exact .inl ⟨_, hi, h⟩
    | notNumeral h => exact .inr h
    | plain _ hl => exact absurd rfl hl
  · rintro (⟨i, hi, h⟩ | h)
    · exact .beyond hi h
    · exact .notNumeral h

/-- A step finds what a segment leads to. -/
theorem step_eq_some_iff_leads (h : Navigable value) (hs : Readable segment) :
    step value segment = .ok (some next) ↔ Leads value [segment] next := by
  cases value with
  | object fields =>
    rw [step_object, Except.ok.injEq, Fields.get?_text_eq_some_iff (h.apart fields rfl),
      leads_object_iff]
    simp [leads_nil_iff]
  | list items =>
    rw [step_eq_some_iff, leads_list_iff]
    simp [hs.spells_iff, leads_nil_iff]
  | _ => exact iff_of_false nofun (not_leads_of_plain nofun nofun)

/-- A step finds nothing at a dead end. -/
theorem step_eq_none_iff (h : Navigable value) (hs : Readable segment) :
    step value segment = .ok none ↔ DeadEnd value segment := by
  cases value with
  | object fields =>
    rw [step_object, Except.ok.injEq, Fields.get?_text_eq_none_iff (h.apart fields rfl),
      deadEnd_object_iff]
  | list items =>
    rw [deadEnd_list_iff]
    by_cases hlooks : LooksIndex segment
    · obtain ⟨i, hi⟩ := hs.exists_isNumeral hlooks
      have hread : readIndex segment = .ok i :=
        (readIndex_eq_ok_iff hi.ne_nil).mpr (hs.spells_iff.mpr hi)
      rw [step_list_of_looksIndex hlooks, hread]
      constructor
      · intro hnone
        exact .inl ⟨i, hi, List.getElem?_eq_none_iff.mp (Except.ok.inj hnone)⟩
      · rintro (⟨j, hj, hlength⟩ | hnone)
        · rw [hi.value_eq.symm.trans hj.value_eq]
          exact congrArg Except.ok (List.getElem?_eq_none_iff.mpr hlength)
        · exact absurd hi (hnone i)
    · have hnone : ∀ i, ¬ IsNumeral segment i :=
        fun i hi => hlooks (hs.spells_iff.mpr hi).looksIndex
      exact iff_of_true (step_list_of_not_looksIndex hlooks items) (.inr hnone)
  | _ => exact iff_of_true rfl (.plain nofun nofun)

/-! ## Walks -/

theorem Navigable.step (h : Navigable value) (hstep : step value segment = .ok (some next)) :
    Navigable next := (clean_step h.within hstep).navigable

theorem walk_cons_eq_some_iff : walk value (segment :: parts) = .ok (some found) ↔
    ∃ next, step value segment = .ok (some next) ∧ walk next parts = .ok (some found) := by
  rw [walk_eq_some_iff, reaches_cons_iff]
  simp only [walk_eq_some_iff]

theorem walk_cons_eq_none_iff : walk value (segment :: parts) = .ok none ↔
    step value segment = .ok none ∨
      ∃ next, step value segment = .ok (some next) ∧ walk next parts = .ok none := by
  rw [walk]
  cases step value segment with
  | error fault => simp [bind, Except.bind]
  | ok next? => cases next? <;> simp [bind, Except.bind, pure, Except.pure]

theorem strays_cons_iff : Strays value (segment :: parts) ↔
    DeadEnd value segment ∨ ∃ next, Leads value [segment] next ∧ Strays next parts := by
  constructor
  · rintro ⟨before, bad, after, last, hparts, hleads, hend⟩
    cases before with
    | nil =>
      obtain ⟨rfl, rfl⟩ : segment = bad ∧ parts = after := by simpa using hparts
      exact .inl (leads_nil_iff.mp hleads ▸ hend)
    | cons first before =>
      obtain ⟨rfl, rfl⟩ : segment = first ∧ parts = before ++ bad :: after := by
        simpa using hparts
      obtain ⟨next, hfirst, hrest⟩ := leads_cons_iff.mp hleads
      exact .inr ⟨next, hfirst, before, bad, after, last, rfl, hrest, hend⟩
  · rintro (hend | ⟨next, hfirst, before, bad, after, last, rfl, hrest, hend⟩)
    · exact ⟨[], segment, parts, value, rfl, leads_nil_iff.mpr rfl, hend⟩
    · exact ⟨segment :: before, bad, after, last, rfl, leads_cons_iff.mpr ⟨next, hfirst, hrest⟩,
        hend⟩

/-- A walk finds what stands at the places that are spelled. -/
theorem walk_eq_some_iff_leads (h : Navigable value) (hs : ∀ s ∈ parts, Readable s) :
    walk value parts = .ok (some found) ↔ Leads value parts found := by
  induction parts generalizing value with
  | nil => simp [walk, leads_nil_iff]
  | cons segment parts ih =>
    obtain ⟨hfirst, hrest⟩ := List.forall_mem_cons.mp hs
    rw [walk_cons_eq_some_iff, leads_cons_iff]
    refine exists_congr fun next => ?_
    rw [← step_eq_some_iff_leads h hfirst]
    exact and_congr_right fun hstep => ih (h.step hstep) hrest

/-- A walk finds nothing where the segments stray. -/
theorem walk_eq_none_iff (h : Navigable value) (hs : ∀ s ∈ parts, Readable s) :
    walk value parts = .ok none ↔ Strays value parts := by
  induction parts generalizing value with
  | nil => simp [walk, Strays]
  | cons segment parts ih =>
    obtain ⟨hfirst, hrest⟩ := List.forall_mem_cons.mp hs
    rw [walk_cons_eq_none_iff, strays_cons_iff, step_eq_none_iff h hfirst]
    refine or_congr_right (exists_congr fun next => ?_)
    rw [← step_eq_some_iff_leads h hfirst]
    exact and_congr_right fun hstep => ih (h.step hstep) hrest

/-! ## Paths -/

theorem splitOn_eq (separator : Char) (s : List Char) :
    splitOn separator s = s.splitOn separator := by
  induction s with
  | nil => rfl
  | cons c rest ih =>
    rw [splitOn, ih, List.splitOn_cons_eq_if_modifyHead]
    by_cases hc : c = separator
    · simp [hc]
    · cases hsplit : rest.splitOn separator with
      | nil => exact absurd hsplit (List.splitOn_ne_nil _ _)
      | cons part parts => simp [hc]

/-- The segments of a path, whatever blanks are around it. -/
theorem segments_padded {before path after : List Char} (hb : Text.AllBlank before)
    (ha : Text.AllBlank after) (hp : Text.Unpadded path) :
    segments (before ++ path ++ after) = path.splitOn '.' := by
  rw [segments, Text.trim_padded hb ha hp, splitOn_eq]

theorem segments_unpadded {path : List Char} (hp : Text.Unpadded path) :
    segments path = path.splitOn '.' := by
  rw [segments, hp.trim_eq, splitOn_eq]

/-- A lookup depends on the segments of the path alone. -/
theorem lookup_congr {path other : List Char} {root : Fields}
    (h : segments path = segments other) :
    lookup path root = lookup other root := by
  rw [lookup, lookup, h]

variable {root vars : Fields} {path : List Char} {name : String}

/-- A path that begins with the name of a root goes on from there. -/
theorem lookup_of_root (hpath : segments path = name.toList :: parts)
    (hroot : root.get? (.text name) = some value) : lookup path root = walk value parts := by
  simp [lookup, hpath, hroot, walk, step_object, bind, Except.bind]

/-- Every other path begins at the variables. -/
theorem lookup_of_variables
    (hpath : root.get? (.text (String.ofList ((segments path).headD []))) = none)
    (hvars : root.get? (.text "variables") = some (.object vars)) :
    lookup path root = walk (.object vars) (segments path) := by
  have hbegins : Begins root path (.object vars) := .variables hpath hvars
  obtain ⟨start, hstart, hlookup⟩ | ⟨hnone, -⟩ := lookup_cases path root
  · rw [hlookup, hstart.unique hbegins]
  · exact absurd hbegins (hnone _)

/-- A path of segments that can be read is not misread. -/
theorem exists_lookup_of_readable (h : ∀ s ∈ segments path, Readable s) (root : Fields) :
    ∃ found?, lookup path root = .ok found? := by
  cases hlookup : lookup path root with
  | ok found? => exact ⟨found?, rfl⟩
  | error fault =>
    obtain ⟨_, before, segment, after, _, _, hpath, _, hmisspelt⟩ :=
      lookup_fails_iff.mp ⟨fault, hlookup⟩
    have hs : Readable segment := h segment (by rw [hpath]; simp)
    obtain ⟨i, hi⟩ := hs.exists_isNumeral hmisspelt.1
    exact absurd (hs.spells_iff.mpr hi) (hmisspelt.2 i)

/-! ## Paths in a run -/

variable {c : Run.Context}

theorem apart_root (c : Run.Context) : Fields.Apart c.root := by
  simp [Fields.Apart, Run.Context.root]

theorem get?_root_eq_some_iff : c.root.get? (.text name) = some value ↔
    (.text name, value) ∈ c.root := Fields.get?_text_eq_some_iff (apart_root c)

theorem mem_root_iff : (.text name, value) ∈ c.root ↔ name = "input" ∧ value = c.input ∨
    name = "variables" ∧ value = .object c.vars ∨ name = "logs" ∧ value = Run.logValue c.log := by
  simp [Run.Context.root]

theorem navigable_of_mem_root (hc : c.Sound) (h : (.text name, value) ∈ c.root) :
    Navigable value := by
  obtain ⟨-, rfl⟩ | ⟨-, rfl⟩ | ⟨-, rfl⟩ := mem_root_iff.mp h
  · exact hc.input.navigable
  · refine ⟨hc.root _ h, ?_⟩
    rintro fields ⟨⟩
    exact hc.apart
  · exact (Run.clean_logValue c.log).navigable

theorem unpadded_variable (hp : Text.Unpadded path) :
    Text.Unpadded ("variables.".toList ++ path) where
  first := by
    rintro c ⟨⟩
    rfl
  last := by
    rw [List.getLast?_append]
    cases hlast : path.getLast? with
    | some c => exact fun d hd => hp.last d (hlast.trans hd)
    | none =>
      rintro c ⟨⟩
      rfl

theorem splitOn_variable (path : List Char) :
    ("variables.".toList ++ path).splitOn '.' = "variables".toList :: path.splitOn '.' := by
  have hname : '.' ∉ "variables".toList := by decide
  exact List.splitOn_append_cons_self_of_not_mem hname path

/-- A dotted path in a run is looked up without a fault, and blanks around it do not matter. If it
begins with the name of a root, it gives the value that its other segments spell the place of in
that root, and nothing if they stray there; other variables make no difference, unless the root is
that of the variables. Every other path stands for the same path within the variables. -/
theorem dotted_paths_lead_to_values (hc : c.Sound) (hp : Text.Unpadded path)
    (hs : ∀ s ∈ path.splitOn '.', Readable s) :
    (∃ found?, lookup path c.root = .ok found?) ∧
    (∀ before after, Text.AllBlank before → Text.AllBlank after →
      lookup (before ++ path ++ after) c.root = lookup path c.root) ∧
    (∀ name value parts, (.text name, value) ∈ c.root → path.splitOn '.' = name.toList :: parts →
      (∀ found, lookup path c.root = .ok (some found) ↔ Leads value parts found) ∧
      (lookup path c.root = .ok none ↔ Strays value parts) ∧
      (name ≠ "variables" →
        ∀ vars, lookup path { c with vars }.root = lookup path c.root)) ∧
    ((∀ name value, (.text name, value) ∈ c.root → (path.splitOn '.').head? ≠ some name.toList) →
      lookup path c.root = lookup ("variables.".toList ++ path) c.root) := by
  have hsegments : segments path = path.splitOn '.' := segments_unpadded hp
  refine ⟨exists_lookup_of_readable (hsegments ▸ hs) c.root, ?_, ?_, ?_⟩
  · intro before after hb ha
    exact lookup_congr ((segments_padded hb ha hp).trans hsegments.symm)
  · intro name value parts hroot hpath
    have hfrom (c : Run.Context) (hroot : (.text name, value) ∈ c.root) :
        lookup path c.root = walk value parts :=
      lookup_of_root (hsegments.trans hpath) (get?_root_eq_some_iff.mpr hroot)
    have hnav := navigable_of_mem_root hc hroot
    have hparts : ∀ s ∈ parts, Readable s :=
      fun s hmem => hs s (hpath ▸ List.mem_cons_of_mem _ hmem)
    rw [hfrom c hroot]
    refine ⟨fun found => walk_eq_some_iff_leads hnav hparts, walk_eq_none_iff hnav hparts, ?_⟩
    intro hname vars
    refine hfrom { c with vars } (mem_root_iff.mpr ?_)
    obtain h | ⟨h, -⟩ | h := mem_root_iff.mp hroot
    · exact .inl h
    · exact absurd h hname
    · exact .inr (.inr h)
  · intro hother
    have hvars : c.root.get? (.text "variables") = some (.object c.vars) := rfl
    have hnone : c.root.get? (.text (String.ofList ((segments path).headD []))) = none := by
      obtain ⟨first, rest, hpath⟩ := exists_segments path
      rw [Option.eq_none_iff_forall_ne_some]
      intro value hvalue
      refine hother _ value (get?_root_eq_some_iff.mp hvalue) ?_
      rw [← hsegments, hpath, String.toList_ofList]
      rfl
    have hinside :
        segments ("variables.".toList ++ path) = "variables".toList :: segments path := by
      rw [segments_unpadded (unpadded_variable hp), splitOn_variable, hsegments]
    rw [lookup_of_variables hnone hvars, lookup_of_root hinside hvars]

/-- An index with a zero in front, a field whose name looks like one, and a variable that is called
like a root. -/
theorem item_of_input_found :
    let item : Fields := [(.text "1", .null), (.text "0", .text "x")]
    let c : Run.Context := ⟨.object [(.text "rows", .list [.null, .object item])],
      [(.text "input", .int 5), (.int 7, .bool true)], []⟩
    let path := "input.rows.01.0".toList
    (c.Sound ∧ Text.Unpadded path ∧ ∀ s ∈ path.splitOn '.', Readable s) ∧
      lookup path c.root = .ok (some (.text "x")) := by
  intro item c path
  have hitem : Clean (.object item) := by
    refine .object ((Fields.named_nil.cons nofun).cons (by simp)) ?_
    simp [item, Proper.null, Proper.text]
  have hinput : Clean c.input := by
    refine .object (Fields.named_nil.cons nofun) ?_
    simpa using Proper.list (by simp [Proper.null, hitem])
  have hvars : Fields.Apart c.vars := List.pairwise_pair.mpr rfl
  have hc : c.Sound := ⟨hinput, by simp [c, Proper.int, Proper.bool], hvars⟩
  have hp : Text.Unpadded path := by decide
  have hs : ∀ s ∈ path.splitOn '.', Readable s := by decide
  have hpath : path.splitOn '.' = "input".toList :: ["rows".toList, "01".toList, "0".toList] := by
    decide
  have hsecond : IsNumeral "01".toList 1 := ⟨by decide, List.all_eq_true.mp (by decide), by decide⟩
  have hleads : Leads c.input ["rows".toList, "01".toList, "0".toList] (.text "x") :=
    ⟨[.field "rows", .item 1, .field "0"], .cons rfl (.cons hsecond (.cons rfl .nil)),
      .field (.head _) (.item rfl (.field (.tail _ (.head _)) (.here _)))⟩
  have hroot : (.text "input", c.input) ∈ c.root := .head _
  have hlookup := ((dotted_paths_lead_to_values hc hp hs).2.2.1 _ _ _ hroot hpath).1 (.text "x")
  exact ⟨⟨hc, hp, hs⟩, hlookup.mpr hleads⟩

end Template

end Stepwise
