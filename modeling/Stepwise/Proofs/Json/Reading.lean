import Stepwise.Proofs.Json.Document
import Stepwise.Proofs.Json.Proper
import Stepwise.Proofs.Json.Strings

/-!
# Documents are read as they are written

The text that `JSON.stringify` gives of a document is read as its value. Each part is
read up to where it ends, whatever follows it: a string at its closing quote, a number where a comma
or a bracket comes next, a list or an object at its bracket. The fuel of the reader is enough, since
no part needs more than twice its length.
-/

namespace Stepwise.Json

namespace Document

theorem skipBlank_of_head {c : Char} (rest : List Char) (offset : ℕ) (h : isBlank c = false) :
    Cursor.skipBlank ⟨c :: rest, offset⟩ = ⟨c :: rest, offset⟩ := by
  simp [Cursor.skipBlank, Cursor.advance, h]

/-- A character that the text of a value can begin with. -/
def isFirst (c : Char) : Bool :=
  isDigit c || c = '-' || c = 'n' || c = 't' || c = 'f' || c = '"' || c = '[' || c = '\x7b'

theorem exists_number_eq_cons (d : Decimal) :
    ∃ c rest, d.stringify = c :: rest ∧
      (isDigit c = true ∨ c = '-' ∧ ∃ c' rest', rest = c' :: rest' ∧ isDigit c' = true) := by
  obtain ⟨c, rest, htext, hdigit⟩ :=
    Spelling.exists_text_eq_cons (Layout.sound_spelling Layout.stringify d)
  rw [Decimal.stringify_eq, Layout.numeral, Layout.magnitude_eq_text, htext]
  cases d.negative with
  | false => exact ⟨c, rest, rfl, .inl hdigit⟩
  | true => exact ⟨'-', c :: rest, rfl, .inr ⟨rfl, c, rest, rfl, hdigit⟩⟩

theorem exists_stringify_eq_cons (doc : Document) :
    ∃ c rest, doc.stringify = c :: rest ∧ isFirst c = true := by
  unfold stringify
  cases doc with
  | null => exact ⟨'n', _, rfl, rfl⟩
  | bool b =>
    cases b with
    | true => exact ⟨'t', _, rfl, rfl⟩
    | false => exact ⟨'f', _, rfl, rfl⟩
  | number d =>
    obtain ⟨c, rest, hnumeral, hdigit | ⟨rfl, _⟩⟩ := exists_number_eq_cons d
    · exact ⟨c, rest, hnumeral, by simp [isFirst, hdigit]⟩
    · exact ⟨'-', rest, hnumeral, rfl⟩
  | text s => exact ⟨'"', _, rfl, rfl⟩
  | list items => exact ⟨'[', _, rfl, rfl⟩
  | object fields => exact ⟨'\x7b', _, rfl, rfl⟩

theorem ne_of_isFirst {c : Char} (h : isFirst c = true) :
    isBlank c = false ∧ c ≠ ']' ∧ c ≠ '\x7d' := by
  refine ⟨?_, ?_, ?_⟩
  · by_contra hblank
    simp only [isBlank, Bool.not_eq_false, Bool.or_eq_true, decide_eq_true_eq] at hblank
    obtain ((rfl | rfl) | rfl) | rfl := hblank
    · cases h
    · cases h
    · cases h
    · cases h
  · rintro rfl
    cases h
  · rintro rfl
    cases h

theorem isPrefixOf_of_ne {a c : Char} (h : a ≠ c) (word rest : List Char) :
    (a :: word).isPrefixOf (c :: rest) = false := by
  rw [List.isPrefixOf_cons_cons, beq_false_of_ne h, Bool.false_and]

/-- A text that begins with a digit, or with a minus and a digit, is no word of fixed spelling. -/
theorem readWord_of_number {c : Char} {rest : List Char} (offset : ℕ)
    (h : isDigit c = true ∨ c = '-' ∧ ∃ c' rest', rest = c' :: rest' ∧ isDigit c' = true) :
    readWord ⟨c :: rest, offset⟩ = readNumber ⟨c :: rest, offset⟩ := by
  have hletter {a : Char} (ha : isDigit a = false) (hminus : a ≠ '-') (word : List Char) :
      (a :: word).isPrefixOf (c :: rest) = false := by
    apply isPrefixOf_of_ne
    rintro rfl
    obtain hdigit | ⟨hc, _⟩ := h
    · rw [ha] at hdigit
      cases hdigit
    · exact hminus hc
  have hnull : "null".toList.isPrefixOf (c :: rest) = false := hletter rfl (by decide) _
  have htrue : "true".toList.isPrefixOf (c :: rest) = false := hletter rfl (by decide) _
  have hfalse : "false".toList.isPrefixOf (c :: rest) = false := hletter rfl (by decide) _
  have hnan : "NaN".toList.isPrefixOf (c :: rest) = false := hletter rfl (by decide) _
  have hinfinity : "Infinity".toList.isPrefixOf (c :: rest) = false := hletter rfl (by decide) _
  -- The last word has the minus in common with a number, but no digit comes after it.
  have hminus : "-Infinity".toList.isPrefixOf (c :: rest) = false := by
    obtain hdigit | ⟨rfl, c', rest', rfl, hdigit⟩ := h
    · apply isPrefixOf_of_ne
      rintro rfl
      cases hdigit
    · show ('-' :: 'I' :: "nfinity".toList).isPrefixOf ('-' :: c' :: rest') = false
      rw [List.isPrefixOf_cons_cons, isPrefixOf_of_ne, Bool.and_false]
      rintro rfl
      cases hdigit
  simp only [readWord, List.find?_cons, hnull, htrue, hfalse, hnan, hinfinity, hminus,
    List.find?_nil]

/-- A text is read as a value, whatever follows it and whatever fuel is left over. -/
def Reads (text : List Char) (value : Value) : Prop :=
  ∀ fuel offset rest, 2 * text.length ≤ fuel → Closed rest →
    readValue fuel ⟨text ++ rest, offset⟩ = .ok (value, ⟨rest, offset + text.length⟩)

theorem readValue_word {fuel offset : ℕ} {c : Char} {rest : List Char} (hquote : c ≠ '"')
    (hbracket : c ≠ '[') (hbrace : c ≠ '\x7b') :
    readValue (fuel + 1) ⟨c :: rest, offset⟩ = readWord ⟨c :: rest, offset⟩ := by
  rw [readValue]
  split
  · rename_i after hafter
    exact absurd (List.cons.inj hafter).1 hquote
  · rename_i after hafter
    exact absurd (List.cons.inj hafter).1 hbracket
  · rename_i after hafter
    exact absurd (List.cons.inj hafter).1 hbrace
  · rfl

theorem reads_null : Reads (Document.null).stringify .null := by
  intro fuel offset rest hfuel _
  cases fuel with
  | zero => cases hfuel
  | succ fuel => rfl

theorem reads_bool (b : Bool) : Reads (Document.bool b).stringify (.bool b) := by
  intro fuel offset rest hfuel _
  cases fuel with
  | zero => cases b <;> cases hfuel
  | succ fuel => cases b <;> rfl

theorem reads_number {d : Decimal} (h : d.Spelt) : Reads (Document.number d).stringify d.read := by
  intro fuel offset rest hfuel hr
  obtain ⟨c, after, htext, hfirst⟩ := exists_number_eq_cons d
  have hread := Decimal.readNumber_stringify h hr offset
  have hnumber : (Document.number d).stringify = c :: after := htext
  rw [hnumber] at hfuel ⊢
  rw [htext] at hread
  cases fuel with
  | zero => cases hfuel
  | succ fuel =>
    have hne {a : Char} (ha : isDigit a = false) (hminus : a ≠ '-') : c ≠ a := by
      rintro rfl
      obtain hdigit | ⟨hc, _⟩ := hfirst
      · rw [ha] at hdigit
        cases hdigit
      · exact hminus hc
    have hfirst' : isDigit c = true ∨
        c = '-' ∧ ∃ c' rest', after ++ rest = c' :: rest' ∧ isDigit c' = true := by
      obtain hdigit | ⟨hc, c', rest', rfl, hdigit⟩ := hfirst
      · exact .inl hdigit
      · exact .inr ⟨hc, c', rest' ++ rest, rfl, hdigit⟩
    rw [List.cons_append, readValue_word (hne rfl (by decide)) (hne rfl (by decide))
      (hne rfl (by decide)), readWord_of_number offset hfirst']
    exact hread

theorem readString_quote (s : String) (rest : List Char) (offset : ℕ) :
    readString ⟨quote s ++ rest, offset⟩ =
      .ok (s, ⟨rest, offset + (quote s).length⟩) := by
  rw [quote_eq_writeText]
  exact readString_writeText s rest offset

theorem reads_text (s : String) : Reads (Document.text s).stringify (.text s) := by
  intro fuel offset rest hfuel _
  cases fuel with
  | zero => cases hfuel
  | succ fuel =>
    have hread := readString_quote s rest offset
    show readValue (fuel + 1) ⟨quote s ++ rest, offset⟩ = _
    unfold quote at hread ⊢
    simp only [List.cons_append] at hread ⊢
    rw [readValue]
    simp only [hread]
    rfl

/-- The text of a row of items, without the brackets. -/
def rowText (items : List Document) : List Char := joinWith [','] (items.map stringify)

theorem rowText_cons_cons (item next : Document) (items : List Document) :
    rowText (item :: next :: items) = item.stringify ++ ',' :: rowText (next :: items) := by
  simp [rowText, joinWith]

theorem exists_rowText_eq_cons (item : Document) (items : List Document) :
    ∃ c rest, rowText (item :: items) = c :: rest ∧ isFirst c = true := by
  obtain ⟨c, rest, htext, hfirst⟩ := exists_stringify_eq_cons item
  cases items with
  | nil => exact ⟨c, rest, htext, hfirst⟩
  | cons next items =>
    rw [rowText_cons_cons, htext]
    exact ⟨c, _, rfl, hfirst⟩

theorem readItems_last {fuel : ℕ} {cursor : Cursor} {value : Value} {rest : List Char}
    {offset : ℕ} (h : readValue fuel cursor = .ok (value, ⟨']' :: rest, offset⟩)) :
    readItems (fuel + 1) cursor = .ok ([value], ⟨rest, offset + 1⟩) := by
  rw [readItems, h]
  rfl

theorem readItems_next {fuel : ℕ} {cursor after : Cursor} {value : Value} {values : List Value}
    {c : Char} {rest : List Char} {offset : ℕ} (hc : isBlank c = false)
    (h : readValue fuel cursor = .ok (value, ⟨',' :: c :: rest, offset⟩))
    (hrest : readItems fuel ⟨c :: rest, offset + 1⟩ = .ok (values, after)) :
    readItems (fuel + 1) cursor = .ok (value :: values, after) := by
  have hskip := skipBlank_of_head rest (offset + 1) hc
  rw [readItems, h]
  show (readItems fuel (Cursor.skipBlank ⟨c :: rest, offset + 1⟩) >>= _) = _
  rw [hskip, hrest]
  rfl

/-- A row of items is read up to its closing bracket. -/
theorem readItems_rowText {item : Document} {items : List Document}
    (h : ∀ i ∈ item :: items, Reads i.stringify i.value) (fuel offset : ℕ) (rest : List Char)
    (hfuel : 2 * ((rowText (item :: items)).length + 1) ≤ fuel) :
    readItems fuel ⟨rowText (item :: items) ++ ']' :: rest, offset⟩ =
      .ok ((item :: items).map value, ⟨rest, offset + (rowText (item :: items)).length + 1⟩) := by
  induction items generalizing item fuel offset with
  | nil =>
    have htext : rowText [item] = item.stringify := rfl
    rw [htext] at hfuel ⊢
    cases fuel with
    | zero => omega
    | succ fuel =>
      exact readItems_last (h item List.mem_cons_self fuel offset (']' :: rest) (by omega)
        (closed_cons (.inr (.inl rfl))))
  | cons next items ih =>
    obtain ⟨c, after, htext, hfirst⟩ := exists_rowText_eq_cons next items
    have hrest := ih (fun i hi => h i (List.mem_cons_of_mem _ hi))
    rw [rowText_cons_cons] at hfuel ⊢
    simp only [List.length_append, List.length_cons] at hfuel
    cases fuel with
    | zero => omega
    | succ fuel =>
      have hread := h item List.mem_cons_self fuel offset
        (',' :: (rowText (next :: items) ++ ']' :: rest)) (by omega) (closed_cons (.inl rfl))
      have hlater := hrest fuel (offset + item.stringify.length + 1) (by omega)
      have hlength : offset + item.stringify.length + 1 + (rowText (next :: items)).length + 1 =
          offset + (item.stringify ++ ',' :: rowText (next :: items)).length + 1 := by
        simp
        omega
      rw [List.append_assoc, List.cons_append, ← hlength]
      rw [htext] at hread hlater ⊢
      exact readItems_next (ne_of_isFirst hfirst).1 hread hlater

/-- The text of a field with its name. -/
def fieldText (field : String × Document) : List Char :=
  printField Decimal.stringify field

/-- The text of a row of fields, without the braces. -/
def fieldsText (fields : List (String × Document)) : List Char :=
  joinWith [','] (fields.map fieldText)

theorem fieldsText_cons_cons (field next : String × Document)
    (fields : List (String × Document)) : fieldsText (field :: next :: fields) =
      fieldText field ++ ',' :: fieldsText (next :: fields) := by
  simp [fieldsText, joinWith]

theorem exists_fieldsText_eq_cons (field : String × Document) (fields : List (String × Document)) :
    ∃ rest, fieldsText (field :: fields) = '"' :: rest := by
  cases fields with
  | nil => exact ⟨_, rfl⟩
  | cons next fields =>
    rw [fieldsText_cons_cons]
    exact ⟨_, rfl⟩

section

variable {fuel offset offset' : ℕ} {body rest later : List Char} {c : Char} {name : String}
variable {value : Value}

theorem readFields_last (hc : isBlank c = false)
    (hname : readString ⟨'"' :: body, offset⟩ = .ok (name, ⟨':' :: c :: rest, offset'⟩))
    {offset'' : ℕ}
    (hvalue : readValue fuel ⟨c :: rest, offset' + 1⟩ = .ok (value, ⟨'\x7d' :: later, offset''⟩)) :
    readFields (fuel + 1) ⟨'"' :: body, offset⟩ =
      .ok ([(.text name, value)], ⟨later, offset'' + 1⟩) := by
  have hskip := skipBlank_of_head rest (offset' + 1) hc
  rw [readFields, hname]
  show (readValue fuel (Cursor.skipBlank ⟨c :: rest, offset' + 1⟩) >>= _) = _
  rw [hskip, hvalue]
  rfl

theorem readFields_next (hc : isBlank c = false)
    (hname : readString ⟨'"' :: body, offset⟩ = .ok (name, ⟨':' :: c :: rest, offset'⟩))
    {offset'' : ℕ} {next : Char} (hnext : isBlank next = false)
    (hvalue : readValue fuel ⟨c :: rest, offset' + 1⟩ =
      .ok (value, ⟨',' :: next :: later, offset''⟩))
    {fields : List (Key × Value)} {after : Cursor}
    (hlater : readFields fuel ⟨next :: later, offset'' + 1⟩ = .ok (fields, after)) :
    readFields (fuel + 1) ⟨'"' :: body, offset⟩ = .ok ((.text name, value) :: fields, after) := by
  have hskip := skipBlank_of_head rest (offset' + 1) hc
  have hskip' := skipBlank_of_head later (offset'' + 1) hnext
  rw [readFields, hname]
  show (readValue fuel (Cursor.skipBlank ⟨c :: rest, offset' + 1⟩) >>= _) = _
  rw [hskip, hvalue]
  show (readFields fuel (Cursor.skipBlank ⟨next :: later, offset'' + 1⟩) >>= _) = _
  rw [hskip', hlater]
  rfl

end

/-- The name of a field is read up to the colon, and its value from there. -/
theorem read_fieldText {field : String × Document} (h : Reads field.2.stringify field.2.value)
    (fuel offset : ℕ) (rest : List Char) (hfuel : 2 * (fieldText field).length ≤ fuel)
    (hr : Closed rest) : ∃ body c after offset', isBlank c = false ∧
      fieldText field ++ rest = '"' :: body ∧
      readString ⟨'"' :: body, offset⟩ = .ok (field.1, ⟨':' :: c :: after, offset'⟩) ∧
      readValue fuel ⟨c :: after, offset' + 1⟩ =
        .ok (field.2.value, ⟨rest, offset + (fieldText field).length⟩) := by
  obtain ⟨name, doc⟩ := field
  change Reads doc.stringify doc.value at h
  obtain ⟨c, after, htext, hfirst⟩ := exists_stringify_eq_cons doc
  have hname := readString_quote name (':' :: (doc.stringify ++ rest)) offset
  have hfield : fieldText (name, doc) = quote name ++ ':' :: doc.stringify := rfl
  rw [hfield, List.length_append, List.length_cons] at hfuel ⊢
  have hvalue := h fuel (offset + (quote name).length + 1) rest (by omega) hr
  rw [htext, List.cons_append] at hname hvalue
  refine ⟨_, c, after ++ rest, _, (ne_of_isFirst hfirst).1, ?_, hname, ?_⟩
  · rw [List.append_assoc, List.cons_append, htext]
    rfl
  · rw [hvalue, ← htext]
    congr 3
    omega

/-- A row of fields is read up to its closing brace. -/
theorem readFields_fieldsText {field : String × Document} {fields : List (String × Document)}
    (h : ∀ f ∈ field :: fields, Reads f.2.stringify f.2.value) (fuel offset : ℕ)
    (rest : List Char) (hfuel : 2 * ((fieldsText (field :: fields)).length + 1) ≤ fuel) :
    readFields fuel ⟨fieldsText (field :: fields) ++ '\x7d' :: rest, offset⟩ =
      .ok (valueFields (field :: fields),
        ⟨rest, offset + (fieldsText (field :: fields)).length + 1⟩) := by
  induction fields generalizing field fuel offset with
  | nil =>
    have htext : fieldsText [field] = fieldText field := rfl
    rw [htext] at hfuel ⊢
    cases fuel with
    | zero => omega
    | succ fuel =>
      obtain ⟨body, c, after, offset', hc, hbody, hname, hvalue⟩ :=
        read_fieldText (h field List.mem_cons_self) fuel offset ('\x7d' :: rest) (by omega)
          (closed_cons (.inr (.inr rfl)))
      rw [hbody]
      exact readFields_last hc hname hvalue
  | cons next fields ih =>
    obtain ⟨later, htext⟩ := exists_fieldsText_eq_cons next fields
    have hrest := ih (fun f hf => h f (List.mem_cons_of_mem _ hf))
    rw [fieldsText_cons_cons] at hfuel ⊢
    simp only [List.length_append, List.length_cons] at hfuel
    cases fuel with
    | zero => omega
    | succ fuel =>
      obtain ⟨body, c, after, offset', hc, hbody, hname, hvalue⟩ :=
        read_fieldText (h field List.mem_cons_self) fuel offset
          (',' :: (fieldsText (next :: fields) ++ '\x7d' :: rest)) (by omega)
          (closed_cons (.inl rfl))
      have hlater := hrest fuel (offset + (fieldText field).length + 1) (by omega)
      have hlength : offset + (fieldText field).length + 1 +
          (fieldsText (next :: fields)).length + 1 =
          offset + (fieldText field ++ ',' :: fieldsText (next :: fields)).length + 1 := by
        simp
        omega
      rw [List.append_assoc, List.cons_append, hbody, ← hlength]
      rw [htext] at hvalue hlater ⊢
      exact readFields_next hc hname (by decide) hvalue hlater

theorem readValue_list {fuel offset : ℕ} {c : Char} {rest : List Char} (hc : isFirst c = true)
    {values : List Value} {after : Cursor}
    (h : readItems fuel ⟨c :: rest, offset + 1⟩ = .ok (values, after)) :
    readValue (fuel + 1) ⟨'[' :: c :: rest, offset⟩ = .ok (.list values, after) := by
  obtain ⟨hblank, hbracket, _⟩ := ne_of_isFirst hc
  have hskip : (Cursor.advance ⟨'[' :: c :: rest, offset⟩ 1).skipBlank =
      ⟨c :: rest, offset + 1⟩ := skipBlank_of_head rest (offset + 1) hblank
  simp only [readValue, hskip]
  split
  · rename_i later hlater
    exact absurd (List.cons.inj hlater).1 hbracket
  · rw [h]
    rfl

theorem readValue_object {fuel offset : ℕ} {c : Char} {rest : List Char}
    (hblank : isBlank c = false) (hbrace : c ≠ '\x7d') {fields : List (Key × Value)}
    {after : Cursor}
    (h : readFields fuel ⟨c :: rest, offset + 1⟩ = .ok (fields, after)) :
    readValue (fuel + 1) ⟨'\x7b' :: c :: rest, offset⟩ =
      .ok (.object (Fields.ofList fields), after) := by
  have hskip : (Cursor.advance ⟨'\x7b' :: c :: rest, offset⟩ 1).skipBlank =
      ⟨c :: rest, offset + 1⟩ := skipBlank_of_head rest (offset + 1) hblank
  simp only [readValue, hskip]
  split
  · rename_i later hlater
    exact absurd (List.cons.inj hlater).1 hbrace
  · rw [h]
    rfl

theorem named_valueFields {fields : List (String × Document)} (h : (fields.map (·.1)).Nodup) :
    (valueFields fields).Named := by
  rw [valueFields_eq_map]
  constructor
  · intro field hfield
    obtain ⟨f, _, rfl⟩ := List.mem_map.mp hfield
    exact ⟨f.1, rfl⟩
  · rw [List.map_map]
    have hkeys : (fields.map (·.1)).map Key.text =
        fields.map ((·.1) ∘ fun field => (Key.text field.1, value field.2)) := by
      rw [List.map_map]
      rfl
    rw [← hkeys]
    exact h.map fun _ _ heq => Key.text.inj heq

theorem reads_list {items : List Document} (h : ∀ item ∈ items, Reads item.stringify item.value) :
    Reads (Document.list items).stringify (Document.list items).value := by
  intro fuel offset rest hfuel _
  have htext : (Document.list items).stringify = '[' :: (rowText items ++ [']']) := by
    rw [stringify, print, printItems_eq_map]
    rfl
  rw [htext] at hfuel ⊢
  simp only [List.length_cons, List.length_append, List.length_nil, List.cons_append,
    List.append_assoc, List.nil_append] at hfuel ⊢
  rw [value, valueItems_eq_map]
  cases fuel with
  | zero => omega
  | succ fuel =>
    cases items with
    | nil => rfl
    | cons item items =>
      obtain ⟨c, after, hrow, hfirst⟩ := exists_rowText_eq_cons item items
      have hread := readItems_rowText h fuel (offset + 1) rest (by omega)
      rw [hrow, List.cons_append] at hread ⊢
      rw [readValue_list hfirst hread]
      congr 3
      simp
      omega

theorem reads_object {fields : List (String × Document)} (hnames : (fields.map (·.1)).Nodup)
    (h : ∀ field ∈ fields, Reads field.2.stringify field.2.value) :
    Reads (Document.object fields).stringify (Document.object fields).value := by
  intro fuel offset rest hfuel _
  have htext : (Document.object fields).stringify =
      '\x7b' :: (fieldsText fields ++ ['\x7d']) := by
    rw [stringify, print, printFields_eq_map]
    rfl
  rw [htext] at hfuel ⊢
  simp only [List.length_cons, List.length_append, List.length_nil, List.cons_append,
    List.append_assoc, List.nil_append] at hfuel ⊢
  rw [value]
  cases fuel with
  | zero => omega
  | succ fuel =>
    cases fields with
    | nil => rfl
    | cons field fields =>
      obtain ⟨after, hrow⟩ := exists_fieldsText_eq_cons field fields
      have hread := readFields_fieldsText h fuel (offset + 1) rest (by omega)
      rw [hrow, List.cons_append] at hread ⊢
      rw [readValue_object (by decide) (by decide) hread,
        Fields.ofList_of_named (named_valueFields hnames)]
      congr 3
      simp
      omega

/-- The text that `JSON.stringify` gives of a document is read as the value of the document. -/
theorem reads_stringify {doc : Document} (h : doc.Proper Decimal.Spelt) :
    Reads doc.stringify doc.value := by
  induction h with
  | null => exact reads_null
  | bool b => exact reads_bool b
  | number h => exact reads_number h
  | text s => exact reads_text s
  | list _ ih => exact reads_list ih
  | object hnames _ ih => exact reads_object hnames ih

/-- Reading the text that `JSON.stringify` gives of a document gives its value. -/
theorem read_stringify {doc : Document} (h : doc.Proper Decimal.Spelt) :
    Json.read doc.stringify = .ok doc.value := by
  have hread := reads_stringify h (2 * doc.stringify.length + 1) 0 [] (by omega) closed_nil
  obtain ⟨c, rest, htext, hfirst⟩ := exists_stringify_eq_cons doc
  rw [List.append_nil] at hread
  have hskip : Cursor.skipBlank ⟨doc.stringify, 0⟩ = ⟨doc.stringify, 0⟩ := by
    rw [htext]
    exact skipBlank_of_head rest 0 (ne_of_isFirst hfirst).1
  rw [Json.read, hskip, hread]
  rfl

end Document

end Stepwise.Json
