import Stepwise.Proofs.Json.Notations
import Stepwise.Proofs.Json.Rows

/-!
# Documents

A document is a JSON text as a tree, with its numbers as they are written. `JSON.stringify` quotes
strings in the same way as they are written here. So the text that it gives is the text of the value
of the document exactly if every number in it is written back as it was.
-/

namespace Stepwise.Json

/-- A JSON text as a tree. -/
inductive Document
  | null
  | bool (b : Bool)
  | number (d : Decimal)
  | text (s : String)
  | list (items : List Document)
  | object (fields : List (String × Document))

/-- The letters that stand for some characters after a backslash. -/
def letters : List (Char × Char) :=
  [('"', '"'), ('\\', '\\'), ('\x08', 'b'), ('\x0c', 'f'), ('\n', 'n'), ('\r', 'r'), ('\t', 't')]

/-- A character in a string as `JSON.stringify` writes it: the letter that stands for it, the two
hexadecimal digits of another control character, or the character as it is. -/
def quoted (c : Char) : List Char :=
  match letters.lookup c with
  | some letter => ['\\', letter]
  | none =>
    if c.toNat < 0x20 then
      "\\u00".toList ++ [Nat.digitChar (c.toNat / 16), Nat.digitChar (c.toNat % 16)]
    else [c]

/-- A string as `JSON.stringify` writes it. -/
def quote (s : String) : List Char := '"' :: s.toList.flatMap quoted ++ ['"']

theorem hex_four_eq : ∀ n < 0x20,
    Text.hex 4 n = "00".toList ++ [Nat.digitChar (n / 16), Nat.digitChar (n % 16)] := by decide

theorem quoted_eq_escape (c : Char) : quoted c = escape c := by
  unfold escape
  split_ifs with hself hn hr ht hb hf hcontrol
  · obtain rfl | rfl := hself
    · rfl
    · rfl
  · subst hn
    rfl
  · subst hr
    rfl
  · subst ht
    rfl
  · subst hb
    rfl
  · subst hf
    rfl
  all_goals
    rw [not_or] at hself
    have hnone : letters.lookup c = none := by
      rw [List.lookup_eq_none_iff]
      simp [letters, hself, hn, hr, ht, hb, hf]
    rw [quoted, hnone]
  · rw [hex_four_eq _ hcontrol]
    exact if_pos hcontrol
  · exact if_neg hcontrol

/-- Strings are written alike. -/
theorem quote_eq_writeText (s : String) : quote s = writeText s.toList := by
  rw [quote, writeText, funext quoted_eq_escape]

namespace Document

/-- The names of every object are distinct, and the numbers are allowed ones. -/
inductive Proper (allowed : Decimal → Prop) : Document → Prop
  | null : Proper allowed .null
  | bool (b : Bool) : Proper allowed (.bool b)
  | number {d : Decimal} (h : allowed d) : Proper allowed (.number d)
  | text (s : String) : Proper allowed (.text s)
  | list {items : List Document} (h : ∀ item ∈ items, Proper allowed item) :
      Proper allowed (.list items)
  | object {fields : List (String × Document)} (hn : (fields.map (·.1)).Nodup)
      (h : ∀ field ∈ fields, Proper allowed field.2) : Proper allowed (.object fields)

mutual

/-- The compact text of a document, with the numbers written in a given way. -/
def print (number : Decimal → List Char) : Document → List Char
  | .null => "null".toList
  | .bool true => "true".toList
  | .bool false => "false".toList
  | .number d => number d
  | .text s => quote s
  | .list items => '[' :: joinWith [','] (printItems number items) ++ [']']
  | .object fields => '\x7b' :: joinWith [','] (printFields number fields) ++ ['\x7d']

/-- The texts of the items of a list. -/
def printItems (number : Decimal → List Char) : List Document → List (List Char)
  | [] => []
  | item :: rest => print number item :: printItems number rest

/-- The texts of the fields of an object, each with its name. -/
def printFields (number : Decimal → List Char) : List (String × Document) → List (List Char)
  | [] => []
  | (name, item) :: rest =>
    (quote name ++ ':' :: print number item) :: printFields number rest

end

mutual

/-- The value that a document stands for. -/
def value : Document → Value
  | .null => .null
  | .bool b => .bool b
  | .number d => d.read
  | .text s => .text s
  | .list items => .list (valueItems items)
  | .object fields => .object (valueFields fields)

/-- The values of the items of a list. -/
def valueItems : List Document → List Value
  | [] => []
  | item :: rest => value item :: valueItems rest

/-- The values of the fields of an object. -/
def valueFields : List (String × Document) → Fields
  | [] => []
  | (name, item) :: rest => (.text name, value item) :: valueFields rest

end

/-- The text that `JSON.stringify` gives. -/
def stringify (doc : Document) : List Char := doc.print Decimal.stringify

variable {number other : Decimal → List Char} {allowed : Decimal → Prop}

theorem printItems_eq_map (items : List Document) :
    printItems number items = items.map (print number) := by
  induction items with
  | nil => rfl
  | cons item rest ih => rw [printItems, ih, List.map_cons]

/-- The text of a field with its name. -/
def printField (number : Decimal → List Char) (field : String × Document) : List Char :=
  quote field.1 ++ ':' :: print number field.2

theorem printFields_eq_map (fields : List (String × Document)) :
    printFields number fields = fields.map (printField number) := by
  induction fields with
  | nil => rfl
  | cons field rest ih => rw [printFields, ih, List.map_cons, printField]

theorem valueItems_eq_map (items : List Document) : valueItems items = items.map value := by
  induction items with
  | nil => rfl
  | cons item rest ih => rw [valueItems, ih, List.map_cons]

theorem valueFields_eq_map (fields : List (String × Document)) :
    valueFields fields = fields.map fun field => (Key.text field.1, value field.2) := by
  induction fields with
  | nil => rfl
  | cons field rest ih => rw [valueFields, ih, List.map_cons]

/-- What follows from two properties of each number holds of every number. -/
theorem Proper.imp {p q : Decimal → Prop} {doc : Document} (h : doc.Proper allowed)
    (hp : doc.Proper p) (himp : ∀ d, allowed d → p d → q d) : doc.Proper q := by
  induction h with
  | null => exact .null
  | bool b => exact .bool b
  | number h =>
    cases hp with
    | number hp => exact .number (himp _ h hp)
  | text s => exact .text s
  | list _ ih =>
    cases hp with
    | list hp => exact .list fun item hitem => ih item hitem (hp item hitem)
  | object hn _ ih =>
    cases hp with
    | object _ hp => exact .object hn fun field hfield => ih field hfield (hp field hfield)

/-! ## Writing the value -/

/-- The text of the value is the text of the document with every number written back. -/
theorem write_value {doc : Document} (h : doc.Proper allowed) :
    write doc.value = doc.print Decimal.rewritten := by
  induction h with
  | null => rfl
  | bool b => cases b <;> rfl
  | number _ => rfl
  | text s => exact (quote_eq_writeText s).symm
  | @list items _ ih =>
    have hitems : writeItems (valueItems items) = printItems Decimal.rewritten items := by
      rw [writeItems_eq_map, valueItems_eq_map, printItems_eq_map, List.map_map]
      exact List.map_congr_left ih
    rw [value, write, print, hitems]
  | @object fields _ _ ih =>
    have hfields : writeFields (valueFields fields) = printFields Decimal.rewritten fields := by
      rw [writeFields_eq_map, valueFields_eq_map, printFields_eq_map, List.map_map]
      refine List.map_congr_left fun field hfield => ?_
      show writeText field.1.toList ++ ':' :: write field.2.value = printField _ field
      rw [ih field hfield, printField, quote_eq_writeText]
    rw [value, write, print, hfields]

/-- The value has no more digits than are written, if that is so of its numbers. -/
theorem isShort_value {doc : Document} (h : doc.Proper allowed)
    (hn : ∀ d, allowed d → isShort d.read = true) : isShort doc.value = true := by
  induction h with
  | number hd => exact hn _ hd
  | @list items _ ih =>
    rw [value, isShort, shortItems_eq_all, valueItems_eq_map, List.all_map, List.all_eq_true]
    exact ih
  | @object fields _ _ ih =>
    rw [value, isShort, shortFields_eq_all, valueFields_eq_map, List.all_map, List.all_eq_true]
    exact ih
  | _ => rfl

/-! ## Comparing texts -/

/-- The items of two rows in brackets with one text have one text each, if they end where the same
text ends. -/
theorem joinWith_agree {α : Type} {f g : α → List Char} {p : α → Prop} {close : Char}
    (hc : close = ']' ∨ close = '\x7d') {items : List α}
    (h : ∀ a ∈ items, ∀ x y, Closed x → Closed y → f a ++ x = g a ++ y → p a ∧ x = y)
    {x y : List Char} (heq : joinWith [','] (items.map f) ++ close :: x =
      joinWith [','] (items.map g) ++ close :: y) : (∀ a ∈ items, p a) ∧ x = y := by
  have hclosed (k : α → List Char) (rest : List α) (r : List Char) :
      Closed ((rest.map k).flatMap (',' :: ·) ++ close :: r) := by
    cases rest with
    | nil => exact closed_cons (.inr hc)
    | cons a rest => exact closed_cons (.inl rfl)
  cases items with
  | nil => exact ⟨nofun, (List.cons.inj heq).2⟩
  | cons a items =>
    rw [List.map_cons, List.map_cons, joinWith_cons_append, joinWith_cons_append] at heq
    induction items generalizing a with
    | nil =>
      obtain ⟨ha, hrest⟩ := h a List.mem_cons_self _ _ (hclosed f [] x) (hclosed g [] y) heq
      exact ⟨List.forall_mem_singleton.mpr ha, (List.cons.inj hrest).2⟩
    | cons b rest ih =>
      obtain ⟨ha, hrest⟩ := h a List.mem_cons_self _ _ (hclosed f (b :: rest) x)
        (hclosed g (b :: rest) y) heq
      simp only [List.map_cons, List.flatMap_cons, List.append_assoc, List.cons_append,
        List.cons.injEq, true_and] at hrest
      obtain ⟨hall, hxy⟩ := ih b (fun c hmem => h c (List.mem_cons_of_mem _ hmem)) hrest
      exact ⟨List.forall_mem_cons.mpr ⟨ha, hall⟩, hxy⟩

/-- Two ways of writing numbers that make one text of a document write every number in it alike. -/
theorem agree_of_print {doc : Document} (h : doc.Proper allowed)
    (hn : ∀ d, allowed d → ∀ c ∈ number d, Spelling.isNumberChar c = true)
    (ho : ∀ d, allowed d → ∀ c ∈ other d, Spelling.isNumberChar c = true) :
    ∀ x y, Closed x → Closed y → doc.print number ++ x = doc.print other ++ y →
      doc.Proper (fun d => number d = other d) ∧ x = y := by
  induction h with
  | null => exact fun x y _ _ heq => ⟨.null, List.append_cancel_left heq⟩
  | bool b =>
    have hsame : (Document.bool b).print number = (Document.bool b).print other := by
      cases b <;> rfl
    exact fun x y _ _ heq => ⟨.bool b, List.append_cancel_left (hsame ▸ heq)⟩
  | number hd =>
    intro x y hx hy heq
    obtain ⟨hsame, hxy⟩ := Spelling.append_inj_of_closed (hn _ hd) (ho _ hd) hx hy heq
    exact ⟨.number hsame, hxy⟩
  | text s => exact fun x y _ _ heq => ⟨.text s, List.append_cancel_left heq⟩
  | @list items _ ih =>
    intro x y _ _ heq
    simp only [print, printItems_eq_map, List.append_assoc, List.cons_append,
      List.nil_append] at heq
    obtain ⟨hall, hxy⟩ := joinWith_agree (.inl rfl) ih (List.cons.inj heq).2
    exact ⟨.list hall, hxy⟩
  | @object fields hnames _ ih =>
    intro x y _ _ heq
    simp only [print, printFields_eq_map, List.append_assoc, List.cons_append,
      List.nil_append] at heq
    have hfields : ∀ field ∈ fields, ∀ x y, Closed x → Closed y →
        printField number field ++ x = printField other field ++ y →
          field.2.Proper (fun d => number d = other d) ∧ x = y := by
      intro field hfield x y hx hy heq
      simp only [printField, List.append_assoc, List.cons_append] at heq
      exact ih field hfield x y hx hy (List.cons.inj (List.append_cancel_left heq)).2
    obtain ⟨hall, hxy⟩ := joinWith_agree (.inr rfl) hfields (List.cons.inj heq).2
    exact ⟨.object hnames hall, hxy⟩

theorem print_congr {doc : Document} (h : doc.Proper fun d => number d = other d) :
    doc.print number = doc.print other := by
  induction h with
  | null => rfl
  | bool b => cases b <;> rfl
  | number h => exact h
  | text s => rfl
  | @list items _ ih =>
    have hitems : printItems number items = printItems other items := by
      rw [printItems_eq_map, printItems_eq_map]
      exact List.map_congr_left ih
    rw [print, print, hitems]
  | @object fields _ _ ih =>
    have hfields : printFields number fields = printFields other fields := by
      rw [printFields_eq_map, printFields_eq_map]
      refine List.map_congr_left fun field hfield => ?_
      exact congrArg (quote field.1 ++ ':' :: ·) (ih field hfield)
    rw [print, print, hfields]

/-- The value of a document has the text that `JSON.stringify` gives exactly if every number in it
is written back as it was. -/
theorem write_value_eq_stringify_iff {doc : Document} (h : doc.Proper Decimal.Spelt) :
    write doc.value = doc.stringify ↔
      doc.Proper fun d => d.rewritten = d.stringify := by
  rw [write_value h, stringify]
  constructor
  · intro heq
    refine (agree_of_print h (fun d hd c => Decimal.isNumberChar_of_mem_rewritten hd)
      (fun d _ c => Decimal.isNumberChar_of_mem_stringify) [] [] closed_nil closed_nil ?_).1
    rw [heq]
  · exact print_congr

end Document

end Stepwise.Json
