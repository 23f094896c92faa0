import Mathlib.Data.List.Basic
import Stepwise.Proofs.Json.Rows
import Stepwise.Proofs.Json.Strings
import Stepwise.Proofs.Number.Digits
import Stepwise.Signature.Payload

/-!
# Different payloads have different texts

The compact JSON text of a payload without doubles tells the payload, even where more text follows
it: its first character tells the sort of the payload, a string ends at its closing quote, a number
where no digit follows, and a list or an object at its bracket. Halves of surrogate pairs stand for
themselves in strings, and nowhere else.
-/

namespace Stepwise.Signature.Payload

open Text

/-- A payload without doubles. -/
inductive Exact : Payload → Prop
  | null : Exact .null
  | bool (b : Bool) : Exact (.bool b)
  | int (n : Int) : Exact (.int n)
  | text (s : List Point) : Exact (.text s)
  | list {items : List Payload} (h : ∀ item ∈ items, Exact item) : Exact (.list items)
  | object {fields : List (List Point × Payload)} (h : ∀ field ∈ fields, Exact field.2) :
      Exact (.object fields)

/-- The sort of a payload. -/
def kind : Payload → Kind
  | .null => .null
  | .bool _ => .bool
  | .int _ => .int
  | .double _ => .double
  | .text _ => .text
  | .list _ => .list
  | .object _ => .object

/-- The sort of the payload whose text begins with a character; none without doubles begins with a
character that is not listed. -/
def kindOf (c : Char) : Kind :=
  if c = 'n' then .null
  else if c = 't' ∨ c = 'f' then .bool
  else if c = '"' then .text
  else if c = '[' then .list
  else if c = '\x7b' then .object
  else if c = '-' ∨ Json.isDigit c = true then .int
  else .double

theorem kindOf_of_isDigit {c : Char} (h : Json.isDigit c = true) : kindOf c = .int := by
  unfold kindOf
  split_ifs with hn ht hq hl ho hi
  · subst hn
    cases h
  · obtain rfl | rfl := ht
    · cases h
    · cases h
  · subst hq
    cases h
  · subst hl
    cases h
  · subst ho
    cases h
  · rfl
  · exact absurd (.inr h) hi

theorem exists_showInt_eq_cons (n : Int) : ∃ c rest, showInt n = c :: rest ∧ kindOf c = .int := by
  unfold showInt
  split_ifs
  · exact ⟨'-', _, rfl, rfl⟩
  · cases hdigits : Decimal.digitsOf n.natAbs with
    | nil => exact absurd hdigits (Decimal.digitsOf_ne_nil _)
    | cons c rest =>
      exact ⟨c, rest, rfl, kindOf_of_isDigit (Decimal.isDigit_of_mem_digitsOf (n := n.natAbs)
        (hdigits ▸ List.mem_cons_self))⟩

/-- The first character of a text tells the sort of the payload. -/
theorem exists_write_eq_cons {p : Payload} (h : p.Exact) :
    ∃ c rest, p.write = .char c :: rest ∧ kindOf c = p.kind := by
  cases h with
  | null => exact ⟨'n', _, rfl, rfl⟩
  | bool b =>
    cases b with
    | true => exact ⟨'t', _, rfl, rfl⟩
    | false => exact ⟨'f', _, rfl, rfl⟩
  | int n =>
    obtain ⟨c, rest, hshow, hkind⟩ := exists_showInt_eq_cons n
    exact ⟨c, rest.map .char, by rw [write, hshow, List.map_cons], hkind⟩
  | text s => exact ⟨'"', _, rfl, rfl⟩
  | list _ => exact ⟨'[', _, rfl, rfl⟩
  | object _ => exact ⟨'\x7b', _, rfl, rfl⟩

theorem kind_eq_of_write {p q : Payload} (hp : p.Exact) (hq : q.Exact) {r r' : List Point}
    (h : p.write ++ r = q.write ++ r') : p.kind = q.kind := by
  obtain ⟨c, rest, hc, hkind⟩ := exists_write_eq_cons hp
  obtain ⟨d, rest', hd, hkind'⟩ := exists_write_eq_cons hq
  rw [hc, hd] at h
  cases (List.cons.inj h).1
  exact hkind.symm.trans hkind'

/-! ## Strings -/

/-- Where the escaped forms of two characters begin alike, the characters are one: read back from
the longer one, the shorter one is read first. -/
theorem eq_of_escape_append {c d : Char} {rest : List Char}
    (h : Json.escape d = Json.escape c ++ rest) : c = d := by
  have hwhole := Json.readText_escape 0 0 d '"' []
  obtain ⟨next, later, hnext⟩ : ∃ next later, rest ++ ['"'] = next :: later := by
    cases rest with
    | nil => exact ⟨_, _, rfl⟩
    | cons next later => exact ⟨_, _, rfl⟩
  rw [h, List.append_assoc, hnext, Json.readText_escape] at hwhole
  have hcodes := congrArg (Except.map Prod.fst) hwhole
  generalize Json.readText 0 (0 + (Json.escape c).length) (next :: later) = tail at hcodes
  cases tail with
  | error refusal => cases hcodes
  | ok out => exact Char.toNat_inj.mp (List.cons.inj (Except.ok.inj hcodes)).1

theorem map_char_injective : Function.Injective (List.map Point.char) :=
  List.map_injective_iff.mpr fun _ _ h => Point.char.inj h

/-- The escaped form of a character is not empty and does not begin with a quote. -/
theorem exists_escape_eq_cons (c : Char) : ∃ x rest, Json.escape c = x :: rest ∧ x ≠ '"' := by
  unfold Json.escape
  split_ifs with hquote
  case neg => exact ⟨c, [], rfl, fun h => hquote (.inl h)⟩
  all_goals exact ⟨'\\', _, rfl, by decide⟩

/-- A half stands for itself, so it is not mistaken for a character. -/
theorem escape_half_ne (n : Fin 0x800) (c : Char) (r r' : List Point) :
    escape (.half n) ++ r ≠ escape (.char c) ++ r' := by
  obtain ⟨x, rest, hc, _⟩ := exists_escape_eq_cons c
  intro h
  rw [escape, escape, hc] at h
  cases (List.cons.inj h).1

/-- Where the escaped forms of two points begin alike, the points are one and so is what follows. -/
theorem escape_inj {p q : Point} {r r' : List Point} (h : escape p ++ r = escape q ++ r') :
    p = q ∧ r = r' := by
  have hsame : p = q := by
    cases p with
    | half m =>
      cases q with
      | half n => exact (List.cons.inj h).1
      | char d => exact absurd h (escape_half_ne m d r r')
    | char c =>
      cases q with
      | half n => exact absurd h.symm (escape_half_ne n c r' r)
      | char d =>
        -- One of the two forms is the beginning of the other one.
        obtain ⟨rest, hd, _⟩ | ⟨rest, hc, _⟩ := List.append_eq_append_iff.mp h
        · obtain ⟨first, second, hsplit, hfirst, _⟩ := List.map_eq_append_iff.mp hd
          cases map_char_injective hfirst
          rw [eq_of_escape_append hsplit]
        · obtain ⟨first, second, hsplit, hfirst, _⟩ := List.map_eq_append_iff.mp hc
          cases map_char_injective hfirst
          rw [eq_of_escape_append hsplit]
  subst hsame
  exact ⟨rfl, List.append_cancel_left h⟩

theorem quote_ne_escape (p : Point) (r r' : List Point) :
    .char '"' :: r ≠ escape p ++ r' := by
  intro h
  cases p with
  | half n => cases (List.cons.inj h).1
  | char c =>
    obtain ⟨x, rest, hc, hx⟩ := exists_escape_eq_cons c
    rw [escape, hc] at h
    cases (List.cons.inj h).1
    exact hx rfl

/-- Where the texts of two strings begin alike, the strings are one and so is what follows. -/
theorem writeText_inj {s t r r' : List Point} (h : writeText s ++ r = writeText t ++ r') :
    s = t ∧ r = r' := by
  have hbody : s.flatMap escape ++ .char '"' :: r = t.flatMap escape ++ .char '"' :: r' := by
    simpa [writeText] using h
  clear h
  induction s generalizing t with
  | nil =>
    cases t with
    | nil => exact ⟨rfl, (List.cons.inj hbody).2⟩
    | cons q t =>
      rw [List.flatMap_cons, List.append_assoc] at hbody
      exact absurd hbody (quote_ne_escape q _ _)
  | cons p s ih =>
    cases t with
    | nil =>
      rw [List.flatMap_cons, List.append_assoc] at hbody
      exact absurd hbody.symm (quote_ne_escape p _ _)
    | cons q t =>
      rw [List.flatMap_cons, List.flatMap_cons, List.append_assoc, List.append_assoc] at hbody
      obtain ⟨rfl, hrest⟩ := escape_inj hbody
      obtain ⟨rfl, hr⟩ := ih hrest
      exact ⟨rfl, hr⟩

/-! ## Numbers -/

/-- A point that is a digit. -/
def isDigit : Point → Bool
  | .char c => Json.isDigit c
  | .half _ => false

/-- No digit comes next. -/
def Ended (rest : List Point) : Prop := ∀ p ∈ rest.head?, isDigit p = false

theorem ended_nil : Ended [] := nofun

theorem ended_cons {p : Point} {rest : List Point} (h : isDigit p = false) :
    Ended (p :: rest) := by
  intro q hq
  cases hq
  exact h

theorem showInt_inj {m n : Int} {r r' : List Point} (hr : Ended r) (hr' : Ended r')
    (h : (showInt m).map .char ++ r = (showInt n).map .char ++ r') : m = n ∧ r = r' := by
  have hdigits (k : Int) : ∀ p ∈ (Decimal.digitsOf k.natAbs).map Point.char,
      isDigit p = true :=
    List.forall_mem_map.mpr fun c => Decimal.isDigit_of_mem_digitsOf
  have hminus {k : Int} {x y : List Point} :
      .char '-' :: x ≠ (Decimal.digitsOf k.natAbs).map .char ++ y := by
    intro heq
    cases hk : (Decimal.digitsOf k.natAbs).map Point.char with
    | nil => exact absurd (List.map_eq_nil_iff.mp hk) (Decimal.digitsOf_ne_nil _)
    | cons p rest =>
      rw [hk] at heq
      have hminus := hdigits k p (hk ▸ List.mem_cons_self)
      rw [← (List.cons.inj heq).1] at hminus
      cases hminus
  have hsame {k l : Int} (heq : (Decimal.digitsOf k.natAbs).map Point.char ++ r =
      (Decimal.digitsOf l.natAbs).map Point.char ++ r') : k.natAbs = l.natAbs ∧ r = r' := by
    obtain ⟨hmap, hrest⟩ := Json.append_inj_of_stops (hdigits k) (hdigits l) hr hr' heq
    exact ⟨Decimal.digitsOf_inj (map_char_injective hmap), hrest⟩
  unfold showInt at h
  split_ifs at h with hm hn hn
  · obtain ⟨habs, hrest⟩ := hsame (List.cons.inj h).2
    exact ⟨by omega, hrest⟩
  · exact absurd h hminus
  · exact absurd h.symm hminus
  · obtain ⟨habs, hrest⟩ := hsame h
    exact ⟨by omega, hrest⟩

/-! ## Rows -/

/-- The text of an item, followed by one in which it has ended, begins with the text of no other
item that has ended. -/
def Separates {α : Type} (enc : α → List Point) (allowed : α → Prop) (a : α) : Prop :=
  ∀ b, allowed b → ∀ r r', Ended r → Ended r' → enc a ++ r = enc b ++ r' → a = b ∧ r = r'

theorem tail_inj {α : Type} {enc : α → List Point} {allowed : α → Prop} {close : Point}
    (hc : close ≠ .char ',') (hd : isDigit close = false) {items : List α}
    (h : ∀ a ∈ items, Separates enc allowed a) {others : List α} (ho : ∀ b ∈ others, allowed b)
    {r r' : List Point}
    (heq : items.flatMap (.char ',' :: enc ·) ++ close :: r =
      others.flatMap (.char ',' :: enc ·) ++ close :: r') : items = others ∧ r = r' := by
  have hended (rest : List α) (r : List Point) :
      Ended (rest.flatMap (.char ',' :: enc ·) ++ close :: r) := by
    cases rest with
    | nil => exact ended_cons hd
    | cons b rest => exact ended_cons (by decide)
  induction items generalizing others with
  | nil =>
    cases others with
    | nil => exact ⟨rfl, (List.cons.inj heq).2⟩
    | cons b rest => exact absurd (List.cons.inj heq).1 hc
  | cons a items ih =>
    obtain ⟨ha, hitems⟩ := List.forall_mem_cons.mp h
    cases others with
    | nil => exact absurd (List.cons.inj heq).1.symm hc
    | cons b rest =>
      obtain ⟨hb, hrest⟩ := List.forall_mem_cons.mp ho
      rw [List.flatMap_cons, List.flatMap_cons, List.append_assoc, List.append_assoc] at heq
      obtain ⟨rfl, htail⟩ := ha b hb _ _ (hended _ _) (hended _ _) (List.cons.inj heq).2
      obtain ⟨rfl, hr⟩ := ih hitems hrest htail
      exact ⟨rfl, hr⟩

/-- Two rows in brackets of which the items can be told apart are one if their texts are. -/
theorem joinWith_inj {α : Type} {enc : α → List Point} {allowed : α → Prop} {close : Point}
    (hc : close ≠ .char ',') (hd : isDigit close = false)
    (hne : ∀ b, allowed b → ∀ x y, close :: x ≠ enc b ++ y) {items : List α}
    (hi : ∀ a ∈ items, allowed a) (h : ∀ a ∈ items, Separates enc allowed a) {others : List α}
    (ho : ∀ b ∈ others, allowed b) {r r' : List Point}
    (heq : joinWith [.char ','] (items.map enc) ++ close :: r =
      joinWith [.char ','] (others.map enc) ++ close :: r') : items = others ∧ r = r' := by
  cases items with
  | nil =>
    cases others with
    | nil => exact ⟨rfl, (List.cons.inj heq).2⟩
    | cons b rest =>
      rw [List.map_cons, Json.joinWith_cons_append] at heq
      exact absurd heq (hne b (ho b List.mem_cons_self) _ _)
  | cons a items =>
    cases others with
    | nil =>
      rw [List.map_cons, Json.joinWith_cons_append] at heq
      exact absurd heq.symm (hne a (hi a List.mem_cons_self) _ _)
    | cons b rest =>
      -- A comma in front makes a row out of the items after the first one of a longer row.
      refine tail_inj hc hd h ho ?_
      rw [List.map_cons, List.map_cons, Json.joinWith_cons_append, Json.joinWith_cons_append,
        List.flatMap_map, List.flatMap_map] at heq
      rw [List.flatMap_cons, List.flatMap_cons, List.append_assoc, List.append_assoc]
      exact congrArg (.char ',' :: ·) heq

/-! ## Payloads -/

theorem writeItems_eq_map (items : List Payload) : writeItems items = items.map write := by
  induction items with
  | nil => rfl
  | cons item rest ih => rw [writeItems, ih, List.map_cons]

/-- The text of a field with its name. -/
def writeField (field : List Point × Payload) : List Point :=
  writeText field.1 ++ .char ':' :: write field.2

theorem writeFields_eq_map (fields : List (List Point × Payload)) :
    writeFields fields = fields.map writeField := by
  induction fields with
  | nil => rfl
  | cons field rest ih => rw [writeFields, ih, List.map_cons, writeField]

theorem separates_writeField {name : List Point} {p : Payload} (h : Separates write Exact p) :
    Separates writeField (fun field => Exact field.2) (name, p) := by
  rintro ⟨name', p'⟩ hp' r r' hr hr' heq
  simp only [writeField, List.append_assoc, List.cons_append] at heq
  obtain ⟨rfl, hrest⟩ := writeText_inj heq
  obtain ⟨rfl, hr⟩ := h p' hp' r r' hr hr' (List.cons.inj hrest).2
  exact ⟨rfl, hr⟩

theorem bracket_ne_write {p : Payload} (hp : p.Exact) (x y : List Point) :
    .char ']' :: x ≠ p.write ++ y := by
  obtain ⟨c, rest, hc, hkind⟩ := exists_write_eq_cons hp
  intro heq
  rw [hc] at heq
  cases (List.cons.inj heq).1
  cases hp <;> cases hkind

theorem brace_ne_writeField (field : List Point × Payload) (x y : List Point) :
    .char '\x7d' :: x ≠ writeField field ++ y := by
  intro heq
  have := (List.cons.inj heq).1
  revert this
  decide

/-- The text of a payload without doubles tells the payload and where it ends. -/
theorem separates_write {p : Payload} (h : p.Exact) : Separates write Exact p := by
  induction h with
  | null =>
    intro q hq r r' _ _ heq
    have hkind := kind_eq_of_write .null hq heq
    cases q <;> cases hkind
    exact ⟨rfl, List.append_cancel_left heq⟩
  | bool b =>
    intro q hq r r' _ _ heq
    have hkind := kind_eq_of_write (.bool b) hq heq
    cases q <;> cases hkind
    rename_i b'
    cases b <;> cases b'
    · exact ⟨rfl, List.append_cancel_left heq⟩
    · cases heq
    · cases heq
    · exact ⟨rfl, List.append_cancel_left heq⟩
  | int n =>
    intro q hq r r' hr hr' heq
    have hkind := kind_eq_of_write (.int n) hq heq
    cases q <;> cases hkind
    obtain ⟨rfl, hrest⟩ := showInt_inj hr hr' heq
    exact ⟨rfl, hrest⟩
  | text s =>
    intro q hq r r' _ _ heq
    have hkind := kind_eq_of_write (.text s) hq heq
    cases q <;> cases hkind
    obtain ⟨rfl, hrest⟩ := writeText_inj heq
    exact ⟨rfl, hrest⟩
  | @list items hitems ih =>
    intro q hq r r' _ _ heq
    have hkind := kind_eq_of_write (.list hitems) hq heq
    cases hq <;> cases hkind
    rename_i others hothers
    simp only [write, writeItems_eq_map, List.append_assoc, List.cons_append,
      List.nil_append] at heq
    obtain ⟨rfl, hrest⟩ := joinWith_inj (by decide) (by decide)
      (fun _ => bracket_ne_write) hitems ih hothers (List.cons.inj heq).2
    exact ⟨rfl, hrest⟩
  | @object fields hfields ih =>
    intro q hq r r' _ _ heq
    have hkind := kind_eq_of_write (.object hfields) hq heq
    cases hq <;> cases hkind
    rename_i others hothers
    have hseparates : ∀ field ∈ fields,
        Separates writeField (fun field => Exact field.2) field :=
      fun field hfield => separates_writeField (ih field hfield)
    simp only [write, writeFields_eq_map, List.append_assoc, List.cons_append,
      List.nil_append] at heq
    obtain ⟨rfl, hrest⟩ := joinWith_inj (by decide) (by decide)
      (fun field _ => brace_ne_writeField field) hfields hseparates hothers (List.cons.inj heq).2
    exact ⟨rfl, hrest⟩

/-- Payloads without doubles that have one text are one. -/
theorem write_inj {p q : Payload} (hp : p.Exact) (hq : q.Exact) (h : p.write = q.write) :
    p = q :=
  (separates_write hp q hq [] [] ended_nil ended_nil (by rw [h])).1

end Stepwise.Signature.Payload
