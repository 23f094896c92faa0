import Stepwise.Proofs.Json.Reading
import Stepwise.Proofs.Signature.Decisive

/-!
# Callers that sign the text they send

A caller that sends what `JSON.stringify` gives signs that text. Here the text is read, and the
signature is checked against the text that the value is written back as. The two texts are one
exactly if every number comes back as it was, and then the signature is accepted.
-/

namespace Stepwise.Signature

open Json

/-! ## Values as payloads -/

namespace Payload

theorem joinWith_map {α β : Type} (f : α → β) (separator : List α) (rows : List (List α)) :
    joinWith (separator.map f) (rows.map (List.map f)) = (joinWith separator rows).map f := by
  induction rows with
  | nil => rfl
  | cons row rest ih =>
    cases rest with
    | nil => rfl
    | cons next rest =>
      rw [List.map_cons, List.map_cons, joinWith_cons_cons, ← List.map_cons, ih,
        joinWith_cons_cons, List.map_append, List.map_append]

theorem writeText_map_char (s : List Char) :
    writeText (s.map .char) = (Json.writeText s).map .char := by
  have hbody : (s.map Text.Point.char).flatMap escape = (s.flatMap Json.escape).map .char := by
    rw [List.flatMap_map, List.map_flatMap]
    rfl
  rw [writeText, hbody, Json.writeText, List.map_append, List.map_cons]
  rfl

mutual

/-- The text of a value is the same as a payload. -/
theorem write_ofValue : ∀ v : Value, (ofValue v).write = (Json.write v).map .char
  | .null => rfl
  | .bool true => rfl
  | .bool false => rfl
  | .int _ => rfl
  | .double _ => rfl
  | .text s => writeText_map_char s.toList
  | .list items => by
    rw [ofValue, write, Json.write, writeItems_ofItems items, List.map_append, List.map_cons,
      ← joinWith_map]
    rfl
  | .object fields => by
    rw [ofValue, write, Json.write, writeFields_ofFields fields, List.map_append, List.map_cons,
      ← joinWith_map]
    rfl

theorem writeItems_ofItems : ∀ items : List Value,
    writeItems (ofItems items) = (Json.writeItems items).map (List.map .char)
  | [] => rfl
  | v :: rest => by
    rw [ofItems, writeItems, write_ofValue v, writeItems_ofItems rest, Json.writeItems,
      List.map_cons]

theorem writeFields_ofFields : ∀ fields : List (Key × Value),
    writeFields (ofFields fields) = (Json.writeFields fields).map (List.map .char)
  | [] => rfl
  | (key, v) :: rest => by
    rw [ofFields, writeFields, write_ofValue v, writeFields_ofFields rest, Json.writeFields,
      List.map_cons, writeText_map_char, List.map_append, List.map_cons]

end

mutual

/-- A value has no more digits as a payload. -/
theorem isShort_ofValue : ∀ {v : Value}, Json.isShort v = true → (ofValue v).isShort = true
  | .null, _ => rfl
  | .bool _, _ => rfl
  | .int _, h => h
  | .double _, _ => rfl
  | .text _, _ => rfl
  | .list _, h => shortItems_ofItems h
  | .object _, h => shortFields_ofFields h

theorem shortItems_ofItems : ∀ {items : List Value}, Json.shortItems items = true →
    shortItems (ofItems items) = true
  | [], _ => rfl
  | _ :: _, h => by
    obtain ⟨hv, hrest⟩ := Bool.and_eq_true_iff.mp h
    exact Bool.and_eq_true_iff.mpr ⟨isShort_ofValue hv, shortItems_ofItems hrest⟩

theorem shortFields_ofFields : ∀ {fields : List (Key × Value)}, Json.shortFields fields = true →
    shortFields (ofFields fields) = true
  | [], _ => rfl
  | (_, _) :: _, h => by
    obtain ⟨hfirst, hrest⟩ := Bool.and_eq_true_iff.mp h
    exact Bool.and_eq_true_iff.mpr ⟨isShort_ofValue (Bool.and_eq_true_iff.mp hfirst).2,
      shortFields_ofFields hrest⟩

end

end Payload

/-- A value is signed through its JSON text. -/
theorem canonical_ofValue {v : Value} (h : Json.isShort v = true) :
    canonical (.ofValue v) = .ok (Text.points (String.ofList (Json.write v))) := by
  refine canonical_eq_ok_iff.mpr ⟨Payload.isShort_ofValue h, ?_⟩
  rw [Payload.write_ofValue, Text.points, String.toList_ofList]

/-! ## Texts that are sent -/

/-- The signature that a caller makes of a text. -/
def signText (text secret : String) : String :=
  String.ofList (hexOfBytes (keyedDigest (bytesOfText secret) (bytesOfText text)))

/-- A number that is signed alike on both sides: it is whole, or its digits are the preferred ones
and its magnitude is not one of those that are written in two ways. -/
def SignedAlike (d : Decimal) : Prop := d.Whole ∨ d.Preferred ∧ ¬ d.Apart

theorem proper_signedAlike_iff {doc : Document} (h : doc.Proper Decimal.Spelt) :
    (doc.Proper fun d => d.rewritten = d.stringify) ↔ doc.Proper SignedAlike :=
  ⟨fun hp => h.imp hp fun _ hd => (Decimal.rewritten_eq_iff hd).mp,
    fun hp => h.imp hp fun _ hd => (Decimal.rewritten_eq_iff hd).mpr⟩

/-- What `JSON.stringify` gives is read, and signed through the same text exactly if every number in
it is signed alike; then the signature of the text is accepted under every secret. -/
theorem stringify_signed_alike_iff {doc : Document} (h : doc.Proper Decimal.Spelt) :
    ∃ payload, Json.read doc.stringify = .ok payload ∧
      (canonical (.ofValue payload) = .ok (Text.points (String.ofList doc.stringify)) ↔
        doc.Proper SignedAlike) ∧
      (doc.Proper SignedAlike → ∀ secret, verify (.ofValue payload) (Text.points secret)
        (Text.points (signText (String.ofList doc.stringify) secret)) = .ok true) := by
  have hshort : isShort doc.value = true :=
    Document.isShort_value h fun _ => Decimal.isShort_read
  have hcanonical : canonical (.ofValue doc.value) =
      .ok (Text.points (String.ofList doc.stringify)) ↔ doc.Proper SignedAlike := by
    rw [← proper_signedAlike_iff h, ← Document.write_value_eq_stringify_iff h,
      canonical_ofValue hshort, Except.ok.injEq, points_injective.eq_iff, String.ofList_inj]
  refine ⟨doc.value, Document.read_stringify h, hcanonical, fun halike secret => ?_⟩
  refine verifyWith_eq_ok_true_iff.mpr ⟨_, signWith_eq_ok_iff.mpr ⟨_, _, encode_points _, ?_, rfl⟩,
    rfl⟩
  rw [hcanonical.mpr halike]
  exact encode_points _

theorem spelt_of_digit {d : Decimal} (hreduced : d.Reduced) (hcount : d.count = 1)
    (hfinite : d.toDouble.isFinite = true) (hnonzero : d.toDouble.isZero = false) : d.Spelt :=
  .inr (.of_count_eq_one hreduced hcount hfinite hnonzero)

/-- One half is a double, so its numeral is the preferred one. -/
theorem half_signed_alike : SignedAlike ⟨false, 5, -1⟩ := by
  have hunits : (Decimal.toDouble ⟨false, 5, -1⟩).units * 2 = Double.scale := by decide +kernel
  have hexact : (Decimal.toDouble ⟨false, 5, -1⟩).value = Decimal.value ⟨false, 5, -1⟩ := by
    rw [Double.value, Decimal.value, div_eq_iff Double.scale_pos.ne', ← hunits]
    push_cast
    ring
  refine .inr ⟨.of_exact hexact, fun hapart => ?_⟩
  have hhalf : Decimal.value ⟨false, 5, -1⟩ = 1 / 2 := by norm_num [Decimal.value]
  have hsmall := hapart.2
  rw [hhalf] at hsmall
  norm_num at hsmall

/-- An order with a rate of one half and a great negative total is signed through the same text. -/
theorem order_signed_alike :
    let doc := Document.object [("event", .text "order"), ("rate", .number ⟨false, 5, -1⟩),
      ("total", .number ⟨true, 3, 18⟩)]
    doc.Proper Decimal.Spelt ∧ doc.Proper SignedAlike ∧
      ∃ payload, Json.read doc.stringify = .ok payload ∧
        canonical (.ofValue payload) = .ok (Text.points (String.ofList doc.stringify)) ∧
        ∀ secret, verify (.ofValue payload) (Text.points secret)
          (Text.points (signText (String.ofList doc.stringify) secret)) = .ok true := by
  intro doc
  have hnames : (["event", "rate", "total"] : List String).Nodup := by decide
  have hspelt : doc.Proper Decimal.Spelt := by
    refine .object hnames ?_
    rintro _ (_ | ⟨_, _ | ⟨_, _ | ⟨_, ⟨⟩⟩⟩⟩)
    · exact .text _
    · exact .number (spelt_of_digit (by decide) (by decide) (by decide +kernel) (by decide +kernel))
    · exact .number (spelt_of_digit (by decide) (by decide) (by decide +kernel) (by decide +kernel))
  have halike : doc.Proper SignedAlike := by
    refine .object hnames ?_
    rintro _ (_ | ⟨_, _ | ⟨_, _ | ⟨_, ⟨⟩⟩⟩⟩)
    · exact .text _
    · exact .number half_signed_alike
    · exact .number (.inl ⟨by decide, by decide⟩)
  obtain ⟨payload, hread, hcanonical, hverify⟩ := stringify_signed_alike_iff hspelt
  exact ⟨hspelt, halike, payload, hread, hcanonical.mpr halike, hverify halike⟩

/-- A ten-millionth is written with an exponent of one digit by the caller, and of two here. -/
theorem ten_millionth_signed_apart :
    let doc := Document.object [("amount", .number ⟨false, 1, -7⟩)]
    doc.Proper Decimal.Spelt ∧ String.ofList doc.stringify = "\x7b\"amount\":1e-7\x7d" ∧
      ∃ payload, Json.read doc.stringify = .ok payload ∧
        canonical (.ofValue payload) = .ok (Text.points "\x7b\"amount\":1e-07\x7d") := by
  intro doc
  have hspelt : Decimal.Spelt ⟨false, 1, -7⟩ :=
    spelt_of_digit (by decide) (by decide) (by decide +kernel) (by decide +kernel)
  have hdoc : doc.Proper Decimal.Spelt :=
    .object (by decide) (List.forall_mem_singleton.mpr (.number hspelt))
  refine ⟨hdoc, by decide +kernel, doc.value, Document.read_stringify hdoc, ?_⟩
  exact canonical_eq_ok_iff.mpr ⟨by decide +kernel, by decide +kernel⟩

end Stepwise.Signature
