import Mathlib.Data.List.Perm.Subperm
import Mathlib.Tactic.Common
import Stepwise.Proofs.Value.Fields
import Stepwise.Value.Compare

/-!
# The order of values

Equality of values that JSON can hold does not depend on which of them comes first, also where the
fields of objects are written in different orders. So the two orderings mirror each other: what
the one makes of two values the other makes of the same values exchanged, down to the first items
that differ in nested lists and to the fault that they are. No two values are in both orders.
-/

namespace Stepwise.Value

open Json

variable {a b : Value} {fields others : Fields}

/-! ## Equality -/

theorem equalFields_iff_get? : equalFields fields others = true ↔
    ∀ field ∈ fields, ∃ b, others.get? field.1 = some b ∧ field.2.alike b = true := by
  induction fields with
  | nil => simp [equalFields]
  | cons field rest ih =>
    obtain ⟨key, a⟩ := field
    rw [equalFields, Bool.and_eq_true, ih, List.forall_mem_cons]
    refine and_congr_left fun _ => ?_
    cases others.get? key <;> simp [alike]

/-- Each field has one of its name and of an equal value among the others. -/
theorem equalFields_iff (hf : fields.Named) (ho : others.Named) :
    equalFields fields others = true ↔
      ∀ name a, (.text name, a) ∈ fields → ∃ b, (.text name, b) ∈ others ∧ a.alike b = true := by
  rw [equalFields_iff_get?]
  simp only [← Fields.get?_text_eq_some_iff ho.apart]
  constructor
  · exact fun h name a hmem => h _ hmem
  · rintro h ⟨key, a⟩ hmem
    obtain ⟨name, rfl⟩ : ∃ name, key = .text name := hf.texts _ hmem
    exact h name a hmem

/-- Objects of one size have the same names if all names of the one are among those of the other. -/
theorem mem_names_of_subset (hf : fields.Named) (hlength : fields.length = others.length)
    (hsub : fields.map (·.1) ⊆ others.map (·.1)) {field : Key × Value} (h : field ∈ others) :
    ∃ a, (field.1, a) ∈ fields := by
  have hperm : (fields.map (·.1)).Perm (others.map (·.1)) :=
    (List.subperm_of_subset hf.distinct hsub).perm_of_length_le (by simp [hlength])
  have hmem : field.1 ∈ fields.map (·.1) := hperm.mem_iff.mpr (List.mem_map_of_mem h)
  obtain ⟨⟨key, a⟩, hfield, rfl⟩ := List.mem_map.mp hmem
  exact ⟨a, hfield⟩

theorem equalFields_symm (hf : fields.Named) (ho : others.Named)
    (hlength : fields.length = others.length)
    (ih : ∀ field ∈ fields, ∀ other ∈ others, field.2.alike other.2 = other.2.alike field.2)
    (h : equalFields fields others = true) : equalFields others fields = true := by
  rw [equalFields_iff hf ho] at h
  have hsub : fields.map (·.1) ⊆ others.map (·.1) := by
    intro key hkey
    obtain ⟨⟨key, a⟩, hfield, rfl⟩ := List.mem_map.mp hkey
    obtain ⟨name, rfl⟩ : ∃ name, key = .text name := hf.texts _ hfield
    obtain ⟨b, hb, -⟩ := h name a hfield
    exact List.mem_map.mpr ⟨_, hb, rfl⟩
  rw [equalFields_iff ho hf]
  intro name b hb
  obtain ⟨a, ha⟩ := mem_names_of_subset hf hlength hsub hb
  obtain ⟨b', hb', halike⟩ := h name a ha
  -- The two fields of the second object with this name are the same one.
  have hget := (Fields.get?_text_eq_some_iff ho.apart).mpr hb
  rw [(Fields.get?_text_eq_some_iff ho.apart).mpr hb'] at hget
  obtain rfl := Option.some.inj hget
  exact ⟨a, ha, ih _ ha _ hb ▸ halike⟩

theorem equal_object (fields others : Fields) : equal (.object fields) (.object others) =
    (fields.length == others.length && equalFields fields others) := rfl

/-- Values other than lists and objects are equal to each other as texts or as numbers are. -/
theorem equal_comm_of_plain (ho : a.kind ≠ .object) (hl : a.kind ≠ .list) (b : Value) :
    a.equal b = b.equal a := by
  cases a with
  | object => exact absurd rfl ho
  | list => exact absurd rfl hl
  | _ => cases b <;> simp [equal, Extent.coincide_comm, Bool.beq_comm]

theorem alike_comm_of_equal (h : a.equal b = b.equal a) : a.alike b = b.alike a := by
  rw [alike, alike, h, Bool.and_comm]

theorem equalItems_comm {items others : List Value}
    (h : ∀ item ∈ items, ∀ other ∈ others, item.alike other = other.alike item) :
    equalItems items others = equalItems others items := by
  induction items generalizing others with
  | nil => cases others <;> rfl
  | cons item items ih =>
    cases others with
    | nil => rfl
    | cons other others =>
      have hfirst := h item List.mem_cons_self other List.mem_cons_self
      have hrest : equalItems items others = equalItems others items := ih fun a ha b hb =>
        h a (List.mem_cons_of_mem _ ha) b (List.mem_cons_of_mem _ hb)
      show (item.alike other && equalItems items others) =
        (other.alike item && equalItems others items)
      rw [hfirst, hrest]

/-- Equality does not depend on the order of the two values. -/
theorem equal_comm (ha : Clean a) (hb : Clean b) : a.equal b = b.equal a := by
  induction ha generalizing b with
  | list _ ih =>
    cases hb with
    | list hothers =>
      exact equalItems_comm fun a ha b hb => alike_comm_of_equal (ih a ha (hothers b hb))
    | object => rfl
    | _ => exact (equal_comm_of_plain (by nofun) (by nofun) _).symm
  | @object fields hf _ ih =>
    cases hb with
    | list => rfl
    | @object others ho hothers =>
      have hvalues : ∀ field ∈ fields, ∀ other ∈ others,
          field.2.alike other.2 = other.2.alike field.2 :=
        fun field hfield other hother =>
          alike_comm_of_equal (ih field hfield (hothers other hother))
      rw [equal_object, equal_object, Bool.eq_iff_iff, Bool.and_eq_true, Bool.and_eq_true,
        beq_iff_eq, beq_iff_eq]
      constructor
      · rintro ⟨hlength, h⟩
        exact ⟨hlength.symm, equalFields_symm hf ho hlength hvalues h⟩
      · rintro ⟨hlength, h⟩
        exact ⟨hlength.symm, equalFields_symm ho hf hlength
          (fun other hother field hfield => (hvalues field hfield other hother).symm) h⟩
    | _ => exact (equal_comm_of_plain (by nofun) (by nofun) _).symm
  | _ => exact equal_comm_of_plain (by nofun) (by nofun) b

/-! ## Order -/

/-- The outcome of an ordering of two values, and that of the other ordering of the same values
exchanged: the same result, or the same fault, which names the values exchanged too. -/
inductive Mirrors : Except Fault Bool → Except Fault Bool → Prop
  | result (b : Bool) : Mirrors (.ok b) (.ok b)
  | intTooLarge : Mirrors (.error .intTooLarge) (.error .intTooLarge)
  | incomparable (left right : Kind) :
      Mirrors (.error (.incomparable true left right)) (.error (.incomparable false right left))

theorem Mirrors.eq_ok {result : Bool} {mirrored : Except Fault Bool}
    (h : Mirrors (.ok result) mirrored) : mirrored = .ok result := by
  cases h
  rfl

/-- Values that are neither texts nor lists are ordered as numbers, if at all. -/
theorem ordered_of_other (greater : Bool) (ht : ¬ (a.kind = .text ∧ b.kind = .text))
    (hl : ¬ (a.kind = .list ∧ b.kind = .list)) : ordered greater a b =
      if a.isNumeric && b.isNumeric then
        .ok (if greater then Extent.precede b.extent? a.extent?
          else Extent.precede a.extent? b.extent?)
      else .error (.incomparable greater a.kind b.kind) := by
  rw [ordered]
  · rintro s t rfl rfl
    exact ht ⟨rfl, rfl⟩
  · rintro items others rfl rfl
    exact hl ⟨rfl, rfl⟩

theorem ordered_mirrors_of_other (ht : ¬ (a.kind = .text ∧ b.kind = .text))
    (hl : ¬ (a.kind = .list ∧ b.kind = .list)) :
    Mirrors (ordered true a b) (ordered false b a) := by
  rw [ordered_of_other true ht hl, ordered_of_other false (ht ∘ And.symm) (hl ∘ And.symm),
    Bool.and_comm]
  by_cases hnumeric : (b.isNumeric && a.isNumeric) = true
  · rw [if_pos hnumeric, if_pos hnumeric]
    exact .result _
  · rw [if_neg hnumeric, if_neg hnumeric]
    exact .incomparable _ _

theorem orderedItems_mirrors {items others : List Value}
    (h : ∀ item ∈ items, ∀ other ∈ others, item.alike other = other.alike item ∧
      Mirrors (ordered true item other) (ordered false other item)) :
    Mirrors (orderedItems true items others) (orderedItems false others items) := by
  induction items generalizing others with
  | nil => cases others <;> exact .result _
  | cons item items ih =>
    cases others with
    | nil => exact .result _
    | cons other others =>
      obtain ⟨halike, hfirst⟩ := h item List.mem_cons_self other List.mem_cons_self
      rw [orderedItems, orderedItems, halike]
      split_ifs
      · exact ih fun a ha b hb => h a (List.mem_cons_of_mem _ ha) b (List.mem_cons_of_mem _ hb)
      · exact hfirst

/-- The two orderings mirror each other. -/
theorem ordered_mirrors (ha : Clean a) (hb : Clean b) :
    Mirrors (ordered true a b) (ordered false b a) := by
  induction ha generalizing b with
  | text s =>
    cases hb with
    | text t => exact .result _
    | _ => exact ordered_mirrors_of_other (by simp [kind]) (by simp [kind])
  | list hitems ih =>
    cases hb with
    | list hothers =>
      exact orderedItems_mirrors fun item hitem other hother =>
        ⟨alike_comm_of_equal (equal_comm (hitems item hitem) (hothers other hother)),
          ih item hitem (hothers other hother)⟩
    | _ => exact ordered_mirrors_of_other (by simp [kind]) (by simp [kind])
  | _ => exact ordered_mirrors_of_other (by simp [kind]) (by simp [kind])

theorem ordered_asymm_of_other (ht : ¬ (a.kind = .text ∧ b.kind = .text))
    (hl : ¬ (a.kind = .list ∧ b.kind = .list)) (h : ordered true a b = .ok true) :
    ordered false a b ≠ .ok true := by
  rw [ordered_of_other _ ht hl] at h ⊢
  by_cases hnumeric : (a.isNumeric && b.isNumeric) = true
  · rw [if_pos hnumeric] at h ⊢
    have hbelow : Extent.precede b.extent? a.extent? = true := Except.ok.inj h
    simp [Extent.precede_asymm hbelow]
  · rw [if_neg hnumeric]
    nofun

theorem orderedItems_asymm {items others : List Value}
    (h : ∀ item ∈ items, ∀ other ∈ others,
      ordered true item other = .ok true → ordered false item other ≠ .ok true)
    (hgreater : orderedItems true items others = .ok true) :
    orderedItems false items others ≠ .ok true := by
  induction items generalizing others with
  | nil => cases others <;> cases hgreater
  | cons item items ih =>
    cases others with
    | nil => nofun
    | cons other others =>
      rw [orderedItems] at hgreater ⊢
      split_ifs at hgreater ⊢
      · exact ih (fun a ha b hb => h a (List.mem_cons_of_mem _ ha) b (List.mem_cons_of_mem _ hb))
          hgreater
      · exact h item List.mem_cons_self other List.mem_cons_self hgreater

/-- No value comes both after and before another. -/
theorem ordered_asymm (ha : Clean a) (h : ordered true a b = .ok true) :
    ordered false a b ≠ .ok true := by
  induction ha generalizing b with
  | text s =>
    cases b with
    | text t =>
      have hbelow : t < s := of_decide_eq_true (Except.ok.inj h)
      intro habove
      exact String.lt_asymm hbelow (of_decide_eq_true (Except.ok.inj habove))
    | _ => exact ordered_asymm_of_other (by simp [kind]) (by simp [kind]) h
  | list _ ih =>
    cases b with
    | list others => exact orderedItems_asymm (fun item hitem other _ => ih item hitem) h
    | _ => exact ordered_asymm_of_other (by simp [kind]) (by simp [kind]) h
  | _ => exact ordered_asymm_of_other (by simp [kind]) (by simp [kind]) h

end Stepwise.Value
