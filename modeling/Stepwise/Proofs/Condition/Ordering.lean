import Stepwise.Condition
import Stepwise.Proofs.Number.Integers

/-!
# The order of integers in conditions

The two orderings of a condition put integers, and the decimal texts of integers, at the places of
the doubles nearest to them. They tell two integers apart exactly where these places differ. An
integer beyond the doubles is a fault, although its decimal text is not.
-/

namespace Stepwise.Condition

open Double

/-- An operand is an integer or its decimal text. -/
def Shows (operand : Value) (n : ℤ) : Prop :=
  operand = .int n ∨ operand = .text (String.ofList (showInt n))

/-- An operand is an integer beyond the doubles. -/
def IsTooLarge (operand : Value) : Prop := ∃ n, operand = .int n ∧ IsBeyond n

/-- The two orderings of two operands are those of two integers. -/
def OrdersAs (left right : Value) (a b : ℤ) : Prop :=
  evaluate (.text "greater_than") left right = .ok (Decidable.decide (b < a)) ∧
    evaluate (.text "less_than") left right = .ok (Decidable.decide (a < b))

variable {operand left right : Value} {n a b : ℤ}

theorem number?_of_isTooLarge (h : IsTooLarge operand) : number? operand = .error .intTooLarge := by
  obtain ⟨n, rfl, hbeyond⟩ := h
  rw [number?, ofInt?_eq, if_pos hbeyond]

/-- An integer and its decimal text count as the same double, except beyond the doubles. -/
theorem number?_of_shows (h : Shows operand n) (hlarge : ¬ IsTooLarge operand) :
    number? operand = .ok (some (ofInt n)) := by
  obtain rfl | rfl := h
  · have hbeyond : ¬ IsBeyond n := fun hbeyond => hlarge ⟨n, rfl, hbeyond⟩
    rw [number?, ofInt?_eq, if_neg hbeyond]
  · rw [number?, String.toList_ofList, read?_showInt]

theorem order_of_isTooLarge (hl : Shows left a) (h : IsTooLarge left ∨ IsTooLarge right)
    (greater : Bool) : order greater left right = .error .intTooLarge := by
  unfold order
  by_cases hleft : IsTooLarge left
  · rw [number?_of_isTooLarge hleft]
    rfl
  · rw [number?_of_shows hl hleft, number?_of_isTooLarge (h.resolve_left hleft)]
    rfl

/-- Integers are ordered as their places are. -/
theorem order_of_shows (hl : Shows left a) (hr : Shows right b) (hleft : ¬ IsTooLarge left)
    (hright : ¬ IsTooLarge right) (greater : Bool) : order greater left right =
      .ok (if greater then (placeOf b).less (placeOf a) else (placeOf a).less (placeOf b)) := by
  have hless (m n : ℤ) : (ofInt m).less (ofInt n) = (placeOf m).less (placeOf n) := by
    rw [less, extent?_ofInt, extent?_ofInt, Extent.precede]
  unfold order
  rw [number?_of_shows hl hleft, number?_of_shows hr hright, ← hless, ← hless]
  rfl

theorem evaluate_greaterThan (left right : Value) :
    evaluate (.text "greater_than") left right = order true left right := rfl

theorem evaluate_lessThan (left right : Value) :
    evaluate (.text "less_than") left right = order false left right := rfl

theorem evaluate_of_isTooLarge (hl : Shows left a) (h : IsTooLarge left ∨ IsTooLarge right) :
    evaluate (.text "greater_than") left right = .error .intTooLarge ∧
      evaluate (.text "less_than") left right = .error .intTooLarge :=
  ⟨order_of_isTooLarge hl h true, order_of_isTooLarge hl h false⟩

/-- An ordering holds of two integers if it does and their places differ. -/
theorem evaluate_of_shows (hl : Shows left a) (hr : Shows right b) (hleft : ¬ IsTooLarge left)
    (hright : ¬ IsTooLarge right) :
    evaluate (.text "greater_than") left right =
        .ok (Decidable.decide (b < a ∧ placeOf b ≠ placeOf a)) ∧
      evaluate (.text "less_than") left right =
        .ok (Decidable.decide (a < b ∧ placeOf a ≠ placeOf b)) := by
  have hless (m n : ℤ) : (placeOf m).less (placeOf n) =
      Decidable.decide (m < n ∧ placeOf m ≠ placeOf n) := by
    rw [Bool.eq_iff_iff, decide_eq_true_eq]
    exact placeOf_less_iff
  rw [evaluate_greaterThan, evaluate_lessThan, order_of_shows hl hr hleft hright,
    order_of_shows hl hr hleft hright, if_pos rfl, if_neg Bool.false_ne_true, hless, hless]
  exact ⟨rfl, rfl⟩

/-- Of two integers at one place neither counts as greater. -/
theorem evaluate_of_placeOf_eq (hl : Shows left a) (hr : Shows right b)
    (hleft : ¬ IsTooLarge left) (hright : ¬ IsTooLarge right) (hplace : placeOf a = placeOf b) :
    evaluate (.text "greater_than") left right = .ok false ∧
      evaluate (.text "less_than") left right = .ok false := by
  obtain ⟨hgreater, hless⟩ := evaluate_of_shows hl hr hleft hright
  rw [hgreater, hless, decide_eq_false fun h => h.2 hplace.symm,
    decide_eq_false fun h => h.2 hplace]
  exact ⟨rfl, rfl⟩

/-- Apart from faults, the two orderings are those of the integers exactly if these have two places
or are the same. -/
theorem ordersAs_iff_placeOf (hl : Shows left a) (hr : Shows right b) (hleft : ¬ IsTooLarge left)
    (hright : ¬ IsTooLarge right) :
    OrdersAs left right a b ↔ a = b ∨ placeOf a ≠ placeOf b := by
  obtain ⟨hgreater, hless⟩ := evaluate_of_shows hl hr hleft hright
  rw [OrdersAs, hgreater, hless, Except.ok.injEq, Except.ok.injEq, decide_eq_decide,
    decide_eq_decide, and_iff_left_iff_imp, and_iff_left_iff_imp]
  constructor
  · rintro ⟨hbelow, habove⟩
    obtain hlt | heq | hgt := lt_trichotomy a b
    · exact .inr (habove hlt)
    · exact .inl heq
    · exact .inr (hbelow hgt).symm
  · rintro (rfl | hne)
    · exact ⟨fun h => absurd h (lt_irrefl a), fun h => absurd h (lt_irrefl a)⟩
    · exact ⟨fun _ => hne.symm, fun _ => hne⟩

theorem not_isTooLarge_of_le (h : Shows operand n) (hn : n.natAbs ≤ 2 ^ 53) :
    ¬ IsTooLarge operand := by
  rintro ⟨m, hm, hbeyond⟩
  obtain rfl | rfl := h
  · cases hm
    exact not_isBeyond_of_le hn hbeyond
  · cases hm

/-- The two orderings are those of the integers exactly if no operand is an integer beyond the
doubles and the integers, if they differ, have two places. Where an operand is beyond the doubles,
both are that fault; where two integers have one place, neither holds. Integers of up to 53 binary
digits are always put in their order. -/
theorem ordersAs_iff (hl : Shows left a) (hr : Shows right b) :
    (OrdersAs left right a b ↔
      ¬ IsTooLarge left ∧ ¬ IsTooLarge right ∧ (a = b ∨ placeOf a ≠ placeOf b)) ∧
    (IsTooLarge left ∨ IsTooLarge right →
      evaluate (.text "greater_than") left right = .error .intTooLarge ∧
        evaluate (.text "less_than") left right = .error .intTooLarge) ∧
    (¬ IsTooLarge left → ¬ IsTooLarge right → placeOf a = placeOf b →
      evaluate (.text "greater_than") left right = .ok false ∧
        evaluate (.text "less_than") left right = .ok false) ∧
    (a.natAbs ≤ 2 ^ 53 → b.natAbs ≤ 2 ^ 53 → OrdersAs left right a b) := by
  by_cases hlarge : IsTooLarge left ∨ IsTooLarge right
  · obtain ⟨hgreater, hless⟩ := evaluate_of_isTooLarge hl hlarge
    have hnone : ¬ OrdersAs left right a b := by
      rintro ⟨h, -⟩
      rw [hgreater] at h
      cases h
    refine ⟨iff_of_false hnone ?_, fun _ => ⟨hgreater, hless⟩, ?_, ?_⟩
    · rintro ⟨hleft, hright, -⟩
      exact hlarge.elim hleft hright
    · exact fun hleft hright => absurd hlarge (not_or.mpr ⟨hleft, hright⟩)
    · intro ha hb
      exact absurd hlarge
        (not_or.mpr ⟨not_isTooLarge_of_le hl ha, not_isTooLarge_of_le hr hb⟩)
  · obtain ⟨hleft, hright⟩ := not_or.mp hlarge
    have hiff := ordersAs_iff_placeOf hl hr hleft hright
    refine ⟨?_, fun h => absurd h hlarge, ?_, ?_⟩
    · rw [hiff]
      exact ⟨fun h => ⟨hleft, hright, h⟩, fun h => h.2.2⟩
    · exact fun _ _ => evaluate_of_placeOf_eq hl hr hleft hright
    · intro ha hb
      rw [hiff, placeOf_of_le ha, placeOf_of_le hb]
      exact (em (a = b)).imp_right fun hne h => hne (extent_ofInt_inj h)

/-- An integer in decimal text and its opposite are in order. -/
theorem opposites_ordered : OrdersAs (.text "-9007199254740992") (.int 9007199254740992)
    (-9007199254740992) 9007199254740992 :=
  (ordersAs_iff (.inr (congrArg Value.text (by decide +kernel))) (.inl rfl)).2.2.2
    (by decide) (by decide)

/-- Of two neighbours of 54 binary digits neither counts as greater, and an integer of 310 digits
counts as nothing. -/
theorem neighbours_not_ordered :
    evaluate (.text "greater_than") (.int 9007199254740993) (.int 9007199254740992) = .ok false ∧
    evaluate (.text "less_than") (.int 9007199254740992) (.int 9007199254740993) = .ok false ∧
    evaluate (.text "greater_than") (.int (10 ^ 309)) (.int 0) = .error .intTooLarge := by
  have hsmall {n : ℤ} (h : ¬ IsBeyond n) : ¬ IsTooLarge (.int n) := by
    rintro ⟨m, ⟨⟩, hbeyond⟩
    exact h hbeyond
  have hfirst : ¬ IsTooLarge (.int 9007199254740993) := hsmall (by decide +kernel)
  have hsecond : ¬ IsTooLarge (.int 9007199254740992) := hsmall (by decide +kernel)
  have hplace : placeOf 9007199254740993 = placeOf 9007199254740992 := by decide +kernel
  have hbeyond : IsBeyond (10 ^ 309) := by decide +kernel
  exact ⟨(evaluate_of_placeOf_eq (.inl rfl) (.inl rfl) hfirst hsecond hplace).1,
    (evaluate_of_placeOf_eq (.inl rfl) (.inl rfl) hsecond hfirst hplace.symm).2,
    (evaluate_of_isTooLarge (.inl rfl) (.inl ⟨_, rfl, hbeyond⟩)).1⟩

end Stepwise.Condition
