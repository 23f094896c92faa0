import Mathlib.Tactic.Common
import Stepwise.Proofs.Condition.Ordering
import Stepwise.Proofs.Value.Order

/-!
# The two orderings of a condition

One operand counts as greater than another if and only if the other counts as less than the one,
and where one of the orderings is a fault, the other is that fault. No operand counts as both
greater and less than another, and none as greater than itself.
-/

namespace Stepwise.Condition

open Json Value

variable {left right : Value} {x? y? : Option Double}

/-- An operand counts as a double, as none, or is beyond the doubles. -/
theorem number?_cases (operand : Value) :
    number? operand = .error .intTooLarge ∨ ∃ x?, number? operand = .ok x? := by
  unfold number?
  split
  · split
    · exact .inr ⟨_, rfl⟩
    · exact .inl rfl
  · exact .inr ⟨_, rfl⟩
  · exact .inr ⟨_, rfl⟩
  · exact .inr ⟨_, rfl⟩

theorem order_of_tooLarge (h : number? left = .error .intTooLarge ∨
    number? right = .error .intTooLarge) (greater : Bool) :
    order greater left right = .error .intTooLarge := by
  unfold order
  obtain hleft | ⟨x?, hleft⟩ := number?_cases left
  · rw [hleft]
    rfl
  · rw [hleft, h.resolve_left (by rw [hleft]; nofun)]
    rfl

theorem order_of_doubles {x y : Double} (hleft : number? left = .ok (some x))
    (hright : number? right = .ok (some y)) (greater : Bool) :
    order greater left right = .ok (if greater then y.less x else x.less y) := by
  rw [order, hleft, hright]
  rfl

theorem order_of_values (hleft : number? left = .ok x?) (hright : number? right = .ok y?)
    (h : x? = none ∨ y? = none) (greater : Bool) :
    order greater left right = left.ordered greater right := by
  rw [order, hleft, hright]
  obtain rfl | rfl := h
  · rfl
  · cases x? <;> rfl

/-- One of two operands is beyond the doubles, or both count as doubles, or one counts as none. -/
theorem order_cases (left right : Value) :
    (number? left = .error .intTooLarge ∨ number? right = .error .intTooLarge) ∨
    (∃ x y, number? left = .ok (some x) ∧ number? right = .ok (some y)) ∨
    ∃ x? y?, number? left = .ok x? ∧ number? right = .ok y? ∧ (x? = none ∨ y? = none) := by
  obtain hleft | ⟨x?, hleft⟩ := number?_cases left
  · exact .inl (.inl hleft)
  obtain hright | ⟨y?, hright⟩ := number?_cases right
  · exact .inl (.inr hright)
  cases x? with
  | none => exact .inr (.inr ⟨_, _, hleft, hright, .inl rfl⟩)
  | some x =>
    cases y? with
    | none => exact .inr (.inr ⟨_, _, hleft, hright, .inr rfl⟩)
    | some y => exact .inr (.inl ⟨x, y, hleft, hright⟩)

/-- The two orderings of operands mirror each other. -/
theorem order_mirrors (hl : Clean left) (hr : Clean right) :
    Mirrors (order true left right) (order false right left) := by
  obtain hlarge | ⟨x, y, hleft, hright⟩ | ⟨x?, y?, hleft, hright, hnone⟩ := order_cases left right
  · rw [order_of_tooLarge hlarge, order_of_tooLarge hlarge.symm]
    exact .intTooLarge
  · rw [order_of_doubles hleft hright, order_of_doubles hright hleft]
    exact .result _
  · rw [order_of_values hleft hright hnone, order_of_values hright hleft hnone.symm]
    exact ordered_mirrors hl hr

theorem order_asymm (hl : Clean left) (h : order true left right = .ok true) :
    order false left right ≠ .ok true := by
  obtain hlarge | ⟨x, y, hleft, hright⟩ | ⟨x?, y?, hleft, hright, hnone⟩ := order_cases left right
  · rw [order_of_tooLarge hlarge]
    nofun
  · rw [order_of_doubles hleft hright] at h ⊢
    have hless : y.less x = true := Except.ok.inj h
    simp [Double.less_asymm hless]
  · rw [order_of_values hleft hright hnone] at h ⊢
    exact ordered_asymm hl h

/-- The two orderings mirror each other, no operand is both greater and less than another, and none
is greater than itself. -/
theorem orderings_dual_and_exclusive (hl : Clean left) (hr : Clean right) :
    Mirrors (evaluate (.text "greater_than") left right) (evaluate (.text "less_than") right left) ∧
    ¬ (evaluate (.text "greater_than") left right = .ok true ∧
      evaluate (.text "less_than") left right = .ok true) ∧
    evaluate (.text "greater_than") left left ≠ .ok true := by
  simp only [evaluate_greaterThan, evaluate_lessThan]
  refine ⟨order_mirrors hl hr, fun h => order_asymm hl h.1 h.2, ?_⟩
  intro hself
  have hmirror := order_mirrors hl hl
  rw [hself] at hmirror
  exact order_asymm hl hself hmirror.eq_ok

/-- A NaN is passed over in lists that both have it, and stands in no order by itself. -/
example : (evaluate (.text "greater_than") (.list [.double .nan, .int 2])
      (.list [.double .nan, .int 1])).toOption = some true ∧
    (evaluate (.text "greater_than") (.double .nan) (.double .nan)).toOption = some false := by
  decide +kernel

/-- Lists that begin with one object written in two ways, go on with a NaN, and then differ in a
number, which is no text. -/
theorem nested_lists_dual :
    let left : Value := .list [.object [(.text "x", .int 1), (.text "y", .null)],
      .list [.double .nan, .int 2]]
    let right : Value := .list [.object [(.text "y", .null), (.text "x", .bool true)],
      .list [.double .nan, .text "2"]]
    (Clean left ∧ Clean right) ∧
      Mirrors (evaluate (.text "greater_than") left right)
        (evaluate (.text "less_than") right left) ∧
      ¬ (evaluate (.text "greater_than") left right = .ok true ∧
        evaluate (.text "less_than") left right = .ok true) ∧
      evaluate (.text "greater_than") left left ≠ .ok true := by
  intro left right
  have hleft : Clean left := by
    refine .list (List.forall_mem_cons.mpr ⟨.object ?_ ?_, List.forall_mem_singleton.mpr ?_⟩)
    · exact (Fields.named_nil.cons nofun).cons (by simp)
    · simp [Proper.int, Proper.null]
    · exact .list (by simp [Proper.int, Proper.double])
  have hright : Clean right := by
    refine .list (List.forall_mem_cons.mpr ⟨.object ?_ ?_, List.forall_mem_singleton.mpr ?_⟩)
    · exact (Fields.named_nil.cons nofun).cons (by simp)
    · simp [Proper.bool, Proper.null]
    · exact .list (by simp [Proper.double, Proper.text])
  exact ⟨⟨hleft, hright⟩, orderings_dual_and_exclusive hleft hright⟩

end Stepwise.Condition
