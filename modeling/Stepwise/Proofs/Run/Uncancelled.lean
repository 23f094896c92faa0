import Mathlib.Tactic.Common
import Stepwise.Run.Executor

/-!
# The faults that are no cancellation

Filling a template, comparing operands, building a call and reading its answer can each fail in many
ways, but never as a cancelled run fails. So a run that ends as cancelled was told so.
-/

namespace Stepwise

/-- A result that is not the fault of a cancelled run. -/
def Uncancelled {α : Type} (r : Except Fault α) : Prop := r ≠ .error .cancelled

section

variable {α β : Type}

@[simp] theorem uncancelled_ok (a : α) : Uncancelled (.ok a) := by simp [Uncancelled]

@[simp] theorem uncancelled_error (fault : Fault) :
    Uncancelled (.error fault : Except Fault α) ↔ fault ≠ .cancelled := by simp [Uncancelled]

theorem Uncancelled.bind {r : Except Fault α} {f : α → Except Fault β} (hr : Uncancelled r)
    (hf : ∀ a, Uncancelled (f a)) : Uncancelled (r >>= f) := by
  cases r with
  | ok a => exact hf a
  | error fault => simpa [Uncancelled, Except.bind, Bind.bind] using hr

theorem Uncancelled.map {r : Except Fault α} (hr : Uncancelled r) (f : α → β) :
    Uncancelled (r.map f) := by
  cases r with
  | ok a => exact uncancelled_ok _
  | error fault => simpa [Uncancelled, Except.map] using hr

theorem Uncancelled.mapM {f : α → Except Fault β} {items : List α}
    (hf : ∀ a ∈ items, Uncancelled (f a)) : Uncancelled (items.mapM f) := by
  induction items with
  | nil => exact uncancelled_ok _
  | cons a rest ih =>
    have hrest := ih fun b hb => hf b (List.mem_cons_of_mem a hb)
    rw [List.mapM_cons]
    exact (hf a List.mem_cons_self).bind fun _ => hrest.bind fun _ => uncancelled_ok _

end

namespace Template

theorem uncancelled_readIndex (segment : List Char) : Uncancelled (readIndex segment) := by
  unfold readIndex
  dsimp only
  split_ifs <;> simp

theorem uncancelled_step (value : Value) (segment : List Char) :
    Uncancelled (step value segment) := by
  unfold step
  split
  · simp
  · split_ifs
    · simp
    · exact (uncancelled_readIndex segment).map _
  · simp

theorem uncancelled_walk (value : Value) (path : List (List Char)) :
    Uncancelled (walk value path) := by
  induction path generalizing value with
  | nil => simp [walk]
  | cons segment rest ih =>
    refine (uncancelled_step value segment).bind fun found => ?_
    cases found with
    | none => exact uncancelled_ok _
    | some value => exact ih value

theorem uncancelled_lookup (path : List Char) (root : Fields) :
    Uncancelled (lookup path root) := by
  unfold lookup
  dsimp only
  split_ifs
  · exact uncancelled_walk _ _
  · split
    · exact uncancelled_walk _ _
    · simp

theorem uncancelled_fillPiece (root : Fields) (piece : Piece) :
    Uncancelled (fillPiece root piece) := by
  cases piece with
  | char c => exact uncancelled_ok _
  | token path =>
    refine (uncancelled_lookup path root).bind fun found => ?_
    cases found <;> exact uncancelled_ok _

theorem uncancelled_fillPieces (root : Fields) (pieces : List Piece) :
    Uncancelled (fillPieces root pieces) := by
  induction pieces with
  | nil => exact uncancelled_ok _
  | cons piece rest ih =>
    exact (uncancelled_fillPiece root piece).bind fun _ => ih.bind fun _ => uncancelled_ok _

theorem uncancelled_interpolate (root : Fields) (value : Value) :
    Uncancelled (interpolate root value) := by
  unfold interpolate
  split
  · exact (uncancelled_fillPieces root _).map _
  · simp

theorem uncancelled_resolve (root : Fields) (value : Value) :
    Uncancelled (resolve root value) := by
  unfold resolve
  split
  · split
    · refine (uncancelled_lookup _ root).bind fun found => ?_
      cases found with
      | none => exact uncancelled_interpolate root _
      | some found => exact uncancelled_ok _
    · exact uncancelled_interpolate root _
  · simp

end Template

namespace Value

mutual

theorem uncancelled_ordered (greater : Bool) (a b : Value) :
    Uncancelled (ordered greater a b) := by
  unfold ordered
  split
  · simp
  · exact uncancelled_orderedItems greater _ _
  · split_ifs <;> simp

theorem uncancelled_orderedItems (greater : Bool) (items others : List Value) :
    Uncancelled (orderedItems greater items others) := by
  unfold orderedItems
  split
  · simp
  · simp
  · simp
  · split_ifs
    · exact uncancelled_orderedItems greater _ _
    · exact uncancelled_ordered greater _ _

end

end Value

namespace Condition

theorem uncancelled_number? (value : Value) : Uncancelled (number? value) := by
  unfold number?
  split
  · split <;> simp
  · simp
  · simp
  · simp

theorem uncancelled_order (greater : Bool) (left right : Value) :
    Uncancelled (order greater left right) := by
  refine (uncancelled_number? left).bind fun x => (uncancelled_number? right).bind fun y => ?_
  split
  · exact uncancelled_ok _
  · exact Value.uncancelled_ordered greater left right

theorem uncancelled_evaluate (operator left right : Value) :
    Uncancelled (evaluate operator left right) := by
  unfold evaluate
  split
  · unfold decide
    split
    · simp
    · simp
    · exact uncancelled_order true left right
    · exact uncancelled_order false left right
    · simp
    · simp
  · simp

end Condition

namespace Outbound

theorem uncancelled_asciiText (s : String) : Uncancelled (asciiText s) := by
  unfold asciiText
  split_ifs <;> simp

theorem uncancelled_sendHeader (header : Key × Value) : Uncancelled (sendHeader header) := by
  obtain ⟨key, value⟩ := header
  cases key with
  | text s =>
    refine (uncancelled_asciiText s).bind fun name => ?_
    cases value with
    | text t => exact (uncancelled_asciiText t).bind fun _ => uncancelled_ok _
    | _ => exact (uncancelled_error _).mpr nofun
  | _ => exact (uncancelled_error _).mpr nofun

theorem uncancelled_mergeHeaders (headers : Value) : Uncancelled (mergeHeaders headers) := by
  unfold mergeHeaders
  split
  · simp
  · split_ifs <;> simp

theorem uncancelled_sendMethod (method : Value) : Uncancelled (sendMethod method) := by
  unfold sendMethod
  split <;> simp

theorem uncancelled_sendBody (body : Value) : Uncancelled (sendBody body) := by
  unfold sendBody
  split
  · simp
  · split_ifs <;> simp

theorem uncancelled_build (url method headers body : Value) :
    Uncancelled (Call.build url method headers body) := by
  refine (uncancelled_mergeHeaders headers).bind fun merged =>
    (uncancelled_sendMethod method).bind fun method => ?_
  split
  · exact (Uncancelled.mapM fun header _ => uncancelled_sendHeader header).bind fun _ =>
      (uncancelled_sendBody body).bind fun _ => uncancelled_ok _
  · simp

theorem uncancelled_outcome (url : String) (outcome : Outcome) :
    Uncancelled (Outcome.value url outcome) := by
  unfold Outcome.value
  split
  · unfold Reply.value
    dsimp only
    split_ifs
    · split <;> simp
    · simp
    · simp
  · simp

end Outbound

theorem Run.uncancelled_durationOf (value : Value) : Uncancelled (Run.durationOf value) := by
  unfold Run.durationOf
  split
  · simp
  · split <;> simp
  · simp
  · split <;> simp
  · simp

end Stepwise
