import Mathlib.Data.List.Basic
import Mathlib.Data.List.TakeWhile
import Mathlib.Tactic.Common
import Stepwise.Text.Blank

/-!
# Blanks around a text

A text is a row of blanks, a middle part that neither begins nor ends with one, and another row of
blanks. Trimming gives the middle part, so blanks that are put around a text change nothing of it.
-/

namespace Stepwise.Text

/-- There is nothing but blanks. -/
def AllBlank (s : List Char) : Prop := ∀ c ∈ s, isBlank c = true

instance (s : List Char) : Decidable (AllBlank s) :=
  decidable_of_iff (s.all isBlank = true) List.all_eq_true

/-- The text does not begin or end with a blank. -/
structure Unpadded (s : List Char) : Prop where
  first : ∀ c ∈ s.head?, isBlank c = false
  last : ∀ c ∈ s.getLast?, isBlank c = false

instance (s : List Char) : Decidable (Unpadded s) :=
  decidable_of_iff (s.head?.all (!isBlank ·) = true ∧ s.getLast?.all (!isBlank ·) = true)
    ⟨fun h => ⟨by simpa [Option.all_eq_true] using h.1, by simpa [Option.all_eq_true] using h.2⟩,
      fun h => by simpa [Option.all_eq_true] using And.intro h.first h.last⟩

variable {s before after : List Char}

theorem allBlank_nil : AllBlank [] := List.forall_mem_nil _

theorem AllBlank.reverse (h : AllBlank s) : AllBlank s.reverse :=
  fun c hc => h c (List.mem_reverse.mp hc)

theorem AllBlank.append (h : AllBlank s) (h' : AllBlank after) : AllBlank (s ++ after) :=
  List.forall_mem_append.mpr ⟨h, h'⟩

theorem Unpadded.reverse (h : Unpadded s) : Unpadded s.reverse where
  first := by simpa using h.last
  last := by simpa using h.first

/-- Blanks are dropped up to a text that begins with none, and from there on nothing is. -/
theorem dropWhile_blanks (hb : AllBlank before) (hs : ∀ c ∈ s.head?, isBlank c = false) :
    (before ++ s).dropWhile isBlank = s := by
  rw [List.dropWhile_append_of_pos hb]
  cases s with
  | nil => rfl
  | cons c rest => rw [List.dropWhile_cons_of_neg (by simp [hs c rfl])]

/-- Trimming takes off the blanks around a text, and no more. -/
theorem trim_padded (hb : AllBlank before) (ha : AllBlank after) (hs : Unpadded s) :
    trim (before ++ s ++ after) = s := by
  by_cases hempty : s = []
  · subst hempty
    have hall : AllBlank (before ++ [] ++ after) := (hb.append allBlank_nil).append ha
    rw [trim, trimWhile, List.dropWhile_eq_nil_iff.mpr hall]
    rfl
  · have hfirst : ∀ c ∈ (s ++ after).head?, isBlank c = false := by
      rw [List.head?_append_of_ne_nil _ hempty]
      exact hs.first
    rw [trim, trimWhile, List.append_assoc, dropWhile_blanks hb hfirst, List.reverse_append,
      dropWhile_blanks ha.reverse hs.reverse.first, List.reverse_reverse]

theorem Unpadded.trim_eq (h : Unpadded s) : trim s = s := by
  have hpadded := trim_padded allBlank_nil allBlank_nil h
  rwa [List.nil_append, List.append_nil] at hpadded

/-- Every text is what trimming leaves of it, with blanks around. -/
theorem exists_padding (s : List Char) :
    ∃ before after, AllBlank before ∧ AllBlank after ∧ s = before ++ trim s ++ after := by
  -- What is left once the blanks in front are gone, seen from its end.
  let kept := (s.dropWhile isBlank).reverse
  have htrim : trim s = (kept.dropWhile isBlank).reverse := rfl
  have hbefore : AllBlank (s.takeWhile isBlank) := fun c hc => List.mem_takeWhile_imp hc
  have hafter : AllBlank (kept.takeWhile isBlank) := fun c hc => List.mem_takeWhile_imp hc
  refine ⟨_, _, hbefore, hafter.reverse, ?_⟩
  rw [htrim, List.append_assoc, ← List.reverse_append, List.takeWhile_append_dropWhile,
    List.reverse_reverse, List.takeWhile_append_dropWhile]

end Stepwise.Text
