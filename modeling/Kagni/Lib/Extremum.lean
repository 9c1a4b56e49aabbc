import Mathlib.Data.List.Basic
import Mathlib.Order.Bounds.Basic
import Mathlib.Order.MinMax

/-!
# The least of some numbers and non-numbers

A fold that keeps the smaller of two values, where a comparison with what is no number is false: a non-number in front stays,
and one further back is passed over. So the fold depends on the order, and it counts non-numbers as a value `z` only where `z`
is the least anyhow.
-/

namespace Lib

variable {K : Type} [LinearOrder K] {z v : K} {x : Option K} {xs : List (Option K)}

/-- The smaller of two numbers; `none` is no number, and no comparison with it holds. -/
def keepLess : Option K → Option K → Option K
  | some a, some b => if b < a then some b else some a
  | a, _ => a

/-- The numbers of a list. -/
def numbers (xs : List (Option K)) : Set K := {y | some y ∈ xs}

/-- The values of a list, with `z` for what is no number. -/
def filled (z : K) (xs : List (Option K)) : Set K := {y | ∃ x ∈ xs, x.getD z = y}

/-- Where there are numbers beside non-numbers, `z` is the least of them. -/
def Fair (z : K) (xs : List (Option K)) : Prop := none ∈ xs → (∃ x, some x ∈ xs) → IsLeast (numbers xs) z

theorem foldl_keepLess_none (xs : List (Option K)) : xs.foldl keepLess none = none := by
  induction xs with
  | nil => rfl
  | cons x xs ih => exact ih

/-- A number in front ends as the least number. -/
theorem foldl_keepLess_some (a : K) (xs : List (Option K)) :
    ∃ x, xs.foldl keepLess (some a) = some x ∧ IsLeast (numbers (some a :: xs)) x := by
  induction xs generalizing a with
  | nil =>
    refine ⟨a, rfl, List.mem_singleton_self _, fun y hy => ?_⟩
    obtain rfl := Option.some.inj (List.mem_singleton.1 hy)
    exact le_rfl
  | cons y xs ih =>
    cases y with
    | none =>
      obtain ⟨x, hx, hmem, hmin⟩ := ih a
      refine ⟨x, hx, ?_, fun w hw => hmin ?_⟩
      · rcases List.mem_cons.1 hmem with h | h
        · exact List.mem_cons.2 (.inl h)
        · exact List.mem_cons_of_mem _ (List.mem_cons_of_mem _ h)
      · rcases List.mem_cons.1 hw with h | h
        · exact List.mem_cons.2 (.inl h)
        · rcases List.mem_cons.1 h with h | h
          · cases h
          · exact List.mem_cons_of_mem _ h
    | some b =>
      obtain ⟨x, hx, hmem, hmin⟩ := ih (min a b)
      have hkeep : keepLess (some a) (some b) = some (min a b) := by
        rcases lt_or_ge b a with h | h
        · rw [min_eq_right h.le]
          exact if_pos h
        · rw [min_eq_left h]
          exact if_neg h.not_gt
      refine ⟨x, by rw [List.foldl_cons, hkeep]; exact hx, ?_, fun w hw => ?_⟩
      · rcases List.mem_cons.1 hmem with h | h
        · rcases min_choice a b with hmin | hmin
          · exact List.mem_cons.2 (.inl (h.trans (congrArg some hmin)))
          · exact List.mem_cons_of_mem _ (List.mem_cons.2 (.inl (h.trans (congrArg some hmin))))
        · exact List.mem_cons_of_mem _ (List.mem_cons_of_mem _ h)
      · have hle : x ≤ min a b := hmin List.mem_cons_self
        rcases List.mem_cons.1 hw with h | h
        · rw [Option.some.inj h]
          exact hle.trans (min_le_left a b)
        · rcases List.mem_cons.1 h with h | h
          · rw [Option.some.inj h]
            exact hle.trans (min_le_right a b)
          · exact hmin (List.mem_cons_of_mem _ h)

/-- On a fair list the fold finds the least of the values. -/
theorem isLeast_filled (h : Fair z (x :: xs)) : IsLeast (filled z (x :: xs)) ((xs.foldl keepLess x).getD z) := by
  by_cases hnone : none ∈ x :: xs
  · -- the least value is `z`, and so is what the fold finds
    have hleast : IsLeast (filled z (x :: xs)) z := by
      refine ⟨⟨none, hnone, rfl⟩, ?_⟩
      rintro _ ⟨y, hy, rfl⟩
      cases y with
      | none => exact le_rfl
      | some y => exact (h hnone ⟨y, hy⟩).2 hy
    cases x with
    | none => rwa [foldl_keepLess_none]
    | some a =>
      obtain ⟨y, hy, hmin⟩ := foldl_keepLess_some a xs
      rwa [hy, Option.getD_some, hmin.unique (h hnone ⟨a, List.mem_cons_self⟩)]
  · cases x with
    | none => exact absurd List.mem_cons_self hnone
    | some a =>
      obtain ⟨y, hy, hmem, hmin⟩ := foldl_keepLess_some a xs
      rw [hy, Option.getD_some]
      refine ⟨⟨some y, hmem, rfl⟩, ?_⟩
      rintro _ ⟨w, hw, rfl⟩
      cases w with
      | none => exact absurd hw hnone
      | some w => exact hmin hw

/-- If the fold finds the same value whichever element comes first, the list is fair. -/
theorem fair_of_first (h : ∀ x ∈ xs, ∃ rest, (x :: rest).Perm xs ∧ (rest.foldl keepLess x).getD z = v) : Fair z xs := by
  rintro hnone ⟨a, ha⟩
  obtain ⟨rest, -, hz⟩ := h none hnone
  rw [foldl_keepLess_none] at hz
  obtain ⟨rest', hperm, hv⟩ := h (some a) ha
  obtain ⟨y, hy, hmem, hmin⟩ := foldl_keepLess_some a rest'
  rw [hy] at hv
  obtain rfl : y = z := hv.trans hz.symm
  exact ⟨hperm.mem_iff.1 hmem, fun w hw => hmin (hperm.mem_iff.2 hw)⟩

end Lib
