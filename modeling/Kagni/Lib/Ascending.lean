import Mathlib.Order.Lattice
import Mathlib.Tactic.Common

/-!
# Ascending lists

A list that is strictly increasing in a key. A predicate that holds of a smaller key whenever it holds of a larger one splits
such a list at one index, so windows are slices, an element is inserted where its key splits the list, and it stands there
when it is in the list.
-/

namespace Lib

variable {α : Type}

/-! ## Splitting -/

/-- The first `i` elements of the list are those that satisfy `p`. -/
def Splits (p : α → Bool) (l : List α) (i : Nat) : Prop := i ≤ l.length ∧ ∀ n x, l[n]? = some x → (p x = true ↔ n < i)

section Splits

variable {p q : α → Bool} {l : List α} {i j : Nat} {x : α}

theorem splits_cons_zero (h : Splits p (x :: l) 0) : p x = false ∧ Splits p l 0 := by
  refine ⟨?_, Nat.zero_le _, fun n y hy => (h.2 (n + 1) y hy).trans (by omega)⟩
  have := h.2 0 x rfl
  simpa using this

theorem splits_cons_succ (h : Splits p (x :: l) (i + 1)) : p x = true ∧ Splits p l i := by
  exact ⟨(h.2 0 x rfl).2 (Nat.succ_pos i), Nat.le_of_succ_le_succ h.1, fun n y hy => (h.2 (n + 1) y hy).trans (by omega)⟩

theorem Splits.take (h : Splits p l i) : l.take i = l.filter p := by
  induction l generalizing i with
  | nil => simp
  | cons x l ih =>
    cases i with
    | zero =>
      obtain ⟨hx, hl⟩ := splits_cons_zero h
      rw [List.take_zero, List.filter_cons_of_neg (by simp [hx]), ← ih hl, List.take_zero]
    | succ i =>
      obtain ⟨hx, hl⟩ := splits_cons_succ h
      rw [List.take_succ_cons, List.filter_cons_of_pos hx, ih hl]

theorem Splits.drop (h : Splits p l i) : l.drop i = l.filter fun x => !p x := by
  induction l generalizing i with
  | nil => simp
  | cons x l ih =>
    cases i with
    | zero =>
      obtain ⟨hx, hl⟩ := splits_cons_zero h
      rw [List.drop_zero, List.filter_cons_of_pos (by simp [hx]), ← ih hl, List.drop_zero]
    | succ i =>
      obtain ⟨hx, hl⟩ := splits_cons_succ h
      rw [List.drop_succ_cons, List.filter_cons_of_neg (by simp [hx]), ih hl]

theorem Splits.congr (h : Splits p l i) (hpq : ∀ x ∈ l, p x = q x) : Splits q l i :=
  ⟨h.1, fun n x hx => hpq x (List.mem_of_getElem? hx) ▸ h.2 n x hx⟩

/-- The index is the number of elements that satisfy the predicate. -/
theorem Splits.eq_countP (h : Splits p l i) : i = l.countP p := by
  rw [List.countP_eq_length_filter, ← h.take, List.length_take, Nat.min_eq_left h.1]

/-- A slice between two splits is a window. -/
theorem Splits.window (hp : Splits p l i) (hq : Splits q l j) : (l.take j).drop i = l.filter fun x => !p x && q x := by
  induction l generalizing i j with
  | nil => simp
  | cons x l ih =>
    cases j with
    | zero =>
      obtain ⟨hx, hl⟩ := splits_cons_zero hq
      have hnone := hl.take
      rw [List.take_zero] at hnone
      rw [List.take_zero, List.drop_nil, List.filter_cons_of_neg (by simp [hx]), ← List.filter_filter, ← hnone, List.filter_nil]
    | succ j =>
      obtain ⟨hx, hl⟩ := splits_cons_succ hq
      cases i with
      | zero =>
        obtain ⟨hx', hl'⟩ := splits_cons_zero hp
        rw [List.take_succ_cons, List.drop_zero, List.filter_cons_of_pos (by simp [hx, hx']), ← ih hl' hl, List.drop_zero]
      | succ i =>
        obtain ⟨hx', hl'⟩ := splits_cons_succ hp
        rw [List.take_succ_cons, List.drop_succ_cons, List.filter_cons_of_neg (by simp [hx']), ih hl' hl]

/-- What is left when the slice is cut out. -/
theorem Splits.outside (hp : Splits p l i) (hq : Splits q l j) (hij : i ≤ j) :
    l.take i ++ l.drop j = l.filter fun x => !(!p x && q x) := by
  induction l generalizing i j with
  | nil => simp
  | cons x l ih =>
    cases i with
    | zero =>
      obtain ⟨hx', hl'⟩ := splits_cons_zero hp
      cases j with
      | zero =>
        obtain ⟨hx, hl⟩ := splits_cons_zero hq
        rw [List.take_zero, List.drop_zero, List.filter_cons_of_pos (by simp [hx]), ← ih hl' hl (Nat.le_refl 0),
          List.take_zero, List.drop_zero]
        rfl
      | succ j =>
        obtain ⟨hx, hl⟩ := splits_cons_succ hq
        rw [List.take_zero, List.drop_succ_cons, List.filter_cons_of_neg (by simp [hx, hx']), ← ih hl' hl (Nat.zero_le _),
          List.take_zero]
    | succ i =>
      obtain ⟨hx', hl'⟩ := splits_cons_succ hp
      obtain ⟨j, rfl⟩ : ∃ k, j = k + 1 := ⟨j - 1, by omega⟩
      obtain ⟨hx, hl⟩ := splits_cons_succ hq
      rw [List.take_succ_cons, List.drop_succ_cons, List.filter_cons_of_pos (by simp [hx']), ← ih hl' hl
        (Nat.le_of_succ_le_succ hij)]
      rfl

/-- Inserting at a split. -/
theorem Splits.insertIdx (h : Splits p l i) : l.insertIdx i x = l.filter p ++ x :: l.filter fun y => !p y := by
  rw [← h.take, ← h.drop]
  have hi := h.1
  clear h
  induction l generalizing i with
  | nil =>
    obtain rfl := Nat.le_zero.1 hi
    rfl
  | cons y l ih =>
    cases i with
    | zero => rfl
    | succ i =>
      rw [List.insertIdx_succ_cons, ih (Nat.le_of_succ_le_succ hi), List.take_succ_cons, List.drop_succ_cons,
      List.cons_append]

end Splits

/-! ## Ascending lists -/

section Ascending

variable {κ : Type} [LinearOrder κ] {f : α → κ} {l : List α} {x : α} {i : Nat}

/-- Strictly increasing in the key `f`. -/
def Ascending (f : α → κ) (l : List α) : Prop := l.Pairwise fun a b => f a < f b

theorem Ascending.sublist {l' : List α} (h : Ascending f l) (hsub : l'.Sublist l) : Ascending f l' := List.Pairwise.sublist hsub h

theorem Ascending.nodup (h : Ascending f l) : l.Nodup := h.imp fun hlt heq => absurd (heq ▸ hlt) (lt_irrefl _)

/-- An element whose key is new, inserted where its key splits the list. -/
theorem Ascending.insertIdx (h : Ascending f l) (hi : Splits (fun y => decide (f y < f x)) l i) (hnew : ∀ y ∈ l, f y ≠ f x) :
    Ascending f (l.insertIdx i x) := by
  rw [hi.insertIdx]
  refine List.pairwise_append.2 ⟨h.sublist List.filter_sublist, List.pairwise_cons.2 ⟨?_, h.sublist List.filter_sublist⟩, ?_⟩
  · intro b hb
    obtain ⟨hmem, hb⟩ := List.mem_filter.1 hb
    have hge : f x ≤ f b := by simpa using hb
    exact lt_of_le_of_ne hge (hnew b hmem).symm
  · intro a ha b hb
    have hax : f a < f x := by simpa using (List.mem_filter.1 ha).2
    rcases List.mem_cons.1 hb with rfl | hb
    · exact hax
    · have hge : f x ≤ f b := by simpa using (List.mem_filter.1 hb).2
      exact lt_of_lt_of_le hax hge

/-- An element of the list stands where its key splits the list. -/
theorem Ascending.getElem?_split (h : Ascending f l) (hi : Splits (fun y => decide (f y < f x)) l i) (hx : x ∈ l) :
    l[i]? = some x := by
  induction l generalizing i with
  | nil => cases hx
  | cons c l ih =>
    obtain ⟨hc, hl⟩ := List.pairwise_cons.1 h
    rcases List.mem_cons.1 hx with rfl | hx
    · cases i with
      | zero => rfl
      | succ i =>
        have := (splits_cons_succ hi).1
        exact absurd (of_decide_eq_true this) (lt_irrefl _)
    · cases i with
      | zero =>
        have := (splits_cons_zero hi).1
        simp only [decide_eq_false_iff_not, not_lt] at this
        exact absurd (hc x hx) (not_lt.2 this)
      | succ i =>
        rw [List.getElem?_cons_succ]
        exact ih hl (splits_cons_succ hi).2 hx

/-- Deleting it there deletes exactly it. -/
theorem Ascending.mem_eraseIdx (h : Ascending f l) (hi : Splits (fun y => decide (f y < f x)) l i) (hx : x ∈ l) {y : α} :
    y ∈ l.eraseIdx i ↔ y ∈ l ∧ y ≠ x := by
  have hget := h.getElem?_split hi hx
  obtain ⟨hlt, hi'⟩ := List.getElem?_eq_some_iff.1 hget
  constructor
  · intro hy
    refine ⟨List.mem_of_mem_eraseIdx hy, ?_⟩
    rintro rfl
    obtain ⟨n, hne, hn⟩ := List.mem_eraseIdx_iff_getElem?.1 hy
    have hlt' := (List.getElem?_eq_some_iff.1 hn).1
    exact hne ((List.getElem?_inj hlt' h.nodup).1 (hn.trans hget.symm))
  · rintro ⟨hy, hne⟩
    obtain ⟨n, hn⟩ := List.mem_iff_getElem?.1 hy
    refine List.mem_eraseIdx_iff_getElem?.2 ⟨n, ?_, hn⟩
    rintro rfl
    rw [hget] at hn
    exact hne (Option.some.inj hn).symm

end Ascending

end Lib
