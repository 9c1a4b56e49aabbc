import Mathlib.Data.List.Basic
import Mathlib.Tactic.SplitIfs

/-!
# Occurrences

The positions of an element in a list, in ascending order, and the items of a list at the positions that satisfy a condition. Both
follow a list read from its front, from its end and backwards.
-/

namespace Lib

variable {α : Type}

/-! ## Items by position -/

/-- The items at the positions that satisfy `p`. -/
def keepAt (p : Nat → Bool) (l : List α) : List α := (l.zipIdx.filter fun x => p x.2).map Prod.fst

@[simp] theorem keepAt_nil (p : Nat → Bool) : keepAt p ([] : List α) = [] := rfl

theorem keepAt_cons (p : Nat → Bool) (a : α) (l : List α) :
    keepAt p (a :: l) = if p 0 = true then a :: keepAt (fun i => p (i + 1)) l else keepAt (fun i => p (i + 1)) l := by
  have htail : ((l.zipIdx 1).filter fun x => p x.2).map Prod.fst = keepAt (fun i => p (i + 1)) l := by
    rw [List.zipIdx_succ, List.filter_map, List.map_map]
    rfl
  rw [keepAt, List.zipIdx_cons, List.filter_cons]
  dsimp only
  split_ifs
  · rw [List.map_cons, Nat.zero_add, htail]
  · rw [Nat.zero_add, htail]

theorem keepAt_congr {p q : Nat → Bool} {l : List α} (h : ∀ i < l.length, p i = q i) : keepAt p l = keepAt q l := by
  induction l generalizing p q with
  | nil => rfl
  | cons a l ih =>
    have htail := ih fun i hi => h (i + 1) (Nat.succ_lt_succ hi)
    rw [keepAt_cons, keepAt_cons, h 0 (Nat.zero_lt_succ _), htail]

theorem keepAt_concat (p : Nat → Bool) (l : List α) (a : α) :
    keepAt p (l ++ [a]) = keepAt p l ++ if p l.length = true then [a] else [] := by
  induction l generalizing p with
  | nil =>
    rw [List.nil_append, keepAt_cons]
    rfl
  | cons b l ih =>
    rw [List.cons_append, keepAt_cons, keepAt_cons, ih, List.length_cons]
    split_ifs <;> rfl

/-- Backwards, a position is counted from the other end. -/
theorem keepAt_reverse (p : Nat → Bool) (l : List α) :
    keepAt p l.reverse = (keepAt (fun i => p (l.length - 1 - i)) l).reverse := by
  induction l with
  | nil => rfl
  | cons a l ih =>
    have htail : keepAt (fun i => p (l.length - 1 - i)) l = keepAt (fun i => p (l.length - (i + 1))) l := by
      refine keepAt_congr ?_
      intro i _
      rw [Nat.sub_sub, Nat.add_comm 1 i]
    rw [List.reverse_cons, keepAt_concat, ih, keepAt_cons, List.length_reverse, List.length_cons, Nat.add_sub_cancel,
      Nat.sub_zero, htail]
    split_ifs
    · rw [List.reverse_cons]
    · rw [List.append_nil]

/-- The items at the other positions. -/
def omitAt (ps : List Nat) (l : List α) : List α := keepAt (fun i => decide (i ∉ ps)) l

@[simp] theorem omitAt_nil (ps : List Nat) : omitAt ps ([] : List α) = [] := rfl

/-- Of a list without its head the positions are one less. -/
theorem omitAt_cons (ps : List Nat) (a : α) (l : List α) : omitAt (ps.map (· + 1)) (a :: l) = a :: omitAt ps l := by
  have htail : keepAt (fun i => decide (i + 1 ∉ ps.map (· + 1))) l = omitAt ps l := by
    refine keepAt_congr ?_
    intro i _
    simp
  rw [omitAt, keepAt_cons, if_pos (by simp), htail]

theorem omitAt_cons_zero (ps : List Nat) (a : α) (l : List α) : omitAt (0 :: ps.map (· + 1)) (a :: l) = omitAt ps l := by
  have htail : keepAt (fun i => decide (i + 1 ∉ 0 :: ps.map (· + 1))) l = omitAt ps l := by
    refine keepAt_congr ?_
    intro i _
    simp
  rw [omitAt, keepAt_cons, if_neg (by simp), htail]

theorem omitAt_none (l : List α) : omitAt [] l = l := by
  induction l with
  | nil => rfl
  | cons a l ih => exact (omitAt_cons [] a l).trans (congrArg (List.cons a) ih)

/-- Backwards, a position is counted from the other end. -/
theorem omitAt_reverse {ps : List Nat} {l : List α} (h : ∀ i ∈ ps, i < l.length) :
    omitAt (ps.map fun i => l.length - 1 - i).reverse l.reverse = (omitAt ps l).reverse := by
  have hmem : ∀ i < l.length, l.length - 1 - i ∈ (ps.map fun i => l.length - 1 - i).reverse ↔ i ∈ ps := by
    intro i hi
    rw [List.mem_reverse, List.mem_map]
    constructor
    · rintro ⟨j, hj, hij⟩
      have hlt := h j hj
      rwa [show i = j by omega]
    · exact fun hi' => ⟨i, hi', rfl⟩
  rw [omitAt, keepAt_reverse, omitAt]
  exact congrArg List.reverse (keepAt_congr fun i hi => decide_eq_decide.2 (not_congr (hmem i hi)))

/-! ## Positions of an element -/

variable [DecidableEq α]

/-- The positions of `a`. -/
def occurrences (a : α) (l : List α) : List Nat := (List.range l.length).filter fun i => l[i]? = some a

@[simp] theorem occurrences_nil (a : α) : occurrences a [] = [] := rfl

theorem lt_of_mem_occurrences {a : α} {l : List α} {i : Nat} (h : i ∈ occurrences a l) : i < l.length :=
  List.mem_range.1 (List.mem_filter.1 h).1

theorem occurrences_cons (a b : α) (l : List α) :
    occurrences a (b :: l) = if b = a then 0 :: (occurrences a l).map (· + 1) else (occurrences a l).map (· + 1) := by
  have htail : ((List.range l.length).map Nat.succ).filter (fun i => decide ((b :: l)[i]? = some a)) =
      (occurrences a l).map (· + 1) := by
    rw [List.filter_map]
    rfl
  rw [occurrences, List.length_cons, List.range_succ_eq_map, List.filter_cons, htail]
  simp only [List.getElem?_cons_zero, Option.some.injEq, decide_eq_true_eq]

theorem length_occurrences (a : α) (l : List α) : (occurrences a l).length = l.count a := by
  induction l with
  | nil => rfl
  | cons b l ih =>
    rw [occurrences_cons, List.count_cons]
    split_ifs with hb hb' hb'
    · rw [List.length_cons, List.length_map, ih]
    · exact absurd (beq_iff_eq.2 hb) hb'
    · exact absurd (beq_iff_eq.1 hb') hb
    · rw [List.length_map, ih]
      rfl

theorem occurrences_concat (a b : α) (l : List α) :
    occurrences a (l ++ [b]) = occurrences a l ++ if b = a then [l.length] else [] := by
  induction l with
  | nil =>
    rw [List.nil_append, occurrences_cons]
    rfl
  | cons c l ih =>
    rw [List.cons_append, occurrences_cons, occurrences_cons, ih, List.map_append, List.length_cons]
    split_ifs <;> rfl

/-- The positions from the other end, in the other order. -/
theorem occurrences_reverse (a : α) (l : List α) :
    occurrences a l.reverse = ((occurrences a l).map fun i => l.length - 1 - i).reverse := by
  induction l with
  | nil => rfl
  | cons b l ih =>
    have htail : (occurrences a l).map (fun i => l.length - 1 - i) = ((occurrences a l).map (· + 1)).map fun i =>
        l.length - i := by
      rw [List.map_map]
      refine List.map_congr_left ?_
      intro i _
      rw [Nat.sub_sub, Nat.add_comm 1 i]
      rfl
    rw [List.reverse_cons, occurrences_concat, ih, occurrences_cons, List.length_reverse, List.length_cons,
      Nat.add_sub_cancel, htail]
    split_ifs
    · rw [List.map_cons, List.reverse_cons, Nat.sub_zero]
    · rw [List.append_nil]

end Lib
