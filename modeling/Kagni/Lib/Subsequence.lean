import Mathlib.Data.List.Basic
import Mathlib.Order.Bounds.Basic
import Mathlib.Order.MinMax

/-!
# Longest common subsequences

The lengths of the common subsequences of two lists, and how the greatest of them changes when an element is appended to
either list.
-/

namespace Lib

variable {α : Type} {a b c : List α} {x y : α} {m n : Nat}

/-- The lengths of the common subsequences. -/
def commonLengths (a b : List α) : Set Nat := {n | ∃ c : List α, c.Sublist a ∧ c.Sublist b ∧ c.length = n}

/-! ## The last element -/

/-- The last element of a subsequence is the last one of the list, or that one is not used. -/
theorem sublist_concat (h : (c ++ [x]).Sublist (a ++ [y])) : (x = y ∧ c.Sublist a) ∨ (c ++ [x]).Sublist a := by
  obtain ⟨l, l', heq, hl, hl'⟩ := List.sublist_append_iff.1 h
  rcases List.sublist_singleton.1 hl' with rfl | rfl
  · rw [List.append_nil] at heq
    exact .inr (heq ▸ hl)
  · obtain ⟨rfl, hxy⟩ := List.append_inj' heq rfl
    exact .inl ⟨List.singleton_inj.1 hxy, hl⟩

/-- What stands before the last element fits in what stands before the last element of the list. -/
theorem sublist_of_concat (h : (c ++ [x]).Sublist (a ++ [y])) : c.Sublist a := by
  rcases sublist_concat h with ⟨-, h⟩ | h
  · exact h
  · exact (List.sublist_append_left c [x]).trans h

theorem sublist_concat_of_ne (h : (c ++ [x]).Sublist (a ++ [y])) (hne : x ≠ y) : (c ++ [x]).Sublist a :=
  (sublist_concat h).resolve_left fun hc => hne hc.1

/-! ## The greatest length -/

theorem isGreatest_nil_left (b : List α) : IsGreatest (commonLengths [] b) 0 := by
  refine ⟨⟨[], List.nil_sublist _, List.nil_sublist _, rfl⟩, ?_⟩
  rintro n ⟨c, hc, -, rfl⟩
  rw [List.sublist_nil.1 hc]
  exact Nat.le_refl 0

theorem isGreatest_nil_right (a : List α) : IsGreatest (commonLengths a []) 0 := by
  refine ⟨⟨[], List.nil_sublist _, List.nil_sublist _, rfl⟩, ?_⟩
  rintro n ⟨c, -, hc, rfl⟩
  rw [List.sublist_nil.1 hc]
  exact Nat.le_refl 0

/-- An element at the end of both lists is one more. -/
theorem isGreatest_concat_self (h : IsGreatest (commonLengths a b) n) (x : α) :
    IsGreatest (commonLengths (a ++ [x]) (b ++ [x])) (n + 1) := by
  obtain ⟨⟨c, ha, hb, rfl⟩, hmax⟩ := h
  refine ⟨⟨c ++ [x], ha.append_right [x], hb.append_right [x], List.length_append⟩, ?_⟩
  rintro n ⟨d, hda, hdb, rfl⟩
  rcases List.eq_nil_or_concat' d with rfl | ⟨d, z, rfl⟩
  · exact Nat.zero_le _
  · rw [List.length_append]
    exact Nat.succ_le_succ (hmax ⟨d, sublist_of_concat hda, sublist_of_concat hdb, rfl⟩)

/-- Of two different elements at the ends one is not used. -/
theorem isGreatest_concat_of_ne (hxy : x ≠ y) (hup : IsGreatest (commonLengths a (b ++ [y])) m)
    (hleft : IsGreatest (commonLengths (a ++ [x]) b) n) :
    IsGreatest (commonLengths (a ++ [x]) (b ++ [y])) (max m n) := by
  constructor
  · obtain ⟨⟨c, hca, hcb, hc⟩, -⟩ := hup
    obtain ⟨⟨d, hda, hdb, hd⟩, -⟩ := hleft
    rcases max_choice m n with hmax | hmax
    · exact ⟨c, hca.trans (List.sublist_append_left ..), hcb, hc.trans hmax.symm⟩
    · exact ⟨d, hda, hdb.trans (List.sublist_append_left ..), hd.trans hmax.symm⟩
  · rintro k ⟨c, hca, hcb, rfl⟩
    rcases List.eq_nil_or_concat' c with rfl | ⟨c, z, rfl⟩
    · exact Nat.zero_le _
    · by_cases hz : z = x
      · refine le_max_of_le_right (hleft.2 ⟨c ++ [z], hca, sublist_concat_of_ne hcb ?_, rfl⟩)
        exact fun h => hxy (hz.symm.trans h)
      · exact le_max_of_le_left (hup.2 ⟨c ++ [z], sublist_concat_of_ne hca hz, hcb, rfl⟩)

/-! ## Prefixes -/

/-- A prefix and the next element. -/
theorem take_concat (h : a[n]? = some x) : a.take (n + 1) = a.take n ++ [x] := by rw [List.take_add_one, h, Option.toList_some]

/-- The last element of a subsequence of a prefix stands at its end, or in a shorter prefix. -/
theorem sublist_take_succ (h : (c ++ [x]).Sublist (a.take (n + 1))) :
    c.Sublist (a.take n) ∧ (a[n]? ≠ some x → (c ++ [x]).Sublist (a.take n)) := by
  cases hn : a[n]? with
  | none =>
    have hsame : a.take (n + 1) = a.take n := by rw [List.take_add_one, hn, Option.toList_none, List.append_nil]
    rw [hsame] at h
    exact ⟨(List.sublist_append_left c [x]).trans h, fun _ => h⟩
  | some y =>
    rw [take_concat hn] at h
    exact ⟨sublist_of_concat h, fun hne => sublist_concat_of_ne h fun hxy => hne (congrArg some hxy.symm)⟩

end Lib
