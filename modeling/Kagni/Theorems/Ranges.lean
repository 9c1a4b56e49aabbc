import Kagni.Lemmas.Content

/-!
# Ranges of strings

GETRANGE turns an inclusive end into the end of a Python slice, which has a meaning of its own for what is still negative
after that.
-/

namespace Kagni

open Lib

variable {F : Type} {ctx : Ctx} {k : KState F} {key : Bytes} {val : Bytes}

/-- The bytes of a range by the rule of redis: a negative index counts from the end, both are raised to 0 and the end is
lowered to the last byte. -/
def rangeOf (val : Bytes) (start stop : Int) : Bytes :=
  let n : Int := val.length
  let first := max 0 (if start < 0 then start + n else start)
  let last := min (n - 1) (max 0 (if stop < 0 then stop + n else stop))
  if n = 0 ∨ first > last ∨ (start < 0 ∧ stop < 0 ∧ start > stop) then [] else (val.take (last + 1).toNat).drop first.toNat

/-- When the slice is the range, for a string of `n` bytes. An end before the first byte is one only if the slice is empty or
the first byte, as it should be. -/
def RangeFits (n start stop : Int) : Prop :=
  n = 0 ∨ -n ≤ stop ∨
    if start = 0 ∨ start ≤ stop then stop = -2 * n ∧ 2 ≤ n
    else stop = -n - 1 ∨ 2 * n + stop + 1 ≤ max 0 (if start < 0 then start + n else start)

theorem getrange_run (h : (k.store.content ctx.clock.mono).value (.bytes key) = some (.raw (.bytes val))) (start stop : Int) :
    (_getrange (.bytes key) start stop ctx k).1 = .ok
    (.bytes (slice val start (if stop ≥ 0 then stop + 1 else val.length + stop + 1))) := by
  have hsteps : Steps ctx ∅ (k.store.content ctx.clock.mono) (_getrange (.bytes key) start stop)
      (.ok (.bytes (slice val start (if stop ≥ 0 then stop + 1 else val.length + stop + 1)))) (k.store.content ctx.clock.mono) :=
    (steps_string (o := some val) (purges_of_value h) h).bind (.pure _)
  obtain ⟨k', hrun, -⟩ := hsteps k (.none k)
  rw [hrun]

/-- The start of the slice is the first byte of the range, lowered to the length. -/
theorem sliceBound_start (n : Nat) (start : Int) :
    (sliceBound n start : Int) = min (max 0 (if start < 0 then start + n else start)) (n : Int) := by
  unfold sliceBound
  split_ifs <;> omega

/-- An end that is not before the first byte is the last byte of the range. -/
theorem sliceBound_stop {n : Nat} {stop : Int} (h : -(n : Int) ≤ stop) :
    (sliceBound n (if stop ≥ 0 then stop + 1 else n + stop + 1) : Int) = min (n : Int)
    (max 0 (if stop < 0 then stop + n else stop) + 1) := by
  unfold sliceBound
  rcases Int.lt_or_le stop 0 with hstop | hstop
  · rw [if_neg (not_le.2 hstop : ¬ stop ≥ 0), if_pos hstop, if_neg (by omega)]
    omega
  · rw [if_pos (show stop ≥ 0 from hstop), if_neg (not_lt.2 hstop), if_neg (by omega)]
    omega

/-- An end before the first byte is taken from the end again, unless it is the one right before it. -/
theorem sliceBound_before {n : Nat} {stop : Int} (h : stop < -(n : Int)) :
    (sliceBound n (if stop ≥ 0 then stop + 1 else n + stop + 1) : Int) = if stop = -n - 1 then 0 else max 0
    (2 * n + stop + 1) := by
  rw [if_neg (by omega), sliceBound]
  split_ifs <;> omega

theorem slice_of_le {start stop : Int} (h : -(val.length : Int) ≤ stop) :
    slice val start (if stop ≥ 0 then stop + 1 else val.length + stop + 1) = rangeOf val start stop := by
  have hstart := sliceBound_start val.length start
  have hstop := sliceBound_stop h
  have hboth : start < 0 → stop < 0 → stop < start →
      max 0 (if stop < 0 then stop + (val.length : Int) else stop) <
        max 0 (if start < 0 then start + (val.length : Int) else start) := by
    intro h₁ h₂ h₃
    rw [if_pos h₁, if_pos h₂]
    omega
  unfold slice rangeOf
  dsimp only
  generalize sliceBound val.length (if stop ≥ 0 then stop + 1 else val.length + stop + 1) = bound at *
  generalize max 0 (if start < 0 then start + (val.length : Int) else start) = first at *
  generalize max 0 (if stop < 0 then stop + (val.length : Int) else stop) = last at *
  split
  next hempty =>
    have hlast : (val.length : Int) = 0 ∨ first > min ((val.length : Int) - 1) last :=
      hempty.imp_right fun h => h.elim id fun h => (min_le_right _ _).trans_lt (hboth h.1 h.2.1 h.2.2)
    rw [List.drop_eq_nil_iff, List.length_take]
    omega
  next hfull =>
    obtain ⟨-, hfull⟩ := not_or.1 hfull
    have hfirst := not_lt.1 (not_or.1 hfull).1
    rw [show sliceBound val.length start = first.toNat by omega,
      show bound = (min ((val.length : Int) - 1) last + 1).toNat by omega]

/-- A range that ends before the first byte is the first byte, or empty. -/
theorem rangeOf_before {start stop : Int} (h : stop < -(val.length : Int)) :
    rangeOf val start stop = if start = 0 ∨ start ≤ stop then val.take 1 else [] := by
  unfold rangeOf
  dsimp only
  rw [if_pos (show stop < 0 by omega)]
  rcases Nat.eq_zero_or_pos val.length with hn | hn
  · rw [if_pos (.inl (by omega)), List.length_eq_zero_iff.1 hn]
    split_ifs <;> rfl
  by_cases hfirst : start = 0 ∨ start ≤ stop
  · have hzero : max 0 (if start < 0 then start + (val.length : Int) else start) = 0 := by split_ifs <;> omega
    rw [if_pos hfirst, hzero, if_neg (by omega), show (min ((val.length : Int) - 1) (max 0 (stop + val.length)) + 1).toNat =
      1 by omega]
    rfl
  · rw [if_neg hfirst, if_pos]
    rcases Int.lt_or_le start 0 with hstart | hstart
    · exact .inr (.inr ⟨hstart, by omega, by omega⟩)
    · rw [if_neg (not_lt.2 hstart)]
      exact .inr (.inl (by omega))

/-- The slice is the range exactly when it fits. -/
theorem slice_eq_rangeOf_iff (val : Bytes) (start stop : Int) :
    slice val start (if stop ≥ 0 then stop + 1 else val.length + stop + 1) = rangeOf val start stop ↔
      RangeFits val.length start stop := by
  rcases Int.lt_or_le stop (-val.length) with hbefore | hle
  · have hstart := sliceBound_start val.length start
    have hstop := sliceBound_before hbefore
    rw [rangeOf_before hbefore]
    unfold slice RangeFits
    generalize sliceBound val.length (if stop ≥ 0 then stop + 1 else val.length + stop + 1) = bound at *
    by_cases hfirst : start = 0 ∨ start ≤ stop
    · have hzero : max 0 (if start < 0 then start + (val.length : Int) else start) = 0 := by split_ifs <;> omega
      have hdrop : sliceBound val.length start = 0 := by omega
      rw [if_pos hfirst, if_pos hfirst, hdrop, List.drop_zero, List.take_eq_take_iff]
      split_ifs at hstop <;> omega
    · rw [if_neg hfirst, if_neg hfirst, List.drop_eq_nil_iff, List.length_take]
      generalize max 0 (if start < 0 then start + (val.length : Int) else start) = first at *
      split_ifs at hstop <;> omega
  · exact iff_of_true (slice_of_le hle) (.inr (.inl hle))

/-- GETRANGE and SUBSTR follow the rule exactly when the end is not before the first byte, or what the slice makes of it
happens to fit. -/
theorem getrange_iff (h : (k.store.content ctx.clock.mono).value (.bytes key) = some (.raw (.bytes val))) (start stop : Int) :
    ((GETRANGE (.bytes key) start stop ctx k).1 = .ok (.bytes (rangeOf val start stop)) ∧
      (SUBSTR (.bytes key) start stop ctx k).1 = .ok (.bytes (rangeOf val start stop))) ↔ RangeFits val.length start stop := by
  unfold GETRANGE SUBSTR
  rw [getrange_run h, and_self, ← slice_eq_rangeOf_iff]
  simp

/-- On three bytes the end `-6` is one of those that happen to fit. -/
theorem getrange_abc_fits :
    ((GETRANGE (F := Int) (.bytes (bs "k")) 0 (-6) ⟨Env.plain, ⟨0, 0⟩, ⟨∅, ∅⟩, [], 0⟩
      ⟨⟨Dict.set ∅ (.bytes (bs "k")) ⟨.raw (.bytes (bs "abc")), none⟩, ∅⟩, [], 0⟩).1 = .ok (.bytes (rangeOf (bs "abc") 0 (-6))) ∧
      (SUBSTR (F := Int) (.bytes (bs "k")) 0 (-6) ⟨Env.plain, ⟨0, 0⟩, ⟨∅, ∅⟩, [], 0⟩
      ⟨⟨Dict.set ∅ (.bytes (bs "k")) ⟨.raw (.bytes (bs "abc")), none⟩, ∅⟩, [], 0⟩).1 = .ok (.bytes (rangeOf (bs "abc") 0 (-6)))) ↔
      RangeFits (bs "abc").length 0 (-6) :=
  getrange_iff rfl 0 (-6)

/-- `GETRANGE k 0 -5` on three bytes: two of them instead of the first. -/
theorem getrange_before_first :
    (GETRANGE (F := Int) (.bytes (bs "k")) 0 (-5) ⟨Env.plain, ⟨0, 0⟩, ⟨∅, ∅⟩, [], 0⟩
      ⟨⟨Dict.set ∅ (.bytes (bs "k")) ⟨.raw (.bytes (bs "abc")), none⟩, ∅⟩, [], 0⟩).1 = .ok (.bytes (bs "ab")) ∧
      rangeOf (bs "abc") 0 (-5) = bs "a" := ⟨rfl, by decide⟩

end Kagni
