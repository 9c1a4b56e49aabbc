import Mathlib.Data.Finset.Image
import Mathlib.Data.Finset.Range
import Mathlib.Data.Finset.Union
import Mathlib.Data.Nat.Bitwise

/-!
# Numbers in a set of bits

A set of natural numbers is a string of bits. A field of it is a window of the string, read with the highest bit first, as a
natural number or in two's complement. What is written into a field is read back from it, and the bits outside stay.
-/

namespace Lib

/-! ## The value of a string of bits -/

/-- The number of the bits `b 0`, …, `b (n - 1)`, the first one the highest. -/
def msbValue (b : Nat → Bool) : Nat → Nat
  | 0 => 0
  | n + 1 => 2 * msbValue b n + (b n).toNat

theorem msbValue_lt (b : Nat → Bool) (n : Nat) : msbValue b n < 2 ^ n := by
  induction n with
  | zero => exact Nat.one_pos
  | succ n ih =>
    have hbit := Bool.toNat_lt (b n)
    rw [msbValue, Nat.pow_succ]
    omega

theorem msbValue_congr {b b' : Nat → Bool} {n : Nat} (h : ∀ k < n, b k = b' k) : msbValue b n = msbValue b' n := by
  induction n with
  | zero => rfl
  | succ n ih => rw [msbValue, msbValue, ih fun k hk => h k (by omega), h n (by omega)]

/-- The bits of a number below `2 ^ n` are a string of its value. -/
theorem msbValue_testBit {x n : Nat} (h : x < 2 ^ n) : msbValue (fun k => x.testBit (n - 1 - k)) n = x := by
  induction n generalizing x with
  | zero => exact (Nat.lt_one_iff.1 h).symm
  | succ n ih =>
    have hrest : msbValue (fun k => x.testBit (n + 1 - 1 - k)) n = x / 2 := by
      rw [← ih (x := x / 2) (by rw [Nat.pow_succ] at h; omega)]
      refine msbValue_congr ?_
      intro k hk
      rw [Nat.testBit_div_two]
      exact congrArg _ (by omega)
    rw [msbValue, hrest, show n + 1 - 1 - n = 0 by omega, Nat.testBit_zero]
    rcases Nat.mod_two_eq_zero_or_one x with hx | hx <;> simp [hx] <;> omega

/-! ## Windows of a set -/

/-- The value of the window of `width` bits at `offset`. -/
def field (bits : Finset Nat) (offset width : Nat) : Nat := msbValue (fun k => decide (offset + k ∈ bits)) width

/-- The set with the window of `width` bits at `offset` replaced by the low bits of `value`. -/
def setField (bits : Finset Nat) (offset width value : Nat) : Finset Nat :=
  bits.filter (fun i => i < offset ∨ offset + width ≤ i) ∪
    ((Finset.range width).filter fun k => value.testBit (width - 1 - k)).image (offset + ·)

theorem mem_setField (bits : Finset Nat) (offset width value i : Nat) : i ∈ setField bits offset width value ↔
    if offset ≤ i ∧ i < offset + width then value.testBit (offset + width - 1 - i) = true else i ∈ bits := by
  simp only [setField, Finset.mem_union, Finset.mem_filter, Finset.mem_image, Finset.mem_range]
  split
  · rename_i hin
    constructor
    · rintro (⟨-, hout⟩ | ⟨k, ⟨-, hk⟩, rfl⟩)
      · omega
      · rwa [show offset + width - 1 - (offset + k) = width - 1 - k by omega]
    · intro hbit
      refine .inr ⟨i - offset, ⟨by omega, ?_⟩, by omega⟩
      rwa [show width - 1 - (i - offset) = offset + width - 1 - i by omega]
  · rename_i hout
    constructor
    · rintro (⟨hi, -⟩ | ⟨k, ⟨hk, -⟩, rfl⟩)
      · exact hi
      · omega
    · exact fun hi => .inl ⟨hi, by omega⟩

/-- What is written is read. -/
theorem field_setField (bits : Finset Nat) {offset width value : Nat} (h : value < 2 ^ width) :
    field (setField bits offset width value) offset width = value := by
  unfold field
  refine Eq.trans (msbValue_congr fun k hk => ?_) (msbValue_testBit h)
  have hbit := mem_setField bits offset width value (offset + k)
  rw [if_pos (by omega), show offset + width - 1 - (offset + k) = width - 1 - k by omega] at hbit
  rw [Bool.eq_iff_iff, decide_eq_true_iff]
  exact hbit

/-- Bits outside the window stay. -/
theorem mem_setField_of_outside {bits : Finset Nat} {offset width value i : Nat} (h : ¬(offset ≤ i ∧ i < offset + width)) :
    i ∈ setField bits offset width value ↔ i ∈ bits := by
  rw [mem_setField, if_neg h]

/-! ## Signed and unsigned numbers of a width -/

section Formats

variable {signed : Bool} {width : Nat}

/-- The least number of a format. -/
def least (signed : Bool) (width : Nat) : Int := if signed then -2 ^ (width - 1) else 0

/-- The greatest number of a format. -/
def greatest (signed : Bool) (width : Nat) : Int := if signed then 2 ^ (width - 1) - 1 else 2 ^ width - 1

/-- The number that a string of `width` bits stands for, in two's complement if it is signed. -/
def reading (signed : Bool) (width : Nat) (n : Nat) : Int := if signed then Int.bmod n (2 ^ width) else n

/-- A number modulo `2 ^ width`, as a number of the format. -/
def wrap (signed : Bool) (width : Nat) (v : Int) : Int := if signed then Int.bmod v (2 ^ width) else v % 2 ^ width

/-- The number of the format that is closest. -/
def clamp (signed : Bool) (width : Nat) (v : Int) : Int := max (least signed width) (min v (greatest signed width))

theorem two_pow_of_pos (h : 0 < width) : (2 : Int) ^ width = 2 * 2 ^ (width - 1) := by
  obtain ⟨w, rfl⟩ := Nat.exists_eq_succ_of_ne_zero (Nat.ne_of_gt h)
  rw [Nat.succ_sub_one, Int.pow_succ, Int.mul_comm]

theorem cast_two_pow (n : Nat) : ((2 ^ n : Nat) : Int) = 2 ^ n := Int.natCast_pow 2 n

/-- Two's complement, from the top bit. -/
theorem wrap_eq (h : 0 < width) (v : Int) :
    wrap signed width v = if signed = true ∧ v % 2 ^ width ≥ 2 ^ (width - 1) then v % 2 ^ width - 2 ^ width
      else v % 2 ^ width := by
  unfold wrap
  cases signed with
  | false => simp
  | true =>
    rw [if_pos rfl, Int.bmod_def, cast_two_pow, two_pow_of_pos h]
    simp only [true_and]
    generalize (2 : Int) ^ (width - 1) = half
    split <;> split <;> omega

/-- The low bits of a number stand for the number of the format. -/
theorem reading_low (v : Int) : reading signed width (v % 2 ^ width).toNat = wrap signed width v := by
  have hpos : (0 : Int) ≤ v % 2 ^ width := Int.emod_nonneg _ (Int.ne_of_gt (Int.pow_pos (by decide)))
  unfold reading wrap
  rw [Int.toNat_of_nonneg hpos, ← cast_two_pow, Int.emod_bmod]

theorem reading_eq {n : Nat} (h : 0 < width) (hn : n < 2 ^ width) :
    reading signed width n = if signed = true ∧ (n : Int) ≥ 2 ^ (width - 1) then (n : Int) - 2 ^ width else n := by
  have hmod : (n : Int) % 2 ^ width = n := Int.emod_eq_of_lt (by omega) (by rw [← cast_two_pow]; exact Int.ofNat_lt.2 hn)
  have hlow : reading signed width ((n : Int) % 2 ^ width).toNat = wrap signed width n := reading_low n
  rw [hmod, Int.toNat_natCast, wrap_eq h, hmod] at hlow
  exact hlow

/-- What is written into a window is read as the number of the format. -/
theorem reading_setField (bits : Finset Nat) (offset : Nat) (v : Int) :
    reading signed width (field (setField bits offset width (v % 2 ^ width).toNat) offset width) = wrap signed width v := by
  have hlt := Int.emod_lt_of_pos v (b := 2 ^ width) (Int.pow_pos (by decide))
  rw [← cast_two_pow] at hlt
  rw [field_setField _ (by rw [← cast_two_pow]; omega), reading_low]

/-- The numbers of the format stay. -/
theorem wrap_of_mem {v : Int} (h : 0 < width) (hlo : least signed width ≤ v) (hhi : v ≤ greatest signed width) :
    wrap signed width v = v := by
  unfold least at hlo
  unfold greatest at hhi
  unfold wrap
  cases signed with
  | false =>
    rw [if_neg Bool.false_ne_true] at *
    exact Int.emod_eq_of_lt hlo (by omega)
  | true =>
    rw [if_pos rfl] at *
    refine Int.bmod_eq_of_le ?_ ?_
    all_goals rw [cast_two_pow, two_pow_of_pos h]; omega

theorem wrap_mem (h : 0 < width) (v : Int) :
    least signed width ≤ wrap signed width v ∧ wrap signed width v ≤ greatest signed width := by
  have hpos : 0 < 2 ^ width := Nat.pow_pos (by decide)
  unfold least greatest wrap
  cases signed with
  | false =>
    have hlt := Int.emod_lt_of_pos v (b := 2 ^ width) (Int.pow_pos (by decide))
    exact ⟨Int.emod_nonneg _ (Int.ne_of_gt (Int.pow_pos (by decide))), by simp only [Bool.false_eq_true, if_false]; omega⟩
  | true =>
    have hlo := Int.le_bmod (x := v) hpos
    have hhi := Int.bmod_lt (x := v) hpos
    rw [cast_two_pow, two_pow_of_pos h] at hlo hhi
    simp only [if_true]
    omega

theorem clamp_mem (h : 0 < width) (v : Int) :
    least signed width ≤ clamp signed width v ∧ clamp signed width v ≤ greatest signed width := by
  have hhalf : (0 : Int) < 2 ^ (width - 1) := Int.pow_pos (by decide)
  have hpow := two_pow_of_pos h
  unfold clamp least greatest
  cases signed with
  | false => simp only [Bool.false_eq_true, if_false]; omega
  | true => simp only [if_true]; omega

end Formats

end Lib
