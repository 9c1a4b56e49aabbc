import Kagni.Lemmas.Numbers

/-!
# Integer arguments

`string2ll` takes the decimals of the signed numbers of 64 bits and nothing else, so a number has one spelling and every
number has one.
-/

namespace Kagni

/-- A string is the canonical decimal of a number: `0`, or digits that do not start with `0`, with a minus sign for a negative
number. -/
inductive Canonical : Bytes → Int → Prop
  | zero : Canonical [48] 0
  | pos {ds : Bytes} : ds ≠ [] → (∀ c ∈ ds, isDigit c = true) → ds.head? ≠ some 48 → Canonical ds (digitsValue ds)
  | neg {ds : Bytes} : ds ≠ [] → (∀ c ∈ ds, isDigit c = true) → ds.head? ≠ some 48 → Canonical (45 :: ds) (-digitsValue ds)

/-- Digits without a leading zero are no zero. -/
theorem digitsValue_ne_zero {ds : Bytes} (hne : ds ≠ []) (hd : ∀ c ∈ ds, isDigit c = true) (hhead : ds.head? ≠ some 48) :
    digitsValue ds ≠ 0 := by
  intro hzero
  have hdec := decimalNat_digitsValue hne hd hhead
  rw [hzero] at hdec
  exact hhead (by rw [← hdec]; rfl)

/-- The canonical decimal is the one that is printed. -/
theorem canonical_iff {s : Bytes} {n : Int} : Canonical s n ↔ s = decimal n := by
  constructor
  · intro h
    cases h with
    | zero => rfl
    | pos hne hd hhead => rw [decimal, if_neg (by omega), Int.natAbs_natCast, decimalNat_digitsValue hne hd hhead]
    | neg hne hd hhead =>
      have hpos := digitsValue_ne_zero hne hd hhead
      rw [decimal, if_pos (by omega), Int.natAbs_neg, Int.natAbs_natCast, decimalNat_digitsValue hne hd hhead]
  · rintro rfl
    have hne := decimalNat_ne_nil n.natAbs
    have hd : ∀ c ∈ decimalNat n.natAbs, isDigit c = true := fun c => isDigit_of_mem_decimalNat
    rcases lt_trichotomy n 0 with hn | rfl | hn
    · have hneg := Canonical.neg hne hd (head_decimalNat (by omega))
      rw [digitsValue_decimalNat, show -(n.natAbs : Int) = n by omega] at hneg
      rwa [decimal, if_pos hn]
    · exact .zero
    · have hpos := Canonical.pos hne hd (head_decimalNat (by omega))
      rw [digitsValue_decimalNat, show (n.natAbs : Int) = n by omega] at hpos
      rwa [decimal, if_neg (by omega)]

/-- `string2ll` is the inverse of printing a signed number of 64 bits. -/
theorem string2ll_exact (s : Bytes) :
    (∀ n, string2ll s = some n ↔ Canonical s n ∧ INT64_MIN ≤ n ∧ n ≤ INT64_MAX) ∧
      (∀ n, INT64_MIN ≤ n → n ≤ INT64_MAX → string2ll (decimal n) = some n) ∧
      ∀ s' n, string2ll s = some n → string2ll s' = some n → s = s' := by
  refine ⟨fun n => ?_, fun n hmin hmax => string2ll_decimal ⟨hmin, hmax⟩, fun s' n h h' => ?_⟩
  · rw [string2ll_eq_some_iff, canonical_iff]
  · exact (string2ll_eq_some_iff.1 h).1.trans (string2ll_eq_some_iff.1 h').1.symm

example : string2ll (bs "-0") = none ∧ string2ll (bs "+1") = none ∧ string2ll (bs "01") = none ∧
    string2ll (bs "9223372036854775808") = none := by
  decide

end Kagni
