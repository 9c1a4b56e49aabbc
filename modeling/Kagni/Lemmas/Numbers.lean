import Kagni.Commands.Common
import Kagni.Lemmas.Wire

/-!
# Decimal numbers

`string2ll` accepts the canonical decimals of the signed numbers of 64 bits, and nothing else.
-/

namespace Kagni

/-- A decimal has no leading zero. -/
theorem head_decimalNat {n : Nat} (h : n ≠ 0) : (decimalNat n).head? ≠ some 48 := by
  have hne := Nat.digits_ne_nil_iff_ne_zero (b := 10).2 h
  have hlt := Nat.digits_lt_base (b := 10) (by decide) (List.getLast_mem hne)
  unfold decimalNat
  rw [if_neg h, List.head?_map, List.head?_reverse, List.getLast?_eq_getLast_of_ne_nil hne]
  intro hhead
  have hzero := toNat_digit hlt
  rw [show UInt8.ofNat (48 + (Nat.digits 10 n).getLast hne) = 48 from Option.some.inj hhead] at hzero
  exact Nat.getLast_digit_ne_zero 10 h hzero.symm

theorem digit_eq_ofNat {c : UInt8} (h : isDigit c = true) : UInt8.ofNat (48 + (c.toNat - 48)) = c ∧ c.toNat - 48 < 10 := by
  simp only [isDigit, Bool.decide_and, Bool.and_eq_true, decide_eq_true_eq, UInt8.le_iff_toNat_le] at h
  rw [show (48 : UInt8).toNat = 48 from rfl, show (57 : UInt8).toNat = 57 from rfl] at h
  refine ⟨?_, by omega⟩
  rw [show 48 + (c.toNat - 48) = c.toNat by omega]
  exact UInt8.ofNat_toNat

/-- The decimal of the value of digits without a leading zero. -/
theorem decimalNat_digitsValue {ds : Bytes} (hne : ds ≠ []) (hd : ∀ c ∈ ds, isDigit c = true) (hhead : ds.head? ≠ some 48) :
    decimalNat (digitsValue ds) = ds := by
  have hvalue : digitsValue ds = Nat.ofDigits 10 (ds.reverse.map fun c => c.toNat - 48) := by
    unfold digitsValue
    rw [← List.foldr_reverse]
    induction ds.reverse with
    | nil => rfl
    | cons c l ih =>
      rw [List.foldr_cons, ih, List.map_cons, Nat.ofDigits_cons]
      omega
  have hdigits : Nat.digits 10 (digitsValue ds) = ds.reverse.map fun c => c.toNat - 48 := by
    rw [hvalue]
    refine Nat.digits_ofDigits 10 (by decide) _ (fun d hmem => ?_) fun hne' => ?_
    · obtain ⟨c, hc, rfl⟩ := List.mem_map.1 hmem
      exact (digit_eq_ofNat (hd c (List.mem_reverse.1 hc))).2
    · cases ds with
      | nil => exact absurd rfl hne
      | cons c rest =>
        intro hlast
        have hc := (digit_eq_ofNat (hd c List.mem_cons_self)).1
        simp only [List.reverse_cons, List.map_append, List.map_cons, List.map_nil, List.getLast_append,
          List.getLast_singleton] at hlast
        rw [show c.toNat - 48 = 0 by simpa using hlast] at hc
        exact hhead (congrArg some hc.symm)
  have hzero : digitsValue ds ≠ 0 := by
    intro hzero
    rw [hzero, Nat.digits_zero, eq_comm, List.map_eq_nil_iff, List.reverse_eq_nil_iff] at hdigits
    exact hne hdigits
  unfold decimalNat
  rw [if_neg hzero, hdigits]
  simp only [List.map_reverse, List.reverse_reverse, List.map_map]
  exact (List.map_congr_left fun c hc => (digit_eq_ofNat (hd c hc)).1).trans (List.map_id ds)

theorem string2ll_decimal {n : Int} (h : INT64_MIN ≤ n ∧ n ≤ INT64_MAX) : string2ll (decimal n) = some n := by
  have habs : n.natAbs < 10 ^ MAX_STR_DIGITS := by
    have hsmall : n.natAbs < 10 ^ 19 := by
      unfold INT64_MIN INT64_MAX at h
      omega
    exact lt_of_lt_of_le hsmall (Nat.pow_le_pow_right (by decide) (by decide))
  have hlen : ¬(decimalNat n.natAbs).length > MAX_STR_DIGITS := not_lt.2 (length_decimalNat_le (by decide) habs)
  have hdigits : ¬((decimalNat n.natAbs).any fun c => !isDigit c) = true := by
    simpa using fun c hc => isDigit_of_mem_decimalNat (n := n.natAbs) (c := c) hc
  have hrange : ¬(n < INT64_MIN ∨ INT64_MAX < n) := by omega
  rcases lt_trichotomy n 0 with hn | rfl | hn
  · have hdec : decimal n = 45 :: decimalNat n.natAbs := if_pos hn
    have hhead := head_decimalNat (n := n.natAbs) (by omega)
    unfold string2ll
    rw [hdec, if_neg (by simp), if_neg (by simp)]
    simp only [List.head?_cons, if_true, List.tail_cons, decimalNat_ne_nil, hhead, or_self, if_false, if_neg hdigits, if_neg hlen,
      digitsValue_decimalNat]
    rw [show -(n.natAbs : Int) = n by omega, if_neg hrange]
  · rfl
  · have hdec : decimal n = decimalNat n.natAbs := if_neg (by omega)
    have hhead := head_decimalNat (n := n.natAbs) (by omega)
    have hminus : (decimalNat n.natAbs).head? ≠ some 45 := fun hm =>
      absurd (isDigit_of_mem_decimalNat (List.mem_of_mem_head? hm)) (by decide)
    have hone : decimalNat n.natAbs ≠ [48] := fun h1 => hhead (by rw [h1]; rfl)
    unfold string2ll
    rw [hdec, if_neg (decimalNat_ne_nil _), if_neg hone]
    simp only [if_neg hminus, decimalNat_ne_nil, hhead, or_self, if_false, if_neg hdigits, if_neg hlen, digitsValue_decimalNat]
    rw [show (n.natAbs : Int) = n by omega, if_neg hrange]

/-- What `string2ll` accepts: 0, or digits without a leading zero, after a minus sign or not. -/
theorem string2ll_cases {b : Bytes} {n : Int} (h : string2ll b = some n) :
    (b = [48] ∧ n = 0) ∨ ∃ ds : Bytes, ds ≠ [] ∧ (∀ c ∈ ds, isDigit c = true) ∧ ds.head? ≠ some 48 ∧ ds.length ≤ MAX_STR_DIGITS ∧
      INT64_MIN ≤ n ∧ n ≤ INT64_MAX ∧ ((b = 45 :: ds ∧ n = -digitsValue ds) ∨ (b = ds ∧ n = digitsValue ds)) := by
  unfold string2ll at h
  split at h
  · cases h
  split at h
  · rename_i hzero
    cases h
    exact .inl ⟨hzero, rfl⟩
  · simp only [Option.ite_none_left_eq_some] at h
    obtain ⟨hdigits, hall, hlen, hrange, hn⟩ := h
    have hd : ∀ c ∈ (if b.head? = some 45 then b.tail else b), isDigit c = true := by
      simpa using hall
    have hn' := Option.some.inj hn
    refine .inr ⟨_, fun hnil => hdigits (.inl hnil), hd, fun hhead => hdigits (.inr hhead), not_lt.1 hlen, ?_, ?_, ?_⟩
    · rw [← hn']
      exact not_lt.1 fun hlow => hrange (.inl hlow)
    · rw [← hn']
      exact not_lt.1 fun hhigh => hrange (.inr hhigh)
    · by_cases hneg : b.head? = some 45
      · rw [if_pos hneg] at hn'
        obtain ⟨ds, rfl⟩ := List.head?_eq_some_iff.1 hneg
        exact .inl ⟨rfl, hn'.symm⟩
      · simp only [if_neg hneg] at hn' ⊢
        exact .inr ⟨trivial, hn'.symm⟩

/-- What `string2ll` accepts is a string of digits that `int` reads as the same number. -/
theorem numeric_of_string2ll {b : Bytes} {n : Int} (h : string2ll b = some n) : RE_NUMERIC b = true ∧ pyInt b = some n := by
  rcases string2ll_cases h with ⟨rfl, rfl⟩ | ⟨ds, hne, hd, -, hlen, -, -, ⟨rfl, rfl⟩ | ⟨rfl, rfl⟩⟩
  · exact ⟨rfl, by decide +kernel⟩
  · exact ⟨decide_eq_true ⟨hne, List.all_eq_true.2 hd⟩, pyInt_neg_of_isDigit hne hd hlen⟩
  · have hminus : b.head? ≠ some 45 := fun hm => absurd (hd 45 (List.mem_of_mem_head? hm)) (by decide)
    refine ⟨?_, pyInt_of_isDigit hne hd hlen⟩
    unfold RE_NUMERIC
    rw [if_neg hminus]
    exact decide_eq_true ⟨hne, List.all_eq_true.2 hd⟩

/-- What `string2ll` accepts: the decimals of the signed numbers of 64 bits. -/
theorem string2ll_eq_some_iff {b : Bytes} {n : Int} : string2ll b = some n ↔ b = decimal n ∧ INT64_MIN ≤ n ∧ n ≤ INT64_MAX := by
  refine ⟨fun h => ?_, fun ⟨hb, h⟩ => hb ▸ string2ll_decimal h⟩
  rcases string2ll_cases h with ⟨rfl, rfl⟩ | ⟨ds, hne, hd, hhead, -, hmin, hmax, hcase⟩
  · exact ⟨rfl, by decide⟩
  · refine ⟨?_, hmin, hmax⟩
    have hdec := decimalNat_digitsValue hne hd hhead
    have hpos : digitsValue ds ≠ 0 := fun hzero => by
      rw [hzero] at hdec
      exact hhead (by rw [← hdec]; rfl)
    rcases hcase with ⟨rfl, rfl⟩ | ⟨rfl, rfl⟩
    · rw [decimal, if_pos (by omega), Int.natAbs_neg, Int.natAbs_natCast, hdec]
    · rw [decimal, if_neg (by omega), Int.natAbs_natCast, hdec]

end Kagni
