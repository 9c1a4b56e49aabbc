import Kagni.Hiredis
import Kagni.Lemmas.Parse
import Mathlib.Data.Nat.Digits.Lemmas

/-!
# Decimals and canonical commands

`int` of the decimal of a number is the number, as far as the interpreter converts digit strings at all, and the parser reads a
canonical command, a RESP array of bulk strings, back as the list of its arguments.
-/

namespace Kagni

/-! ## Decimals -/

theorem isDigit_ofNat {d : Nat} (h : d < 10) : isDigit (UInt8.ofNat (48 + d)) = true := by
  interval_cases d <;> decide

theorem toNat_digit {d : Nat} (h : d < 10) : (UInt8.ofNat (48 + d)).toNat - 48 = d := by
  simp only [UInt8.toNat_ofNat']
  omega

theorem isDigit_of_mem_decimalNat {n : Nat} {c : UInt8} (h : c ∈ decimalNat n) : isDigit c = true := by
  unfold decimalNat at h
  split at h
  · rw [List.mem_singleton.1 h]
    decide
  · obtain ⟨d, hd, rfl⟩ := List.mem_map.1 h
    exact isDigit_ofNat (Nat.digits_lt_base (by decide) (List.mem_reverse.1 hd))

theorem decimalNat_ne_nil (n : Nat) : decimalNat n ≠ [] := by
  unfold decimalNat
  split
  · simp
  · rename_i h
    simpa using Nat.digits_ne_nil_iff_ne_zero.2 h

/-- The value of the decimal of `n` is `n`. -/
theorem digitsValue_decimalNat (n : Nat) : digitsValue (decimalNat n) = n := by
  unfold decimalNat
  split
  · rename_i h
    rw [h]
    rfl
  · have hlt : ∀ d ∈ Nat.digits 10 n, d < 10 := fun d hd => Nat.digits_lt_base (by decide) hd
    conv_rhs => rw [← Nat.ofDigits_digits 10 n]
    rw [digitsValue, List.map_reverse, List.foldl_reverse]
    revert hlt
    generalize Nat.digits 10 n = l
    intro hlt
    induction l with
    | nil => rfl
    | cons d l ih =>
      rw [List.map_cons, List.foldr_cons, ih fun e he => hlt e (by simp [he]), toNat_digit (hlt d (by simp)),
        Nat.ofDigits_cons]
      omega

theorem length_decimalNat_le {n k : Nat} (hk : 0 < k) (h : n < 10 ^ k) : (decimalNat n).length ≤ k := by
  unfold decimalNat
  split
  · exact hk
  · simpa using (Nat.digits_length_le_iff (by decide) n).2 h

/-- The digits of a decimal stand for themselves: there is no underscore in them. -/
theorem literalDigits_of_isDigit {ds : Bytes} (hne : ds ≠ []) (h : ∀ c ∈ ds, isDigit c = true) :
    literalDigits ds = some ds := by
  induction ds using literalDigits.induct with
  | case1 => exact absurd rfl hne
  | case2 c hc => simp [literalDigits, hc]
  | case3 c hc => exact absurd (h c (by simp)) hc
  | case4 c rest hc ih => exact absurd (h 95 (by simp)) (by decide)
  | case5 c d rest hc hd ih =>
    rw [literalDigits, if_pos hc, if_neg hd, ih (by simp) fun e he => h e (List.mem_cons_of_mem _ he)]
    rfl
  | case6 c d rest hc => exact absurd (h c (by simp)) hc

theorem isSpace_of_isDigit {c : UInt8} (h : isDigit c = true) : isSpace c = false := by
  simp only [isDigit, Bool.decide_and, Bool.and_eq_true, decide_eq_true_eq, UInt8.le_iff_toNat_le] at h
  simp only [isSpace, decide_eq_false_iff_not, UInt8.le_iff_toNat_le, ← UInt8.toNat_inj]
  rw [show (48 : UInt8).toNat = 48 from rfl, show (57 : UInt8).toNat = 57 from rfl] at h
  rw [show (32 : UInt8).toNat = 32 from rfl, show (9 : UInt8).toNat = 9 from rfl, show (13 : UInt8).toNat = 13 from rfl]
  omega

/-- Nothing is stripped from a string that has no whitespace in it. -/
theorem strip_of_not_isSpace {b : Bytes} (h : ∀ c ∈ b, isSpace c = false) : strip b = b := by
  have drop : ∀ l : Bytes, (∀ c ∈ l, isSpace c = false) → l.dropWhile isSpace = l := by
    intro l hl
    cases l with
    | nil => rfl
    | cons c l => simp [hl c (by simp)]
  rw [strip, drop b h, drop b.reverse fun c hc => h c (List.mem_reverse.1 hc), List.reverse_reverse]

/-- A string of digits has no sign. -/
theorem sign_of_isDigit {ds : Bytes} (hd : ∀ c ∈ ds, isDigit c = true) : sign ds = (false, ds) := by
  unfold sign
  split
  · exact absurd (hd 45 (by simp)) (by decide)
  · exact absurd (hd 43 (by simp)) (by decide)
  · rfl

/-- `int` of a string of digits. -/
theorem pyInt_of_isDigit {ds : Bytes} (hne : ds ≠ []) (hd : ∀ c ∈ ds, isDigit c = true) (hlen : ds.length ≤ MAX_STR_DIGITS) :
    pyInt ds = some (digitsValue ds : Int) := by
  rw [pyInt, strip_of_not_isSpace fun c hc => isSpace_of_isDigit (hd c hc), sign_of_isDigit hd,
    literalDigits_of_isDigit hne hd]
  simp only [if_neg (Nat.not_lt.2 hlen), Bool.false_eq_true, if_false]

/-- `int` of a minus sign and a string of digits. -/
theorem pyInt_neg_of_isDigit {ds : Bytes} (hne : ds ≠ []) (hd : ∀ c ∈ ds, isDigit c = true) (hlen : ds.length ≤ MAX_STR_DIGITS) :
    pyInt (45 :: ds) = some (-(digitsValue ds : Int)) := by
  have hspace : ∀ c ∈ (45 : UInt8) :: ds, isSpace c = false := by
    intro c hc
    rcases List.mem_cons.1 hc with rfl | hc
    · decide
    · exact isSpace_of_isDigit (hd c hc)
  rw [pyInt, strip_of_not_isSpace hspace, sign, literalDigits_of_isDigit hne hd]
  simp only [if_neg (Nat.not_lt.2 hlen), if_true]

/-- `int` inverts the decimal of a natural number of at most `MAX_STR_DIGITS` digits. -/
theorem pyInt_decimalNat {n : Nat} (h : n < 10 ^ MAX_STR_DIGITS) : pyInt (decimalNat n) = some (n : Int) := by
  rw [pyInt_of_isDigit (decimalNat_ne_nil n) (fun c => isDigit_of_mem_decimalNat) (length_decimalNat_le (by decide) h),
    digitsValue_decimalNat]

/-! ## Lines -/

/-- The first CRLF of a line that holds none and its terminator is the terminator. -/
theorem findCrlf_line {line : Bytes} (h : CrlfFree line) (rest : Bytes) :
    findCrlf (line ++ SYM_CRLF ++ rest) = some line.length := by
  unfold CrlfFree at h
  induction line using findCrlf.induct with
  | case1 => simp [SYM_CRLF, findCrlf]
  | case2 c => simp [SYM_CRLF, findCrlf]
  | case3 c d r hcd => simp [findCrlf, hcd] at h
  | case4 c d r hcd ih =>
    simp only [findCrlf, if_neg hcd, Option.map_eq_none_iff] at h
    have := ih h
    simp only [List.cons_append, List.append_assoc] at this ⊢
    simp [findCrlf, hcd, this]

theorem crlfFree_of_forall {l : Bytes} (h : ∀ c ∈ l, c ≠ 13) : CrlfFree l := by
  unfold CrlfFree
  induction l using findCrlf.induct with
  | case1 => rfl
  | case2 c => rfl
  | case3 c d r hcd => exact absurd hcd.1 (h c (by simp))
  | case4 c d r hcd ih => simp [findCrlf, hcd, ih fun e he => h e (List.mem_cons_of_mem _ he)]

theorem not_mem_decimalNat {n : Nat} {c : UInt8} (hc : isDigit c = false) : c ∉ decimalNat n :=
  fun h => by simp [isDigit_of_mem_decimalNat h] at hc

theorem crlfFree_decimalNat (n : Nat) : CrlfFree (decimalNat n) :=
  crlfFree_of_forall fun _ hc e => absurd (e ▸ hc) (not_mem_decimalNat rfl)

theorem crlfFree_decimal (n : Int) : CrlfFree (decimal n) := by
  refine crlfFree_of_forall ?_
  intro c hc e
  unfold decimal at hc
  subst e
  split at hc
  · exact not_mem_decimalNat rfl ((List.mem_cons.1 hc).resolve_left (by decide))
  · exact not_mem_decimalNat rfl hc

theorem _read_line_line (pre rest : Bytes) {line : Bytes} (h : CrlfFree line) :
    _read_line (pre ++ (line ++ SYM_CRLF ++ rest)) pre.length = some (line, pre.length + line.length + 2) := by
  rw [_read_line, List.drop_left, findCrlf_line h, Option.map_some, List.append_assoc, List.take_left]

/-! ## Canonical commands -/

/-- The canonical wire form is what `protocolBuilder` makes of the arguments. -/
theorem protocolBuilder_command (args : List Bytes) :
    protocolBuilder (.ofValue (.array (args.map .bytes))) = some (command args) := by
  have items : ∀ args : List Bytes, _resp_dumps_items ((args.map Value.bytes).map Reply.ofValue) =
      some (args.flatMap fun b => [36 :: decimalNat b.length, b]) := by
    intro args
    induction args with
    | nil => rfl
    | cons b args ih =>
      rw [List.map_cons, List.map_cons, _resp_dumps_items, ih, Reply.ofValue, _resp_dumps]
      rfl
  rw [protocolBuilder, Reply.ofValue, Reply.ofValues_eq_map, _resp_dumps, items]
  simp only [Option.map_some, joinLines, command, List.length_map, List.flatMap_cons]
  congr 2
  rw [List.flatMap_assoc]
  refine List.flatMap_congr ?_
  intro b _
  simp [bulk]

theorem length_command (args : List Bytes) :
    (command args).length = 3 + (decimalNat args.length).length + (args.flatMap bulk).length := by
  simp only [command, SYM_CRLF, List.length_append, List.length_cons, List.length_nil]
  omega

theorem length_le_flatMap_bulk {args : List Bytes} {b : Bytes} (h : b ∈ args) :
    b.length ≤ (args.flatMap bulk).length ∧ args.length ≤ (args.flatMap bulk).length := by
  have one : ∀ b : Bytes, b.length + 1 ≤ (bulk b).length := by
    intro b
    simp only [bulk, SYM_CRLF, List.length_append, List.length_cons, List.length_nil]
    omega
  have all : ∀ args : List Bytes, args.length ≤ (args.flatMap bulk).length := by
    intro args
    induction args with
    | nil => simp
    | cons c args ih =>
      have := one c
      simp only [List.flatMap_cons, List.length_append, List.length_cons] at ih ⊢
      omega
  refine ⟨?_, all args⟩
  obtain ⟨s, t, rfl⟩ := List.append_of_mem h
  have := one b
  simp only [List.flatMap_append, List.flatMap_cons, List.length_append]
  omega

theorem _parse_bulk_bulk (pre rest : Bytes) {b : Bytes} (h : b.length < 10 ^ MAX_STR_DIGITS) :
    _parse_bulk (pre ++ (bulk b ++ rest)) pre.length = .ok (some (.bytes b, pre.length + (bulk b).length)) := by
  have hl : _read_line (pre ++ (bulk b ++ rest)) (pre.length + 1) =
      some (decimalNat b.length, pre.length + 1 + (decimalNat b.length).length + 2) := by
    have := _read_line_line (pre ++ [36]) (b ++ SYM_CRLF ++ rest) (crlfFree_decimalNat b.length)
    simpa [bulk, List.append_assoc] using this
  have hneg : ¬((b.length : Int) = -1) ∧ ¬((b.length : Int) < -1) := by omega
  have hlen : (bulk b).length = (decimalNat b.length).length + b.length + 5 := by
    simp only [bulk, SYM_CRLF, List.length_append, List.length_cons, List.length_nil]
    omega
  obtain ⟨header, hheader⟩ : ∃ header, pre ++ (36 :: decimalNat b.length ++ SYM_CRLF) = header := ⟨_, rfl⟩
  have hbuf : pre ++ (bulk b ++ rest) = header ++ (b ++ (SYM_CRLF ++ rest)) := by
    rw [← hheader]
    simp [bulk, List.append_assoc]
  have hpos : pre.length + 1 + (decimalNat b.length).length + 2 = header.length := by
    rw [← hheader]
    simp only [SYM_CRLF, List.length_append, List.length_cons, List.length_nil]
    omega
  have hpay : (header ++ (b ++ (SYM_CRLF ++ rest))).drop header.length = b ++ (SYM_CRLF ++ rest) := List.drop_left
  have hend : (header ++ (b ++ (SYM_CRLF ++ rest))).drop (header.length + b.length) = SYM_CRLF ++ rest := by
    rw [← List.drop_drop, hpay, List.drop_left]
  have hfit : ¬(header ++ (b ++ (SYM_CRLF ++ rest))).length < header.length + b.length + 2 := by
    simp only [SYM_CRLF, List.length_append, List.length_cons, List.length_nil]
    omega
  rw [_parse_bulk, hl, hpos, hbuf]
  simp only [pyInt_decimalNat h, if_neg hneg.1, if_neg hneg.2, Int.toNat_natCast, if_neg hfit, hend, hpay, List.take_left]
  rw [if_neg fun hc => hc rfl, hlen]
  simp only [Except.ok.injEq, Option.some.injEq, Prod.mk.injEq, true_and]
  omega

theorem _parse_items_bulks (depth : Nat) (pre rest : Bytes) (items : List Value) {args : List Bytes}
    (h : ∀ b ∈ args, b.length < 10 ^ MAX_STR_DIGITS) :
    _parse_items (_parse_message (pre ++ (args.flatMap bulk ++ rest)) (depth + 1)) pre.length items args.length =
      .ok (some (.array (items ++ args.map .bytes), pre.length + (args.flatMap bulk).length)) := by
  induction args generalizing pre items with
  | nil => simp [_parse_items]
  | cons b args ih =>
    have hmark : (pre ++ ((b :: args).flatMap bulk ++ rest))[pre.length]? = some 36 := by
      rw [List.getElem?_append_right le_rfl]
      simp [bulk]
    have hitem : _parse_message (pre ++ ((b :: args).flatMap bulk ++ rest)) (depth + 1) pre.length =
        .ok (some (.bytes b, pre.length + (bulk b).length)) := by
      rw [_parse_message, hmark]
      simp only [show ¬(36 : UInt8) = 42 by decide, if_false, if_true]
      rw [List.flatMap_cons, List.append_assoc]
      exact _parse_bulk_bulk pre _ (h b (by simp))
    rw [List.length_cons, _parse_items, hitem]
    simp only
    have := ih (pre ++ bulk b) (items ++ [.bytes b]) fun c hc => h c (by simp [hc])
    rw [List.length_append] at this
    rw [show pre ++ ((b :: args).flatMap bulk ++ rest) = pre ++ bulk b ++ (args.flatMap bulk ++ rest) by
      simp [List.append_assoc], this]
    simp only [List.flatMap_cons, List.length_append, List.map_cons, List.append_assoc, List.singleton_append,
      Nat.add_assoc]

/-- The parser reads a canonical command back, whatever follows it. -/
theorem _parse_message_command (depth : Nat) {args : List Bytes} (rest : Bytes)
    (h : (command args).length ≤ MAX_BUFFER) :
    _parse_message (command args ++ rest) (depth + 2) 0 =
      .ok (some (.array (args.map .bytes), (command args).length)) := by
  have hlen := length_command args
  have hbig : MAX_BUFFER < 10 ^ MAX_STR_DIGITS := by
    calc MAX_BUFFER < 10 ^ 9 := by decide
      _ ≤ 10 ^ MAX_STR_DIGITS := Nat.pow_le_pow_right (by decide) (by decide)
  have hb : ∀ b ∈ args, b.length < 10 ^ MAX_STR_DIGITS := by
    intro b hb
    have := (length_le_flatMap_bulk hb).1
    omega
  have hn : args.length < 10 ^ MAX_STR_DIGITS := by
    cases args with
    | nil => simp
    | cons b args =>
      have := (length_le_flatMap_bulk (List.mem_cons_self (a := b) (l := args))).2
      omega
  have hl : _read_line (command args ++ rest) 1 =
      some (decimalNat args.length, 1 + (decimalNat args.length).length + 2) := by
    have := _read_line_line [42] (args.flatMap bulk ++ rest) (crlfFree_decimalNat args.length)
    simpa [command, List.append_assoc] using this
  have hmark : (command args ++ rest)[0]? = some 42 := by simp [command]
  have hneg : ¬((args.length : Int) = -1) ∧ ¬((args.length : Int) < -1) := by omega
  rw [_parse_message, hmark]
  simp only [if_true, _parse_array, Nat.zero_add, hl, pyInt_decimalNat hn, if_neg hneg.1, if_neg hneg.2,
    Int.toNat_natCast]
  have := _parse_items_bulks depth (42 :: decimalNat args.length ++ SYM_CRLF) rest [] hb
  rw [show command args ++ rest = 42 :: decimalNat args.length ++ SYM_CRLF ++ (args.flatMap bulk ++ rest) by
      simp [command, List.append_assoc],
    show 1 + (decimalNat args.length).length + 2 = (42 :: decimalNat args.length ++ SYM_CRLF).length by
      simp only [SYM_CRLF, List.length_append, List.length_cons, List.length_nil]
      omega, this]
  simp only [List.nil_append, command, List.length_append]

end Kagni
