import Kagni.Grammar
import Kagni.Lemmas.Wire

/-!
# The parser reads the grammar

At every position the parser with `n` levels left returns a value exactly where a message with at most `n` levels begins, and
runs out of levels exactly where a stream begins that opens more.
-/

namespace Kagni

open Lib

/-! ## Lines -/

theorem crlfFree_take {l : Bytes} {n : Nat} (h : findCrlf l = some n) :
    CrlfFree (l.take n) ∧ l = l.take n ++ SYM_CRLF ++ l.drop (n + 2) := by
  induction l using findCrlf.induct generalizing n with
  | case1 => cases h
  | case2 c => cases h
  | case3 c d rest hcd =>
    rw [findCrlf, if_pos hcd] at h
    cases h
    obtain ⟨rfl, rfl⟩ := hcd
    exact ⟨rfl, rfl⟩
  | case4 c d rest hcd ih =>
    rw [findCrlf, if_neg hcd] at h
    obtain ⟨k, hk, rfl⟩ := Option.map_eq_some_iff.1 h
    obtain ⟨hfree, heq⟩ := ih hk
    refine ⟨?_, ?_⟩
    · rw [List.take_succ_cons]
      cases k with
      | zero => rfl
      | succ k =>
        rw [List.take_succ_cons] at hfree ⊢
        rw [CrlfFree, findCrlf, if_neg hcd, show findCrlf (d :: rest.take k) = none from hfree]
        rfl
    · rw [List.take_succ_cons, List.cons_append, List.cons_append, List.drop_succ_cons, ← heq]

/-- A line is read where one stands. -/
theorem _read_line_eq_some_iff {buf line : Bytes} {pos npos : Nat} : _read_line buf pos = some (line, npos) ↔
    ∃ rest, buf.drop pos = line ++ SYM_CRLF ++ rest ∧ CrlfFree line ∧ npos = pos + line.length + 2 := by
  unfold _read_line
  constructor
  · intro h
    obtain ⟨n, hn, heq⟩ := Option.map_eq_some_iff.1 h
    obtain ⟨rfl, rfl⟩ := Prod.mk.inj heq
    obtain ⟨hfree, hsplit⟩ := crlfFree_take hn
    refine ⟨_, hsplit, hfree, ?_⟩
    have := findCrlf_lt hn
    rw [List.length_take]
    omega
  · rintro ⟨rest, heq, hfree, rfl⟩
    rw [heq, findCrlf_line hfree, Option.map_some, List.append_assoc, List.take_left]

theorem drop_add_of_eq {buf w rest : Bytes} {pos : Nat} (h : buf.drop pos = w ++ rest) : buf.drop (pos + w.length) = rest := by
  rw [← List.drop_drop, h, List.drop_left]

theorem add_le_of_drop_eq {buf w rest : Bytes} {pos : Nat} (hpos : pos ≤ buf.length) (h : buf.drop pos = w ++ rest) :
    pos + w.length ≤ buf.length := by
  have hlen := congrArg List.length h
  rw [List.length_drop, List.length_append] at hlen
  omega

/-! ## Items -/

/-- At every position of the buffer, `parse` returns the items that begin there and runs out of levels where the stream is too
deep. -/
structure Reads (buf : Bytes) (parse : Nat → Except ParseExc (Option (Value × Nat))) (item : Value → Bytes → Prop)
    (deep : Bytes → Prop) :
    Prop where
  value : ∀ {pos v npos}, pos ≤ buf.length →
    (parse pos = .ok (some (v, npos)) ↔ ∃ w rest, buf.drop pos = w ++ rest ∧ item v w ∧ npos = pos + w.length)
  deep : ∀ {pos}, pos ≤ buf.length → (parse pos = .error .recursion ↔ deep (buf.drop pos))

section Items

variable {buf : Bytes} {parse : Nat → Except ParseExc (Option (Value × Nat))} {item : Value → Bytes → Prop} {deep : Bytes → Prop}

theorem _parse_items_value (h : Reads buf parse item deep) {pos npos : Nat} (hpos : pos ≤ buf.length)
    {items : List Value} {count : Nat}
    {v : Value} : _parse_items parse pos items count = .ok (some (v, npos)) ↔
      ∃ vs ws rest, vs.length = count ∧ List.Forall₂ item vs ws ∧ buf.drop pos = ws.flatten ++ rest ∧ v = .array (items ++ vs) ∧
        npos = pos + ws.flatten.length := by
  induction count generalizing pos items with
  | zero =>
    rw [_parse_items]
    constructor
    · intro heq
      cases heq
      exact ⟨[], [], _, rfl, .nil, rfl, by simp, by simp⟩
    · rintro ⟨vs, ws, rest, hlen, hall, -, rfl, rfl⟩
      obtain rfl := List.length_eq_zero_iff.1 hlen
      cases hall
      simp
  | succ count ih =>
    rw [_parse_items]
    constructor
    · intro heq
      split at heq
      · cases heq
      · cases heq
      · rename_i item' npos' hitem
        obtain ⟨w, rest, hw, hread, rfl⟩ := (h.value hpos).1 hitem
        obtain ⟨vs, ws, rest', hlen, hall, hdrop, rfl, rfl⟩ := (ih (add_le_of_drop_eq hpos hw)).1 heq
        rw [drop_add_of_eq hw] at hdrop
        refine ⟨item' :: vs, w :: ws, rest', by simp [hlen], .cons hread hall, ?_, by simp, ?_⟩
        · rw [hw, hdrop, List.flatten_cons, List.append_assoc]
        · rw [List.flatten_cons, List.length_append, Nat.add_assoc]
    · rintro ⟨vs, ws, rest, hlen, hall, hdrop, rfl, rfl⟩
      cases hall with
      | nil => cases hlen
      | @cons v w vs ws hitem hall =>
        rw [List.flatten_cons, List.append_assoc] at hdrop
        rw [(h.value hpos).2 ⟨w, ws.flatten ++ rest, hdrop, hitem, rfl⟩]
        refine (ih (add_le_of_drop_eq hpos hdrop)).2 ⟨vs, ws, rest, Nat.succ.inj hlen, hall, drop_add_of_eq hdrop, by simp, ?_⟩
        rw [List.flatten_cons, List.length_append, Nat.add_assoc]

theorem _parse_items_deep (h : Reads buf parse item deep) {pos : Nat} (hpos : pos ≤ buf.length)
    {items : List Value} {count : Nat} :
    _parse_items parse pos items count = .error .recursion ↔
      ∃ vs ws rest, vs.length < count ∧ List.Forall₂ item vs ws ∧ buf.drop pos = ws.flatten ++ rest ∧ deep rest := by
  induction count generalizing pos items with
  | zero => exact ⟨nofun, fun ⟨_, _, _, hlt, _⟩ => absurd hlt (Nat.not_lt_zero _)⟩
  | succ count ih =>
    rw [_parse_items]
    constructor
    · intro heq
      split at heq
      · rename_i e hitem
        cases heq
        exact ⟨[], [], _, Nat.succ_pos _, .nil, rfl, (h.deep hpos).1 hitem⟩
      · cases heq
      · rename_i item' npos' hitem
        obtain ⟨w, rest, hw, hread, rfl⟩ := (h.value hpos).1 hitem
        obtain ⟨vs, ws, rest', hlt, hall, hdrop, hdeep⟩ := (ih (add_le_of_drop_eq hpos hw)).1 heq
        rw [drop_add_of_eq hw] at hdrop
        refine ⟨item' :: vs, w :: ws, rest', Nat.succ_lt_succ hlt, .cons hread hall, ?_, hdeep⟩
        rw [hw, hdrop, List.flatten_cons, List.append_assoc]
    · rintro ⟨vs, ws, rest, hlt, hall, hdrop, hdeep⟩
      cases hall with
      | nil =>
        rw [List.flatten_nil, List.nil_append] at hdrop
        rw [(h.deep hpos).2 (hdrop ▸ hdeep)]
      | @cons v w vs ws hitem hall =>
        rw [List.flatten_cons, List.append_assoc] at hdrop
        rw [(h.value hpos).2 ⟨w, ws.flatten ++ rest, hdrop, hitem, rfl⟩]
        exact (ih (add_le_of_drop_eq hpos hdrop)).2 ⟨vs, ws, rest, Nat.succ_lt_succ_iff.1 hlt, hall, drop_add_of_eq hdrop, hdeep⟩

end Items

/-! ## Headers -/

/-- A line that begins behind a marker. -/
theorem _read_line_marker {buf line : Bytes} {pos npos : Nat} {c : UInt8} (hmark : buf[pos]? = some c) :
    _read_line buf (pos + 1) = some (line, npos) ↔
      ∃ rest, buf.drop pos = (c :: line ++ SYM_CRLF) ++ rest ∧ CrlfFree line ∧ npos = pos + (c :: line ++ SYM_CRLF).length := by
  rw [_read_line_eq_some_iff]
  have hdrop : buf.drop pos = c :: buf.drop (pos + 1) := by
    obtain ⟨hlt, rfl⟩ := List.getElem?_eq_some_iff.1 hmark
    exact List.drop_eq_getElem_cons hlt
  have hlen : (c :: line ++ SYM_CRLF).length = line.length + 3 := by
    rw [List.length_append, List.length_cons]
    rfl
  rw [hdrop, hlen]
  refine exists_congr fun rest => and_congr ?_ (and_congr_right fun _ => by omega)
  simp [List.append_assoc]

theorem getElem?_of_drop {buf tail : Bytes} {pos : Nat} {c : UInt8} (h : buf.drop pos = c :: tail) : buf[pos]? = some c := by
  rw [← List.head?_drop, h]
  rfl

/-! ## Bulk strings -/

theorem _parse_bulk_value {buf : Bytes} {pos npos : Nat} {v : Value} (hmark : buf[pos]? = some 36) :
    _parse_bulk buf pos = .ok (some (v, npos)) ↔ ∃ line rest, CrlfFree line ∧
      ((∃ payload, pyInt line = some (payload.length : Int) ∧ v = .bytes payload ∧
          buf.drop pos = (36 :: line ++ SYM_CRLF ++ (payload ++ SYM_CRLF)) ++ rest ∧
          npos = pos + (36 :: line ++ SYM_CRLF ++ (payload ++ SYM_CRLF)).length) ∨
        pyInt line = some (-1) ∧ v = .null ∧ buf.drop pos = (36 :: line ++ SYM_CRLF) ++ rest ∧
          npos = pos + (36 :: line ++ SYM_CRLF).length) := by
  have hpos : pos ≤ buf.length := (List.getElem?_eq_some_iff.1 hmark).1.le
  unfold _parse_bulk
  constructor
  · intro h
    split at h
    · cases h
    · rename_i line npos' hline
      obtain ⟨rest, hdrop, hfree, rfl⟩ := (_read_line_marker hmark).1 hline
      have hrest := drop_add_of_eq hdrop
      have hle := add_le_of_drop_eq hpos hdrop
      refine ⟨line, ?_⟩
      split at h
      · cases h
      · rename_i length hlength
        split at h
        · rename_i hnull
          cases h
          exact ⟨rest, hfree, .inr ⟨hnull ▸ hlength, rfl, hdrop, rfl⟩⟩
        split at h
        · cases h
        split at h
        · cases h
        split at h
        · cases h
        · rename_i h1 h2 h3 h4
          cases h
          rw [not_not, ← List.drop_drop, hrest] at h4
          rw [hrest]
          have hlen : rest.length = buf.length - (pos + (36 :: line ++ SYM_CRLF).length) := by rw [← hrest, List.length_drop]
          have hfit : length.toNat + 2 ≤ rest.length := by omega
          refine ⟨rest.drop (length.toNat + 2), hfree, .inl ⟨rest.take length.toNat, ?_, rfl, ?_, ?_⟩⟩
          · rw [hlength, List.length_take, Nat.min_eq_left (by omega)]
            exact congrArg some (by omega)
          · have hsplit : rest = rest.take length.toNat ++ (SYM_CRLF ++ rest.drop (length.toNat + 2)) := by
              rw [← h4, ← List.drop_drop, List.take_append_drop, List.take_append_drop]
            rw [hdrop]
            conv_lhs => rw [hsplit]
            simp only [List.append_assoc]
          · have hcrlf : SYM_CRLF.length = 2 := rfl
            simp only [List.length_append, List.length_take, hcrlf] at hfit ⊢
            omega
  · rintro ⟨line, rest, hfree, ⟨payload, hlen, rfl, hdrop, rfl⟩ | ⟨hlen, rfl, hdrop, rfl⟩⟩
    · have hdrop' : buf.drop pos = (36 :: line ++ SYM_CRLF) ++ (payload ++ SYM_CRLF ++ rest) := by
        rw [hdrop, List.append_assoc]
      rw [(_read_line_marker hmark).2 ⟨_, hdrop', hfree, rfl⟩]
      have hpay := drop_add_of_eq hdrop'
      have hle := add_le_of_drop_eq hpos hdrop
      have hend : buf.drop (pos + (36 :: line ++ SYM_CRLF).length + payload.length) = SYM_CRLF ++ rest := by
        rw [← List.drop_drop, hpay, List.append_assoc, List.drop_left]
      have hcrlf : SYM_CRLF.length = 2 := rfl
      have hneg : ¬((payload.length : Int) = -1) ∧ ¬((payload.length : Int) < -1) := by omega
      have hfit : ¬buf.length < pos + (36 :: line ++ SYM_CRLF).length + payload.length + 2 := by
        simp only [List.length_append, hcrlf] at hle ⊢
        omega
      have hterm : (SYM_CRLF ++ rest).take 2 = SYM_CRLF := rfl
      simp only [hlen, if_neg hneg.1, if_neg hneg.2, Int.toNat_natCast, if_neg hfit, hend, hterm, ne_eq,
        not_true_eq_false, if_false, hpay]
      rw [List.append_assoc, List.take_left]
      simp only [List.length_append, hcrlf, Nat.add_assoc]
    · rw [(_read_line_marker hmark).2 ⟨_, hdrop, hfree, rfl⟩]
      simp only [hlen, if_true]

theorem _parse_bulk_ne_recursion (buf : Bytes) (pos : Nat) : _parse_bulk buf pos ≠ .error .recursion := by
  unfold _parse_bulk
  split
  · exact nofun
  split
  · exact nofun
  split
  · exact nofun
  split
  · exact nofun
  split
  · exact nofun
  split
  · exact nofun
  · exact nofun

/-! ## Arrays -/

section Array

variable {buf : Bytes} {parse : Nat → Except ParseExc (Option (Value × Nat))} {item : Value → Bytes → Prop} {deep : Bytes → Prop}

theorem _parse_array_value (h : Reads buf parse item deep) {pos npos : Nat} {v : Value} (hmark : buf[pos]? = some 42) :
    _parse_array parse buf pos = .ok (some (v, npos)) ↔ ∃ line rest, CrlfFree line ∧
      ((∃ items frames, pyInt line = some (items.length : Int) ∧ List.Forall₂ item items frames ∧ v = .array items ∧
          buf.drop pos = (42 :: line ++ SYM_CRLF ++ frames.flatten) ++ rest ∧
            npos = pos + (42 :: line ++ SYM_CRLF ++ frames.flatten).length) ∨
        pyInt line = some (-1) ∧ v = .null ∧ buf.drop pos = (42 :: line ++ SYM_CRLF) ++ rest ∧
          npos = pos + (42 :: line ++ SYM_CRLF).length) := by
  have hpos : pos ≤ buf.length := (List.getElem?_eq_some_iff.1 hmark).1.le
  unfold _parse_array
  constructor
  · intro heq
    split at heq
    · cases heq
    · rename_i line npos' hline
      obtain ⟨rest, hdrop, hfree, rfl⟩ := (_read_line_marker hmark).1 hline
      have hrest := drop_add_of_eq hdrop
      have hle := add_le_of_drop_eq hpos hdrop
      refine ⟨line, ?_⟩
      split at heq
      · cases heq
      · rename_i count hcount
        split at heq
        · rename_i hnull
          cases heq
          exact ⟨rest, hfree, .inr ⟨hnull ▸ hcount, rfl, hdrop, rfl⟩⟩
        split at heq
        · cases heq
        · obtain ⟨items, frames, rest', hlen, hall, hframes, rfl, rfl⟩ := (_parse_items_value h hle).1 heq
          rw [hrest] at hframes
          refine ⟨rest', hfree, .inl ⟨items, frames, ?_, hall, rfl, ?_, ?_⟩⟩
          · rw [hcount, hlen]
            exact congrArg some (by omega)
          · rw [hdrop, hframes, List.append_assoc (42 :: line ++ SYM_CRLF)]
          · rw [@List.length_append _ _ frames.flatten, Nat.add_assoc]
  · rintro ⟨line, rest, hfree, ⟨items, frames, hlen, hall, rfl, hdrop, rfl⟩ | ⟨hlen, rfl, hdrop, rfl⟩⟩
    · rw [List.append_assoc (42 :: line ++ SYM_CRLF)] at hdrop
      rw [(_read_line_marker hmark).2 ⟨_, hdrop, hfree, rfl⟩]
      have hneg : ¬((items.length : Int) = -1) ∧ ¬((items.length : Int) < -1) := by omega
      simp only [hlen, if_neg hneg.1, if_neg hneg.2, Int.toNat_natCast]
      refine (_parse_items_value h (add_le_of_drop_eq hpos hdrop)).2
        ⟨items, frames, rest, rfl, hall, drop_add_of_eq hdrop, rfl, ?_⟩
      rw [@List.length_append _ _ frames.flatten, Nat.add_assoc]
    · rw [(_read_line_marker hmark).2 ⟨_, hdrop, hfree, rfl⟩]
      simp only [hlen, if_true]

theorem _parse_array_deep (h : Reads buf parse item deep) {pos : Nat} (hmark : buf[pos]? = some 42) :
    _parse_array parse buf pos = .error .recursion ↔ Opens item deep (buf.drop pos) := by
  have hpos : pos ≤ buf.length := (List.getElem?_eq_some_iff.1 hmark).1.le
  unfold _parse_array
  constructor
  · intro heq
    split at heq
    · cases heq
    · rename_i line npos' hline
      obtain ⟨rest, hdrop, hfree, rfl⟩ := (_read_line_marker hmark).1 hline
      split at heq
      · cases heq
      · rename_i count hcount
        split at heq
        · cases heq
        split at heq
        · cases heq
        · obtain ⟨items, frames, rest', hlt, hall, hframes, hdeep⟩ := (_parse_items_deep h (add_le_of_drop_eq hpos hdrop)).1 heq
          rw [drop_add_of_eq hdrop] at hframes
          rw [hdrop, hframes]
          refine .mk hfree ?_ hall hlt hdeep
          rw [hcount]
          exact congrArg some (by omega)
  · intro hopens
    generalize hstream : buf.drop pos = stream at hopens
    obtain ⟨hfree, hlen, hall, hlt, hdeep⟩ := hopens
    rename_i line count items frames rest
    rw [(_read_line_marker hmark).2 ⟨_, hstream, hfree, rfl⟩]
    have hneg : ¬((count : Int) = -1) ∧ ¬((count : Int) < -1) := by omega
    simp only [hlen]
    rw [if_neg hneg.1, if_neg hneg.2]
    exact (_parse_items_deep h (add_le_of_drop_eq hpos hstream)).2 ⟨items, frames, rest, hlt, hall, drop_add_of_eq hstream, hdeep⟩

end Array

/-! ## Messages -/

/-- The first byte of a line that is not empty, and of an empty one. -/
theorem head?_line (line : Bytes) : (line ++ SYM_CRLF).head? = some (line.headD 13) := by
  cases line <;> rfl

theorem reads_succ {buf : Bytes} {n : Nat} (h : Reads buf (_parse_message buf n) (Message n) (Deep n)) :
    Reads buf (_parse_message buf (n + 1)) (Message (n + 1)) (Deep (n + 1)) where
  value := by
    intro pos v npos hpos
    constructor
    · intro heq
      rw [_parse_message] at heq
      split at heq
      · cases heq
      rename_i marker hmark
      split at heq
      · rename_i hm
        subst hm
        obtain ⟨line, rest, hfree, ⟨items, frames, hlen, hall, rfl, hdrop, rfl⟩ | ⟨hlen, rfl, hdrop, rfl⟩⟩ :=
          (_parse_array_value h hmark).1 heq
        · exact ⟨_, rest, hdrop, .array hfree hlen hall, rfl⟩
        · exact ⟨_, rest, hdrop, .nullArray hfree hlen, rfl⟩
      rename_i h42
      split at heq
      · rename_i hm
        subst hm
        obtain ⟨line, rest, hfree, ⟨payload, hlen, rfl, hdrop, rfl⟩ | ⟨hlen, rfl, hdrop, rfl⟩⟩ := (_parse_bulk_value hmark).1 heq
        · exact ⟨_, rest, hdrop, .bulk hfree hlen, rfl⟩
        · exact ⟨_, rest, hdrop, .nullBulk hfree hlen, rfl⟩
      rename_i h36
      split at heq
      · rename_i hm
        subst hm
        split at heq
        · cases heq
        rename_i line npos' hline
        obtain ⟨rest, hdrop, hfree, rfl⟩ := (_read_line_marker hmark).1 hline
        split at heq
        · cases heq
        · rename_i i hi
          cases heq
          exact ⟨_, rest, hdrop, .int hfree hi, rfl⟩
      rename_i h58
      have hhead (line rest : Bytes) (hdrop : buf.drop pos = line ++ SYM_CRLF ++ rest) : line.headD 13 = marker := by
        have hfirst := congrArg List.head? hdrop
        rw [List.head?_drop, hmark, List.head?_append, head?_line] at hfirst
        exact (Option.some.inj hfirst).symm
      split at heq
      · rename_i hm
        split at heq
        · cases heq
        rename_i line npos' hline
        obtain ⟨rest, hdrop, hfree, rfl⟩ := _read_line_eq_some_iff.1 hline
        cases heq
        refine ⟨_, rest, hdrop, .simple hfree ?_, by rw [List.length_append, ← Nat.add_assoc]; rfl⟩
        have := hhead _ _ hdrop
        cases line with
        | nil =>
          subst this
          exact absurd hm (by decide)
        | cons c line =>
          obtain rfl : c = marker := this
          exact hm.imp (congrArg some) (congrArg some)
      · rename_i hm
        split at heq
        · cases heq
        rename_i line npos' hline
        obtain ⟨rest, hdrop, hfree, rfl⟩ := _read_line_eq_some_iff.1 hline
        cases heq
        refine ⟨_, rest, hdrop, .inline hfree (fun c hc => ?_), by rw [List.length_append, ← Nat.add_assoc]; rfl⟩
        have := hhead _ _ hdrop
        cases line with
        | nil => cases hc
        | cons d line =>
          obtain rfl : d = c := Option.some.inj hc
          obtain rfl : d = marker := this
          rw [not_or] at hm
          simp [h42, h36, h58, hm.1, hm.2]
    · rintro ⟨w, rest, hdrop, hframe, rfl⟩
      rw [_parse_message]
      cases hframe with
      | @bulk line payload hline hlen =>
        have hmark : buf[pos]? = some 36 := getElem?_of_drop hdrop
        rw [hmark]
        exact (_parse_bulk_value hmark).2 ⟨line, rest, hline, .inl ⟨payload, hlen, rfl, hdrop, rfl⟩⟩
      | @nullBulk line hline hlen =>
        have hmark : buf[pos]? = some 36 := getElem?_of_drop hdrop
        rw [hmark]
        exact (_parse_bulk_value hmark).2 ⟨line, rest, hline, .inr ⟨hlen, rfl, hdrop, rfl⟩⟩
      | @int line i hline hi =>
        have hmark : buf[pos]? = some 58 := getElem?_of_drop hdrop
        have hread := (_read_line_marker hmark).2 ⟨rest, hdrop, hline, rfl⟩
        rw [hmark]
        simp only [show ¬(58 : UInt8) = 42 by decide, show ¬(58 : UInt8) = 36 by decide, if_false, if_true, hread, hi]
      | @simple line hline hm =>
        obtain ⟨c, hc⟩ : ∃ c, line.head? = some c := hm.elim (fun h => ⟨_, h⟩) fun h => ⟨_, h⟩
        have hmark : buf[pos]? = some c := by
          rw [← List.head?_drop, hdrop, List.append_assoc, List.head?_append, hc]
          rfl
        have hread := _read_line_eq_some_iff.2 ⟨rest, hdrop, hline, rfl⟩
        rw [hc] at hm
        rw [hmark]
        obtain h43 | h45 := hm
        · cases h43
          simp [hread, SYM_CRLF, Nat.add_assoc]
        · cases h45
          simp [hread, SYM_CRLF, Nat.add_assoc]
      | @inline line hline hm =>
        have hread := _read_line_eq_some_iff.2 ⟨rest, hdrop, hline, rfl⟩
        have hmark : buf[pos]? = some (line.headD 13) := by
          rw [← List.head?_drop, hdrop, List.head?_append, head?_line]
          rfl
        have hnone : line.headD 13 ∉ [42, 36, 58, 43, 45] := by
          cases line with
          | nil => decide
          | cons c line => exact hm c rfl
        simp only [List.mem_cons, List.not_mem_nil, or_false, not_or] at hnone
        obtain ⟨h42, h36, h58, h43, h45⟩ := hnone
        rw [hmark]
        simp only [h42, h36, h58, h43, h45, or_false, if_false, hread]
        simp [SYM_CRLF, Nat.add_assoc]
      | @nullArray line hline hlen =>
        have hmark : buf[pos]? = some 42 := getElem?_of_drop hdrop
        rw [hmark]
        exact (_parse_array_value h hmark).2 ⟨line, rest, hline, .inr ⟨hlen, rfl, hdrop, rfl⟩⟩
      | @array line items frames hline hlen hitems =>
        have hmark : buf[pos]? = some 42 := getElem?_of_drop hdrop
        rw [hmark]
        exact (_parse_array_value h hmark).2 ⟨line, rest, hline, .inl ⟨items, frames, hlen, hitems, rfl, hdrop, rfl⟩⟩
  deep := by
    intro pos hpos
    rw [_parse_message]
    constructor
    · intro heq
      split at heq
      · cases heq
      rename_i marker hmark
      split at heq
      · rename_i hm
        subst hm
        exact (_parse_array_deep h hmark).1 heq
      split at heq
      · exact absurd heq (_parse_bulk_ne_recursion buf pos)
      split at heq
      · split at heq
        · cases heq
        split at heq
        · cases heq
        · cases heq
      split at heq
      all_goals
        split at heq
        · cases heq
        · cases heq
    · intro hdeep
      have hmark : buf[pos]? = some 42 := by
        generalize hstream : buf.drop pos = stream at hdeep
        obtain ⟨-, -, -, -, -⟩ := hdeep
        exact getElem?_of_drop hstream
      rw [hmark]
      exact (_parse_array_deep h hmark).2 hdeep

/-- The parser with `n` levels left reads the messages with at most `n` levels, and runs out of levels exactly in deeper
streams. -/
theorem reads_message (buf : Bytes) (n : Nat) : Reads buf (_parse_message buf n) (Message n) (Deep n) := by
  induction n with
  | zero => exact ⟨fun _ => ⟨nofun, fun ⟨_, _, _, h, _⟩ => h.elim⟩, fun _ => ⟨fun _ => trivial, fun _ => rfl⟩⟩
  | succ n ih => exact reads_succ ih

/-- Read from the front of a buffer. -/
theorem parseFront_eq_some_iff {n k : Nat} {buf : Bytes} {v : Value} : parseFront n buf = .ok (some (v, k)) ↔
    ∃ w rest, buf = w ++ rest ∧ Message n v w ∧ k = w.length := by
  rw [parseFront, (reads_message buf n).value (Nat.zero_le _)]
  simp only [List.drop_zero, Nat.zero_add]

theorem frames_iff {n : Nat} {frames : List Bytes} {vs : List Value} :
    FrameParser.Frames (parseFront n) frames vs ↔ List.Forall₂ (fun w v => Message n v w) frames vs := by
  have hone (w : Bytes) (v : Value) : parseFront n w = .ok (some (v, w.length)) ↔ Message n v w := by
    rw [parseFront_eq_some_iff]
    constructor
    · rintro ⟨w', rest, rfl, h, hlen⟩
      rw [List.length_append, Nat.add_eq_left] at hlen
      rw [List.length_eq_zero_iff.1 hlen, List.append_nil]
      exact h
    · exact fun h => ⟨w, [], (List.append_nil w).symm, h, rfl⟩
  simp only [FrameParser.Frames, hone]

/-- The parser looks no further than the message it returns. -/
theorem parseFront_take {n k : Nat} {buf : Bytes} {v : Value} (h : parseFront n buf = .ok (some (v, k))) :
    parseFront n (buf.take k) = .ok (some (v, k)) := by
  obtain ⟨w, rest, rfl, hw, rfl⟩ := parseFront_eq_some_iff.1 h
  rw [List.take_left]
  exact parseFront_eq_some_iff.2 ⟨w, [], (List.append_nil w).symm, hw, rfl⟩

theorem parseFront_recursion_iff {n : Nat} {buf : Bytes} : parseFront n buf = .error .recursion ↔ Deep n buf := by
  rw [parseFront, (reads_message buf n).deep (Nat.zero_le _), List.drop_zero]

/-! ## The encoder writes the grammar -/

/-- `int` inverts the decimal of a number. -/
theorem pyInt_decimal {n : Int} (h : n.natAbs < 10 ^ MAX_STR_DIGITS) : pyInt (decimal n) = some n := by
  unfold decimal
  split
  · rename_i hneg
    rw [pyInt_neg_of_isDigit (decimalNat_ne_nil _) (fun c => isDigit_of_mem_decimalNat) (length_decimalNat_le (by decide) h),
      digitsValue_decimalNat]
    exact congrArg some (by omega)
  · rw [pyInt_decimalNat h]
    exact congrArg some (by omega)

theorem joinLines_append (a b : List Bytes) : joinLines (a ++ b) = joinLines a ++ joinLines b := List.flatMap_append

/-- The items of a list are encoded one after the other. -/
theorem _resp_dumps_items_eq {items : List Reply} {frames : List Bytes}
    (h : List.Forall₂ (fun item w => protocolBuilder item = some w) items frames) :
    (_resp_dumps_items items).map joinLines = some frames.flatten := by
  induction h with
  | nil => rfl
  | cons hitem _ ih =>
    obtain ⟨lines, hlines, rfl⟩ := Option.map_eq_some_iff.1 hitem
    obtain ⟨lines', hlines', hframes⟩ := Option.map_eq_some_iff.1 ih
    rw [_resp_dumps_items, hlines, hlines']
    simp only [Option.map_some, joinLines_append, hframes, List.flatten_cons]

/-- What the encoder writes is a message, of the levels the value has. -/
theorem message_of_plain {n : Nat} {v : Value} (hv : v.Plain) (hn : v.levels ≤ n) :
    ∃ w, protocolBuilder (.ofValue v) = some w ∧ Message n v w := by
  induction n generalizing v with
  | zero => cases hv <;> exact absurd hn (Nat.not_succ_le_zero _)
  | succ n ih =>
    cases hv with
    | @bytes b hlen =>
      refine ⟨_, rfl, ?_⟩
      rw [Message]
      simpa [joinLines] using Frame.bulk (crlfFree_decimalNat b.length) (pyInt_decimalNat hlen)
    | @int i hlow hhigh =>
      refine ⟨_, rfl, ?_⟩
      have hsmall : i.natAbs < 10 ^ MAX_STR_DIGITS := by
        calc i.natAbs ≤ 2 ^ 63 := by omega
          _ < 10 ^ 19 := by decide
          _ ≤ 10 ^ MAX_STR_DIGITS := Nat.pow_le_pow_right (by decide) (by decide)
      rw [Message]
      simpa [joinLines] using Frame.int (crlfFree_decimal i) (pyInt_decimal hsmall)
    | @array items hlen hitems =>
      rw [Value.levels, Nat.add_le_add_iff_right] at hn
      have hframes : ∃ frames, List.Forall₂ (fun v w => protocolBuilder (.ofValue v) = some w ∧ Message n v w) items frames := by
        clear hlen
        induction items with
        | nil => exact ⟨[], .nil⟩
        | cons v items ihs =>
          obtain ⟨w, hw⟩ := ih (hitems v List.mem_cons_self) ((Value.levels_le_of_mem List.mem_cons_self).trans hn)
          obtain ⟨frames, hframes⟩ := ihs (fun v hv => hitems v (List.mem_cons_of_mem _ hv)) ((le_max_right ..).trans hn)
          exact ⟨w :: frames, .cons hw hframes⟩
      obtain ⟨frames, hframes⟩ := hframes
      have hitems' : List.Forall₂ (fun item w => protocolBuilder item = some w) (items.map .ofValue) frames :=
        List.forall₂_map_left_iff.2 (hframes.imp fun _ _ => And.left)
      have hbuilt := _resp_dumps_items_eq hitems'
      obtain ⟨lines, hlines, hjoin⟩ := Option.map_eq_some_iff.1 hbuilt
      refine ⟨42 :: decimalNat items.length ++ SYM_CRLF ++ frames.flatten, ?_,
        .array (crlfFree_decimalNat items.length) (pyInt_decimalNat hlen) (hframes.imp fun _ _ => And.right)⟩
      rw [protocolBuilder, Reply.ofValue, Reply.ofValues_eq_map, _resp_dumps, hlines, ← hjoin, List.length_map]
      rfl

end Kagni
