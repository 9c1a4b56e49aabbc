import Kagni.Resp
import Kagni.Lib.Feed

/-!
# The parser on a prefix

Whatever `_parse_message` says about a buffer, unless it asks for more, it says about every extension of it, and a value it
returns ends inside the buffer. So the parser is a stable parser of frames, and the reader is the feeding of one.
-/

namespace Kagni

open Lib

/-- What the parse `x` of a prefix says, the parse `y` of an extension says, unless `x` asks for more. -/
def Decides {ε α : Type} (x y : Except ε (Option α)) : Prop := x = .ok none ∨ y = x

/-! ## Lines -/

theorem findCrlf_append {l : Bytes} {n : Nat} (h : findCrlf l = some n) (m : Bytes) : findCrlf (l ++ m) = some n := by
  induction l using findCrlf.induct generalizing n with
  | case1 => simp [findCrlf] at h
  | case2 c => simp [findCrlf] at h
  | case3 c d rest hcd =>
    simp only [findCrlf, if_pos hcd] at h
    simp [findCrlf, hcd, ← h]
  | case4 c d rest hcd ih =>
    simp only [findCrlf, if_neg hcd, Option.map_eq_some_iff] at h
    obtain ⟨k, hk, rfl⟩ := h
    have := ih hk
    simp only [List.cons_append] at this ⊢
    simp [findCrlf, hcd, this]

theorem findCrlf_lt {l : Bytes} {n : Nat} (h : findCrlf l = some n) : n + 2 ≤ l.length := by
  induction l using findCrlf.induct generalizing n with
  | case1 => simp [findCrlf] at h
  | case2 c => simp [findCrlf] at h
  | case3 c d rest hcd =>
    simp only [findCrlf, if_pos hcd, Option.some.injEq] at h
    simp [← h]
  | case4 c d rest hcd ih =>
    simp only [findCrlf, if_neg hcd, Option.map_eq_some_iff] at h
    obtain ⟨k, hk, rfl⟩ := h
    have := ih hk
    simp only [List.length_cons] at this ⊢
    omega

/-- A line ends inside the buffer, after the position it starts at. -/
theorem _read_line_le {buf : Bytes} {pos : Nat} {line : Bytes} {npos : Nat}
    (h : _read_line buf pos = some (line, npos)) : pos + 2 ≤ npos ∧ npos ≤ buf.length := by
  unfold _read_line at h
  obtain ⟨n, hn, heq⟩ := Option.map_eq_some_iff.1 h
  have := findCrlf_lt hn
  simp only [List.length_drop, Prod.mk.injEq] at this heq
  omega

/-- A line that is complete in a prefix is the same line in every extension. -/
theorem _read_line_append {buf : Bytes} {pos : Nat} {r : Bytes × Nat} (h : _read_line buf pos = some r) (ext : Bytes) :
    _read_line (buf ++ ext) pos = some r := by
  have hle : pos ≤ buf.length := by
    obtain ⟨line, npos⟩ := r
    have := _read_line_le h
    omega
  unfold _read_line at h ⊢
  obtain ⟨n, hn, rfl⟩ := Option.map_eq_some_iff.1 h
  have := findCrlf_lt hn
  rw [List.drop_append_of_le_length hle, findCrlf_append hn ext, Option.map_some,
    List.take_append_of_le_length (by omega)]

/-! ## Bulk strings -/

theorem _parse_bulk_append (buf ext : Bytes) (pos : Nat) :
    Decides (_parse_bulk buf pos) (_parse_bulk (buf ++ ext) pos) := by
  unfold _parse_bulk
  cases hl : _read_line buf (pos + 1) with
  | none => exact Or.inl rfl
  | some r =>
    obtain ⟨line, npos⟩ := r
    rw [_read_line_append hl ext]
    simp only
    cases pyInt line with
    | none => exact Or.inr rfl
    | some length =>
      simp only
      split
      · exact Or.inr rfl
      · split
        · exact Or.inr rfl
        · by_cases hlen : buf.length < npos + length.toNat + 2
          · rw [if_pos hlen]
            exact Or.inl rfl
          · have hlen' : ¬(buf ++ ext).length < npos + length.toNat + 2 := by
              rw [List.length_append]
              omega
            rw [if_neg hlen, if_neg hlen', List.drop_append_of_le_length (by omega),
              List.take_append_of_le_length (by simp only [List.length_drop]; omega),
              List.drop_append_of_le_length (by omega),
              List.take_append_of_le_length (by simp only [List.length_drop]; omega)]
            exact Or.inr rfl

theorem _parse_bulk_le {buf : Bytes} {pos : Nat} {v : Value} {npos : Nat}
    (h : _parse_bulk buf pos = .ok (some (v, npos))) : pos < npos ∧ npos ≤ buf.length := by
  unfold _parse_bulk at h
  cases hl : _read_line buf (pos + 1) with
  | none => simp [hl] at h
  | some r =>
    obtain ⟨line, mpos⟩ := r
    have hle := _read_line_le hl
    rw [hl] at h
    simp only at h
    cases hi : pyInt line with
    | none => simp [hi] at h
    | some length =>
      rw [hi] at h
      simp only at h
      split at h
      · simp only [Except.ok.injEq, Option.some.injEq, Prod.mk.injEq] at h
        omega
      · split at h
        · cases h
        · split at h
          · cases h
          · split at h
            · cases h
            · simp only [Except.ok.injEq, Option.some.injEq, Prod.mk.injEq] at h
              omega

/-! ## Arrays -/

section Items

variable {parse parse' : Nat → Except ParseExc (Option (Value × Nat))}

theorem _parse_items_append (h : ∀ p, Decides (parse p) (parse' p)) (npos : Nat) (items : List Value) (count : Nat) :
    Decides (_parse_items parse npos items count) (_parse_items parse' npos items count) := by
  induction count generalizing npos items with
  | zero => exact Or.inr rfl
  | succ count ih =>
    unfold _parse_items
    rcases h npos with hn | he
    · rw [hn]
      exact Or.inl rfl
    · rw [he]
      cases hp : parse npos with
      | error e => exact Or.inr rfl
      | ok o =>
        cases o with
        | none => exact Or.inl rfl
        | some r => exact ih r.2 _

theorem _parse_items_le {len : Nat} (h : ∀ p v q, parse p = .ok (some (v, q)) → p < q ∧ q ≤ len) {npos : Nat}
    {items : List Value} {count : Nat} {v : Value} {q : Nat} (hle : npos ≤ len)
    (hi : _parse_items parse npos items count = .ok (some (v, q))) : npos ≤ q ∧ q ≤ len := by
  induction count generalizing npos items with
  | zero =>
    simp only [_parse_items, Except.ok.injEq, Option.some.injEq, Prod.mk.injEq] at hi
    omega
  | succ count ih =>
    unfold _parse_items at hi
    cases hp : parse npos with
    | error e => simp [hp] at hi
    | ok o =>
      cases o with
      | none => simp [hp] at hi
      | some r =>
        obtain ⟨w, p⟩ := r
        have hb := h npos w p hp
        rw [hp] at hi
        have := ih hb.2 hi
        omega

theorem _parse_array_append (h : ∀ p, Decides (parse p) (parse' p)) (buf ext : Bytes) (pos : Nat) :
    Decides (_parse_array parse buf pos) (_parse_array parse' (buf ++ ext) pos) := by
  unfold _parse_array
  cases hl : _read_line buf (pos + 1) with
  | none => exact Or.inl rfl
  | some r =>
    obtain ⟨line, npos⟩ := r
    rw [_read_line_append hl ext]
    simp only
    cases pyInt line with
    | none => exact Or.inr rfl
    | some count =>
      simp only
      split
      · exact Or.inr rfl
      · split
        · exact Or.inr rfl
        · exact _parse_items_append h npos [] _

theorem _parse_array_le {buf : Bytes} (h : ∀ p v q, parse p = .ok (some (v, q)) → p < q ∧ q ≤ buf.length) {pos : Nat}
    {v : Value} {npos : Nat} (ha : _parse_array parse buf pos = .ok (some (v, npos))) :
    pos < npos ∧ npos ≤ buf.length := by
  unfold _parse_array at ha
  cases hl : _read_line buf (pos + 1) with
  | none => simp [hl] at ha
  | some r =>
    obtain ⟨line, mpos⟩ := r
    have hle := _read_line_le hl
    rw [hl] at ha
    simp only at ha
    cases hi : pyInt line with
    | none => simp [hi] at ha
    | some count =>
      rw [hi] at ha
      simp only at ha
      split at ha
      · simp only [Except.ok.injEq, Option.some.injEq, Prod.mk.injEq] at ha
        omega
      · split at ha
        · cases ha
        · have := _parse_items_le h hle.2 ha
          omega

end Items

/-! ## Messages -/

/-- The prefix law: a value or an error of a prefix is the value or the error of every extension. The induction is on the nesting
depth; the items of an array are parsed at one depth less. -/
theorem _parse_message_append (buf ext : Bytes) (depth pos : Nat) :
    Decides (_parse_message buf depth pos) (_parse_message (buf ++ ext) depth pos) := by
  induction depth generalizing pos with
  | zero => exact Or.inr rfl
  | succ depth ih =>
    unfold _parse_message
    cases hm : buf[pos]? with
    | none => exact Or.inl rfl
    | some marker =>
      have hlt : pos < buf.length := (List.getElem?_eq_some_iff.1 hm).1
      rw [List.getElem?_append_left hlt, hm]
      simp only
      -- a line that is complete decides what is made of it
      have line : ∀ (p : Nat) (k : Bytes → Nat → Except ParseExc (Option (Value × Nat))),
          Decides (match _read_line buf p with
            | none => Except.ok none
            | some (line, npos) => k line npos) (match _read_line (buf ++ ext) p with
            | none => Except.ok none
            | some (line, npos) => k line npos) := by
        intro p k
        cases hl : _read_line buf p with
        | none => exact Or.inl rfl
        | some r =>
          rw [_read_line_append hl ext]
          exact Or.inr rfl
      split
      · exact _parse_array_append ih buf ext pos
      · split
        · exact _parse_bulk_append buf ext pos
        · split
          · exact line (pos + 1) fun line npos => match pyInt line with
              | none => .error (.protocol .invalidInteger)
              | some n => .ok (some (.int n, npos))
          · split
            · exact line pos fun line npos => .ok (some (.bytes line, npos))
            · exact line pos fun line npos => .ok (some (.array ((split line).map .bytes), npos))

/-- A value that is returned took at least one byte and ends inside the buffer. -/
theorem _parse_message_le {buf : Bytes} {depth pos : Nat} {v : Value} {npos : Nat}
    (h : _parse_message buf depth pos = .ok (some (v, npos))) : pos < npos ∧ npos ≤ buf.length := by
  induction depth generalizing pos v npos with
  | zero => simp [_parse_message] at h
  | succ depth ih =>
    unfold _parse_message at h
    cases hm : buf[pos]? with
    | none => simp [hm] at h
    | some marker =>
      rw [hm] at h
      simp only at h
      -- what is made of a line ends where the line ends
      have line : ∀ {p : Nat} (k : Bytes → Nat → Except ParseExc (Option (Value × Nat))), pos ≤ p →
          (∀ line q w q', k line q = .ok (some (w, q')) → q' = q) →
          (match _read_line buf p with
            | none => Except.ok none
            | some (line, npos) => k line npos) = .ok (some (v, npos)) → pos < npos ∧ npos ≤ buf.length := by
        intro p k hp hk hr
        cases hl : _read_line buf p with
        | none => simp [hl] at hr
        | some r =>
          rw [hl] at hr
          have := _read_line_le hl
          have := hk r.1 r.2 v npos hr
          omega
      split at h
      · exact _parse_array_le (fun p w q hq => ih hq) h
      · split at h
        · exact _parse_bulk_le h
        · split at h
          · refine line (fun line npos => match pyInt line with
              | none => .error (.protocol .invalidInteger)
              | some n => .ok (some (.int n, npos))) (Nat.le_succ pos) ?_ h
            intro line q w q' hr
            cases hi : pyInt line with
            | none => simp [hi] at hr
            | some n =>
              simp only [hi, Except.ok.injEq, Option.some.injEq, Prod.mk.injEq] at hr
              exact hr.2.symm
          · split at h
            · refine line (fun line npos => .ok (some (.bytes line, npos))) le_rfl ?_ h
              intro line q w q' hr
              simp only [Except.ok.injEq, Option.some.injEq, Prod.mk.injEq] at hr
              exact hr.2.symm
            · refine line (fun line npos => .ok (some (.array ((split line).map .bytes), npos))) le_rfl ?_ h
              intro line q w q' hr
              simp only [Except.ok.injEq, Option.some.injEq, Prod.mk.injEq] at hr
              exact hr.2.symm

/-! ## The reader -/

/-- One message at the front of a buffer. -/
abbrev parseFront (depth : Nat) : FrameParser UInt8 Value ParseExc := fun buf => _parse_message buf depth 0

theorem parseFront_stable (depth : Nat) : (parseFront depth).Stable where
  value := by
    intro b r h c
    rcases _parse_message_append b c depth 0 with hn | he
    · rw [parseFront, hn] at h
      cases h
    · exact he.trans h
  error := by
    intro b e h c
    rcases _parse_message_append b c depth 0 with hn | he
    · rw [parseFront, hn] at h
      cases h
    · exact he.trans h
  size := _parse_message_le

/-- The drain loop scans the buffer; when it raises, the messages it had read are gone. -/
theorem drain_eq (depth fuel : Nat) (buffer : Bytes) (messages : List Value) :
    drain depth fuel buffer messages = match (parseFront depth).scanFuel fuel buffer with
      | (vs, rest, none) => (.ok (messages ++ vs), rest)
      | (_, rest, some e) => (.error e, rest) := by
  induction fuel generalizing buffer messages with
  | zero => simp [drain, FrameParser.scanFuel]
  | succ fuel ih =>
    unfold drain FrameParser.scanFuel
    rw [show parseFront depth buffer = _parse_message buffer depth 0 from rfl]
    cases _parse_message buffer depth 0 with
    | error e => rfl
    | ok o =>
      cases o with
      | none => simp
      | some r =>
        obtain ⟨v, n⟩ := r
        simp only [ih]
        cases (parseFront depth).scanFuel fuel (buffer.drop n) with
        | mk vs p =>
          obtain ⟨rest, err⟩ := p
          cases err <;> simp

/-- `_feed_python` is one step of feeding the parser. -/
theorem _feed_python_eq (depth : Nat) (buffer data : Bytes) :
    _feed_python depth buffer data =
      (parseFront depth).feed MAX_BUFFER (.protocol .requestTooLarge) buffer data := by
  unfold _feed_python FrameParser.feed
  simp only [gt_iff_lt, drain_eq, List.nil_append, FrameParser.scan]
  split
  · rfl
  · rcases (parseFront depth).scanFuel ((buffer ++ data).length + 1) (buffer ++ data) with ⟨vs, rest, err⟩
    cases err <;> rfl

theorem feedAll_eq (depth : Nat) (buffer : Bytes) (chunks : List Bytes) :
    feedAll depth buffer chunks =
      (parseFront depth).feedAll MAX_BUFFER (.protocol .requestTooLarge) buffer chunks := by
  induction chunks generalizing buffer with
  | nil => rfl
  | cons c cs ih =>
    rw [feedAll, FrameParser.feedAll, _feed_python_eq]
    cases (parseFront depth).feed MAX_BUFFER (.protocol .requestTooLarge) buffer c with
    | mk out rest => cases out <;> simp [ih]

end Kagni
