import Kagni.Lemmas.WireValue

/-!
# A reader of values

An incremental reader as the engine relies on it. It takes numbers in their canonical spelling, of 64 bits, and arrays of nine
levels, and raises on anything else.
-/

namespace Kagni

open WireValue

/-! ## Spelled numbers -/

theorem Spells.crlfFree {line : Bytes} {n : Int} (h : Spells line n) : CrlfFree line := by
  have hdigit : ∀ {ds : Bytes}, (∀ c ∈ ds, isDigit c = true) → ∀ c ∈ ds, c ≠ 13 := by
    rintro ds hd c hc rfl
    exact absurd (hd 13 hc) (by decide)
  refine crlfFree_of_forall ?_
  cases h with
  | plain _ hd => exact hdigit hd
  | plus _ hd => exact List.forall_mem_cons.2 ⟨by decide, hdigit hd⟩
  | minus _ hd => exact List.forall_mem_cons.2 ⟨by decide, hdigit hd⟩

/-- The decimal of a number spells it alone. -/
theorem Spells.eq_of_decimal {n m : Int} (h : Spells (decimal m) n) : m = n := by
  generalize hline : decimal m = line at h
  have hfirst : ∀ c : UInt8, isDigit c = false → ∀ ds k, c :: ds ≠ decimalNat k := fun c hc ds k heq =>
    not_mem_decimalNat (n := k) hc (heq ▸ List.mem_cons_self ..)
  unfold decimal at hline
  cases h with
  | plain hne hd =>
    split_ifs at hline with hm
    · rw [← hline] at hd
      exact absurd (hd 45 (List.mem_cons_self ..)) (by decide)
    · rw [← hline, digitsValue_decimalNat]
      omega
  | plus hne hd =>
    split_ifs at hline with hm
    · cases (List.cons.inj hline).1
    · exact absurd hline.symm (hfirst 43 rfl _ _)
  | minus hne hd =>
    split_ifs at hline with hm
    · rw [← (List.cons.inj hline).2, digitsValue_decimalNat]
      omega
    · exact absurd hline.symm (hfirst 45 rfl _ _)

theorem Spells.eq_of_string2ll {line : Bytes} {n m : Int} (h : Spells line n) (hread : string2ll line = some m) : m = n := by
  obtain ⟨rfl, -⟩ := string2ll_eq_some_iff.1 hread
  exact h.eq_of_decimal

/-! ## The reader -/

/-- What is read from the front of the bytes: an error, nothing yet, or a value and the bytes behind it. -/
abbrev ReadResult := Except Unit (Option (Value × Bytes))

/-- The first line. -/
def takeLine (b : Bytes) : Option (Bytes × Bytes) := (findCrlf b).map fun n => (b.take n, b.drop (n + 2))

/-- The payload of a bulk string. -/
def readBulk (length : Nat) (b : Bytes) : ReadResult :=
  if b.length < length + 2 then .ok none else .ok (some (.bytes (b.take length), b.drop (length + 2)))

/-- The items of an array. -/
def readItems (read : Bytes → ReadResult) : (count : Nat) → (items : List Value) → Bytes → ReadResult
  | 0, items, b => .ok (some (.array items, b))
  | count + 1, items, b =>
    match read b with
    | .error () => .error ()
    | .ok none => .ok none
    | .ok (some (item, b')) => readItems read count (items ++ [item]) b'

/-- What stands behind the header of a bulk string or an array, or a null. -/
def readSized (read : Nat → Bytes → ReadResult) (n : Int) (b : Bytes) : ReadResult :=
  if n = -1 then .ok (some (.null, b)) else if n < 0 then .error () else read n.toNat b

/-- What stands behind the first line, by the marker. -/
def readBehind (read : Bytes → ReadResult) (c : UInt8) (line b : Bytes) : ReadResult :=
  if c = 43 then .ok (some (.bytes line, b))
  else match string2ll line with
    | none => .error ()
    | some n =>
      if c = 58 then .ok (some (.int n, b))
      else if c = 36 then readSized readBulk n b
      else readSized (fun count => readItems read count []) n b

/-- A value with at most `depth` levels. -/
def readValue : (depth : Nat) → Bytes → ReadResult
  | 0, _ => .error ()
  | _ + 1, [] => .ok none
  | depth + 1, c :: b =>
    if c ∉ [43, 58, 36, 42] then .error ()
    else match takeLine b with
      | none => .ok none
      | some (line, rest) => readBehind (readValue depth) c line rest

/-- The reader holds the bytes it has not parsed. `none` is its state after an error. -/
def wireReader : HiredisReader where
  σ := Option Bytes
  new := some []
  feed s d := s.map (· ++ d)
  gets
    | none => (.error (), none)
    | some b =>
      match readValue 9 b with
      | .error () => (.error (), none)
      | .ok none => (.ok none, some b)
      | .ok (some (v, rest)) => (.ok (some v), some rest)

/-! ## It reads what was encoded -/

/-- This value is read, or there is an error. -/
def ReadsAs (out : ReadResult) (v : Value) (rest : Bytes) : Prop := out = .error () ∨ out = .ok (some (v, rest))

theorem length_line (line : Bytes) : (line ++ SYM_CRLF).length = line.length + 2 := List.length_append

theorem takeLine_line {line : Bytes} (h : CrlfFree line) (rest : Bytes) :
    takeLine (line ++ SYM_CRLF ++ rest) = some (line, rest) := by
  rw [takeLine, findCrlf_line h, Option.map_some, ← length_line, List.drop_left, List.append_assoc, List.take_left]

theorem reads_bulk (payload rest : Bytes) :
    ReadsAs (readBulk payload.length (payload ++ SYM_CRLF ++ rest)) (.bytes payload) rest := by
  have hfits : ¬(payload ++ SYM_CRLF ++ rest).length < payload.length + 2 := by
    rw [List.length_append, length_line]
    omega
  right
  rw [readBulk, if_neg hfits, ← length_line, List.drop_left, List.append_assoc, List.take_left]

theorem reads_items {read : Bytes → ReadResult} {ws : List WireValue}
    (hread : ∀ w ∈ ws, ∀ rest, ReadsAs (read (w.encode ++ rest)) w.value rest) (items : List Value) (rest : Bytes) :
    ReadsAs (readItems read ws.length items (encodeAll ws ++ rest)) (.array (items ++ valueAll ws)) rest := by
  induction ws generalizing items with
  | nil =>
    right
    rw [valueAll, List.append_nil]
    rfl
  | cons w ws ih =>
    rw [List.length_cons, readItems, encodeAll, List.append_assoc]
    rcases hread w (List.mem_cons_self ..) (encodeAll ws ++ rest) with herror | hok
    · left
      rw [herror]
    · rw [hok]
      have hrest := ih (fun w' hw' => hread w' (List.mem_cons_of_mem _ hw')) (items ++ [w.value])
      rwa [List.append_assoc] at hrest

/-- A bulk string or an array of this length is read. -/
theorem reads_sized (read : Nat → Bytes → ReadResult) {v : Value} {b rest : Bytes} {n : Nat} (h : ReadsAs (read n b) v rest) :
    ReadsAs (readSized read n b) v rest := by
  have hneg : ¬(n : Int) = -1 ∧ ¬(n : Int) < 0 := by omega
  rwa [readSized, if_neg hneg.1, if_neg hneg.2, Int.toNat_natCast]

/-- The header of a value is taken off. -/
theorem readValue_header {c : UInt8} (hc : c ∈ [58, 36, 42]) {line : Bytes} {n : Int} (hline : Spells line n)
    (depth : Nat) (b : Bytes) :
    readValue (depth + 1) (c :: (line ++ SYM_CRLF ++ b)) = .error () ∨
      readValue (depth + 1) (c :: (line ++ SYM_CRLF ++ b)) =
        if c = 58 then .ok (some (.int n, b))
        else if c = 36 then readSized readBulk n b
        else readSized (fun count => readItems (readValue depth) count []) n b := by
  have hmark : c ∈ [43, 58, 36, 42] := List.mem_cons_of_mem _ hc
  have hsimple : c ≠ 43 := by
    rintro rfl
    exact absurd hc (by decide)
  rw [readValue, if_neg (not_not.2 hmark), takeLine_line hline.crlfFree]
  dsimp only
  rw [readBehind, if_neg hsimple]
  cases hread : string2ll line with
  | none => exact .inl rfl
  | some m =>
    obtain rfl := hline.eq_of_string2ll hread
    exact .inr rfl

/-- Every value is read back, whatever follows it, or there is an error. -/
theorem readValue_encode {w : WireValue} (h : w.WellFormed) (depth : Nat) (rest : Bytes) :
    ReadsAs (readValue depth (w.encode ++ rest)) w.value rest := by
  induction h generalizing depth rest with
  | @simple line hline =>
    cases depth with
    | zero => exact .inl rfl
    | succ depth =>
      right
      rw [encode, List.cons_append, readValue, if_neg (by decide), takeLine_line hline]
      rfl
  | @int line n hline =>
    cases depth with
    | zero => exact .inl rfl
    | succ depth =>
      rw [encode, List.cons_append]
      exact readValue_header (by decide) hline depth rest
  | @bulk line payload hline =>
    cases depth with
    | zero => exact .inl rfl
    | succ depth =>
      rw [encode, List.cons_append, List.append_assoc]
      rcases readValue_header (show (36 : UInt8) ∈ [58, 36, 42] by decide) hline depth
        (payload ++ SYM_CRLF ++ rest) with herror | hok
      · exact .inl herror
      · rw [hok]
        exact reads_sized readBulk (reads_bulk payload rest)
  | nullBulk =>
    cases depth with
    | zero => exact .inl rfl
    | succ depth => exact .inr rfl
  | nullArray =>
    cases depth with
    | zero => exact .inl rfl
    | succ depth => exact .inr rfl
  | @array line items hline _ ih =>
    cases depth with
    | zero => exact .inl rfl
    | succ depth =>
      rw [encode, List.cons_append, List.append_assoc]
      rcases readValue_header (show (42 : UInt8) ∈ [58, 36, 42] by decide) hline depth (encodeAll items ++ rest) with herror | hok
      · exact .inl herror
      · rw [hok, value]
        exact reads_sized (fun count => readItems (readValue depth) count []) (reads_items (fun w hw => ih w hw depth) [] rest)

/-! ## It is incremental -/

theorem takeLine_append {b line rest : Bytes} (h : takeLine b = some (line, rest)) (z : Bytes) :
    takeLine (b ++ z) = some (line, rest ++ z) := by
  obtain ⟨n, hn, heq⟩ := Option.map_eq_some_iff.1 h
  obtain ⟨rfl, rfl⟩ := Prod.mk.inj heq
  have hlt := findCrlf_lt hn
  rw [takeLine, findCrlf_append hn, Option.map_some, List.take_append_of_le_length (by omega),
    List.drop_append_of_le_length (by omega)]

/-- What is read stays the same when more bytes come. -/
def Stable (read : Bytes → ReadResult) : Prop :=
  ∀ {b v rest}, read b = .ok (some (v, rest)) → ∀ z, read (b ++ z) = .ok (some (v, rest ++ z))

theorem stable_bulk (length : Nat) : Stable (readBulk length) := by
  intro b v rest h z
  rw [readBulk] at h
  split_ifs at h with hshort
  · cases h
  · cases h
    have hlong : ¬(b ++ z).length < length + 2 := by
      rw [List.length_append]
      omega
    rw [readBulk, if_neg hlong, List.take_append_of_le_length (by omega), List.drop_append_of_le_length (by omega)]

theorem stable_items {read : Bytes → ReadResult} (hread : Stable read) (count : Nat) (items : List Value) :
    Stable (readItems read count items) := by
  induction count generalizing items with
  | zero =>
    intro b v rest h z
    cases h
    rfl
  | succ count ih =>
    intro b v rest h z
    rw [readItems] at h ⊢
    cases hitem : read b with
    | error e =>
      rw [hitem] at h
      cases h
    | ok out =>
      rw [hitem] at h
      cases out with
      | none => cases h
      | some out =>
        rw [hread hitem z]
        exact ih _ h z

theorem stable_sized {read : Nat → Bytes → ReadResult} (hread : ∀ n, Stable (read n)) (n : Int) : Stable (readSized read n) := by
  intro b v rest h z
  unfold readSized at h ⊢
  split_ifs at h ⊢
  · cases h
    rfl
  · exact hread _ h z

theorem stable_behind {read : Bytes → ReadResult} (hread : Stable read) (c : UInt8) (line : Bytes) :
    Stable (readBehind read c line) := by
  intro b v rest h z
  rw [readBehind] at h ⊢
  by_cases hsimple : c = 43
  · rw [if_pos hsimple] at h ⊢
    cases h
    rfl
  · rw [if_neg hsimple] at h ⊢
    cases hnumber : string2ll line with
    | none =>
      rw [hnumber] at h
      cases h
    | some n =>
      rw [hnumber] at h
      dsimp only at h ⊢
      split_ifs at h ⊢
      · cases h
        rfl
      · exact stable_sized stable_bulk n h z
      · exact stable_sized (fun count => stable_items hread count []) n h z

theorem stable_value (depth : Nat) : Stable (readValue depth) := by
  induction depth with
  | zero =>
    intro b v rest h
    cases h
  | succ depth ih =>
    intro b v rest h z
    cases b with
    | nil => cases h
    | cons c b =>
      rw [List.cons_append]
      rw [readValue] at h ⊢
      by_cases hmark : c ∉ [43, 58, 36, 42]
      · rw [if_pos hmark] at h
        cases h
      · rw [if_neg hmark] at h ⊢
        cases hline : takeLine b with
        | none =>
          rw [hline] at h
          cases h
        | some out =>
          rw [hline] at h
          rw [takeLine_append hline z]
          exact stable_behind ih c out.1 h z

/-- A part of a value is not read as a value. -/
theorem readValue_part {w : WireValue} (h : w.WellFormed) {b z : Bytes} (hz : b ++ z = w.encode) (hne : z ≠ []) (depth : Nat) :
    readValue depth b = .error () ∨ readValue depth b = .ok none := by
  cases hread : readValue depth b with
  | error e => exact .inl rfl
  | ok out =>
    cases out with
    | none => exact .inr rfl
    | some out =>
      have hall := stable_value depth hread z
      have hvalue := readValue_encode h depth []
      rw [List.append_nil, ← hz, hall] at hvalue
      rcases hvalue with herror | hok
      · cases herror
      · have hnil : out.2 ++ z = [] := (Prod.mk.inj (Option.some.inj (Except.ok.inj hok))).2
        exact absurd (List.append_eq_nil_iff.1 hnil).2 hne

/-- The reader is one the engine can rely on. -/
theorem wireReader_incremental : wireReader.Incremental fun s b => s = some b where
  new := rfl
  feed := by
    rintro s b rfl d
    rfl
  unique := by
    rintro s b b' rfl h
    exact Option.some.inj h
  value := by
    rintro s w rest hw rfl
    dsimp only [wireReader]
    rcases readValue_encode hw 9 rest with herror | hok
    · left
      rw [herror]
    · right
      rw [hok]
      exact ⟨_, rfl, rfl⟩
  part := by
    rintro s b z w hw rfl hz hne
    dsimp only [wireReader]
    rcases readValue_part hw hz hne 9 with herror | hok
    · left
      rw [herror]
    · right
      rw [hok]
      exact ⟨_, rfl, rfl⟩

end Kagni
