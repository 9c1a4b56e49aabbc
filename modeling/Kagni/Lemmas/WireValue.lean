import Kagni.Commands.Common
import Kagni.Lemmas.Hiredis
import Kagni.Lemmas.Numbers
import Kagni.WireValue

/-!
# Values on the wire, and a reader of them

What the canonical encoding of a value is longer by, and an incremental reader that reads every value back or raises.
-/

namespace Kagni

namespace WireValue

/-! ## Streams of values -/

@[simp] theorem encodeAll_append (ws us : List WireValue) : encodeAll (ws ++ us) = encodeAll ws ++ encodeAll us := by
  induction ws with
  | nil => rfl
  | cons w ws ih => rw [List.cons_append, encodeAll, encodeAll, ih, List.append_assoc]

@[simp] theorem excessAll_append (ws us : List WireValue) : excessAll (ws ++ us) = excessAll ws + excessAll us := by
  induction ws with
  | nil => exact (Int.zero_add _).symm
  | cons w ws ih => rw [List.cons_append, excessAll, excessAll, ih, Int.add_assoc]

@[simp] theorem hasNullAll_append (ws us : List WireValue) : hasNullAll (ws ++ us) = (hasNullAll ws || hasNullAll us) := by
  induction ws with
  | nil => rfl
  | cons w ws ih => rw [List.cons_append, hasNullAll, hasNullAll, ih, Bool.or_assoc]

/-- A value starts with a marker. -/
theorem encode_eq_cons (w : WireValue) : ∃ c b, w.encode = c :: b ∧ c ∈ _RESP_MARKERS := by
  cases w with
  | simple line => exact ⟨43, _, rfl, by decide⟩
  | int line n => exact ⟨58, _, rfl, by decide⟩
  | bulk line payload => exact ⟨36, _, rfl, by decide⟩
  | nullBulk => exact ⟨36, _, rfl, by decide⟩
  | nullArray => exact ⟨42, _, rfl, by decide⟩
  | array line items => exact ⟨42, _, by rw [encode], by decide⟩

theorem length_encode_pos (w : WireValue) : 0 < w.encode.length := by
  obtain ⟨c, b, heq, -⟩ := w.encode_eq_cons
  rw [heq]
  exact Nat.succ_pos _

theorem length_valueAll (ws : List WireValue) : (valueAll ws).length = ws.length := by
  induction ws with
  | nil => rfl
  | cons w ws ih => rw [valueAll, List.length_cons, List.length_cons, ih]

/-! ## The canonical encoding -/

theorem joinLines_cons (line : Bytes) (lines : List Bytes) :
    joinLines (line :: lines) = line ++ SYM_CRLF ++ joinLines lines := rfl

theorem joinLines_append (lines lines' : List Bytes) : joinLines (lines ++ lines') = joinLines lines ++ joinLines lines' :=
  List.flatMap_append

/-- What is read from a value with a null is not encoded, and what is read from any other is encoded in as many bytes more as
its excess. -/
def Measured (dumps : Option (List Bytes)) (null : Bool) (length : Nat) (longer : Int) : Prop :=
  if null then dumps = none else ∃ lines, dumps = some lines ∧ ((joinLines lines).length : Int) = length + longer

mutual

theorem measured : ∀ w : WireValue, Measured (_resp_dumps (.ofValue w.value)) w.hasNull w.encode.length w.excess
  | simple line => by
    refine ⟨_, rfl, ?_⟩
    simp [joinLines, SYM_CRLF, encode, excess]
    omega
  | int line n => by
    refine ⟨_, rfl, ?_⟩
    simp [joinLines, SYM_CRLF, encode, excess]
    omega
  | bulk line payload => by
    refine ⟨_, rfl, ?_⟩
    simp [joinLines, SYM_CRLF, encode, excess]
    omega
  | nullBulk => rfl
  | nullArray => rfl
  | array line items => by
    have hitems := measured_all items
    rw [value, Reply.ofValue, _resp_dumps, hasNull]
    unfold Measured at hitems ⊢
    split_ifs at hitems ⊢
    · rw [hitems]
      rfl
    · obtain ⟨lines, hlines, hlength⟩ := hitems
      have hcount : (Reply.ofValues (valueAll items)).length = items.length := by
        rw [Reply.ofValues_eq_map, List.length_map, length_valueAll]
      refine ⟨_, by rw [hlines, Option.map_some], ?_⟩
      rw [joinLines_cons, hcount, encode, excess]
      simp only [SYM_CRLF, List.length_append, List.length_cons, List.length_nil]
      omega

theorem measured_all : ∀ ws : List WireValue,
    Measured (_resp_dumps_items (Reply.ofValues (valueAll ws))) (hasNullAll ws) (encodeAll ws).length (excessAll ws)
  | [] => ⟨_, rfl, rfl⟩
  | w :: ws => by
    have hw := measured w
    have hws := measured_all ws
    rw [valueAll, Reply.ofValues, _resp_dumps_items, hasNullAll]
    unfold Measured at hw hws ⊢
    cases hnull : w.hasNull with
    | true =>
      rw [hnull, if_pos rfl] at hw
      rw [hw]
      rfl
    | false =>
      rw [hnull, if_neg Bool.false_ne_true] at hw
      obtain ⟨lines, hlines, hlength⟩ := hw
      rw [hlines, Bool.false_or]
      split_ifs at hws ⊢
      · rw [hws]
      · obtain ⟨lines', hlines', hlength'⟩ := hws
        refine ⟨lines ++ lines', by rw [hlines'], ?_⟩
        rw [joinLines_append, encodeAll, excessAll, List.length_append, List.length_append]
        omega

end

/-- The measure the engine takes of what is read from a value. -/
theorem _wire_length_value (w : WireValue) :
    (w.hasNull = true ∧ _wire_length w.value = none) ∨
      (w.hasNull = false ∧ ∃ n, _wire_length w.value = some n ∧ (n : Int) = w.encode.length + w.excess) := by
  have hw := measured w
  unfold Measured at hw
  cases hnull : w.hasNull with
  | true =>
    rw [hnull, if_pos rfl] at hw
    exact .inl ⟨rfl, by rw [_wire_length, protocolBuilder, hw]; rfl⟩
  | false =>
    rw [hnull, if_neg Bool.false_ne_true] at hw
    obtain ⟨lines, hlines, hlength⟩ := hw
    exact .inr ⟨rfl, _, by rw [_wire_length, protocolBuilder, hlines]; rfl, hlength⟩

/-- It is the number of bytes of the value, or there is none, exactly if there is a null in the value or the canonical
encoding is as long. -/
theorem _wire_length_exact_iff (w : WireValue) :
    (∀ n, _wire_length w.value = some n → n = w.encode.length) ↔ w.hasNull = true ∨ w.excess = 0 := by
  rcases w._wire_length_value with ⟨hnull, hnone⟩ | ⟨hnull, n, hn, hlength⟩
  · exact iff_of_true (fun n hn => by rw [hnone] at hn; cases hn) (.inl hnull)
  · rw [hn, hnull]
    constructor
    · intro hall
      have := hall n rfl
      exact .inr (by omega)
    · rintro (h | h) m hm
      · cases h
      · cases hm
        omega

/-! ## Parts of a value -/

/-- The bytes are a part of the next value, or there are none. -/
def Part (b : Bytes) (ws : List WireValue) : Prop := b = [] ∨ ∃ w us z, ws = w :: us ∧ b ++ z = w.encode ∧ z ≠ []

/-- The bytes at the front of a stream are a part of its first value, or this value and more. -/
theorem encode_prefix {w : WireValue} {ws : List WireValue} {b tail : Bytes} (h : b ++ tail = encodeAll (w :: ws)) :
    (∃ z, z ≠ [] ∧ b ++ z = w.encode) ∨ ∃ b', b = w.encode ++ b' ∧ b' ++ tail = encodeAll ws := by
  rw [encodeAll] at h
  rcases List.append_eq_append_iff.1 h with ⟨z, hz, htail⟩ | ⟨b', hb, htail⟩
  · by_cases hnil : z = []
    · subst hnil
      exact .inr ⟨[], by simpa using hz.symm, by simpa using htail⟩
    · exact .inl ⟨z, hnil, hz.symm⟩
  · exact .inr ⟨b', hb, htail.symm⟩

/-- The totals coincide behind these values and this part of the next one. -/
def MisledAt (longer : Int) (done : List WireValue) (b : Bytes) : Prop :=
  hasNullAll done = false ∧ b ≠ [] ∧ (b.length : Int) = longer + excessAll done

theorem misled_iff {done rest : List WireValue} {b : Bytes} (longer : Int) (hpart : Part b rest) :
    Misled longer (done ++ rest) (encodeAll done ++ b).length ↔ MisledAt longer done b := by
  induction done generalizing longer with
  | nil =>
    have hlonger : longer + excessAll [] = longer := Int.add_zero longer
    rw [List.nil_append, encodeAll, List.nil_append, MisledAt, hasNullAll, hlonger]
    rcases hpart with rfl | ⟨w, us, z, rfl, hz, hne⟩
    · refine iff_of_false ?_ fun h => h.2.1 rfl
      cases rest with
      | nil => exact id
      | cons w us =>
        have hpos := w.length_encode_pos
        rw [Misled, List.length_nil, if_neg (by omega)]
        exact fun h => Nat.lt_irrefl 0 h.1
    · have hlength := congrArg List.length hz
      have hpos := List.length_pos_iff.2 hne
      rw [List.length_append] at hlength
      rw [Misled, if_neg (by omega), List.length_pos_iff]
      exact ⟨fun h => ⟨rfl, h⟩, fun h => h.2⟩
  | cons w done ih =>
    have hlength : (encodeAll (w :: done) ++ b).length - w.encode.length = (encodeAll done ++ b).length := by
      rw [encodeAll, List.append_assoc, List.length_append]
      omega
    have hle : w.encode.length ≤ (encodeAll (w :: done) ++ b).length := by
      rw [encodeAll, List.append_assoc, List.length_append]
      omega
    rw [List.cons_append, Misled, if_pos hle, hlength, ih]
    unfold MisledAt
    rw [hasNullAll, excessAll, Bool.or_eq_false_iff, and_assoc, Int.add_assoc]

end WireValue

end Kagni
