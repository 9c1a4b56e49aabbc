import Kagni.Lemmas.Grammar

/-!
# Decoding undoes encoding

What `protocolBuilder` writes for byte strings, integers and lists of these is a message of the grammar, and the parser reads
the grammar. So every such value is read back, whatever follows it, and a sequence of them is returned by one call of `feed`,
as long as the reader accepts a buffer of that size.
-/

namespace Kagni

open Lib

/-- Every value of byte strings, 64-bit integers and lists within the parser's depth is encoded, and parsed back from the
front of any buffer that begins with its encoding, up to exactly the end of it. The reader returns a whole sequence of them at
once, when the buffer holds it. -/
theorem feed_protocolBuilder (depth : Nat) (vs : List Value) (hvs : ∀ v ∈ vs, v.Plain ∧ v.levels ≤ depth + 1) :
    ∃ ws, List.Forall₂ (fun v w => protocolBuilder (.ofValue v) = some w ∧
        ∀ suffix, _parse_message (w ++ suffix) (depth + 1) 0 = .ok (some (v, w.length))) vs ws ∧
      (ws.flatten.length ≤ MAX_BUFFER → _feed_python (depth + 1) [] ws.flatten = (.ok vs, [])) := by
  have hws : ∃ ws, List.Forall₂ (fun v w => protocolBuilder (.ofValue v) = some w ∧ Message (depth + 1) v w) vs ws := by
    induction vs with
    | nil => exact ⟨[], .nil⟩
    | cons v vs ih =>
      obtain ⟨hplain, hlevels⟩ := hvs v List.mem_cons_self
      obtain ⟨w, hw⟩ := message_of_plain hplain hlevels
      obtain ⟨ws, hws⟩ := ih fun v hv => hvs v (List.mem_cons_of_mem _ hv)
      exact ⟨w :: ws, .cons hw hws⟩
  obtain ⟨ws, hws⟩ := hws
  refine ⟨ws, ?_, fun hfit => ?_⟩
  · refine hws.imp fun v w ⟨hbuild, hmessage⟩ => ⟨hbuild, fun suffix => ?_⟩
    exact parseFront_eq_some_iff.2 ⟨w, suffix, rfl, hmessage, rfl⟩
  · have hframes : (parseFront (depth + 1)).Frames ws vs := frames_iff.2 (hws.flip.imp fun _ _ => And.right)
    have hscan := FrameParser.scan_frames (parseFront_stable (depth + 1)) hframes rfl
    rw [_feed_python_eq, FrameParser.feed_of_le (by simpa using hfit), List.nil_append, hscan]

/-- An integer, an empty list and a list that holds a payload with a CRLF in it. -/
theorem feed_protocolBuilder_three :
    ∃ ws, List.Forall₂ (fun v w => protocolBuilder (.ofValue v) = some w ∧
        ∀ suffix, _parse_message (w ++ suffix) 2 0 = .ok (some (v, w.length)))
        [.int (-7), .array [], .array [.bytes (bs "a\r\n"), .bytes []]] ws ∧
      (ws.flatten.length ≤ MAX_BUFFER →
        _feed_python 2 [] ws.flatten = (.ok [.int (-7), .array [], .array [.bytes (bs "a\r\n"), .bytes []]], [])) := by
  have hbytes {b : Bytes} (h : b.length < 10) : (Value.bytes b).Plain :=
    .bytes (h.trans_le (Nat.le_self_pow (by decide) 10))
  refine feed_protocolBuilder 1 _ ?_
  intro v hv
  simp only [List.mem_cons, List.not_mem_nil, or_false] at hv
  rcases hv with rfl | rfl | rfl
  · exact ⟨.int (by decide) (by decide), by decide⟩
  · exact ⟨.array (Nat.pow_pos (by decide)) nofun, by decide⟩
  · refine ⟨.array (Nat.lt_of_lt_of_le (by decide) (Nat.le_self_pow (by decide) 10)) fun v hv => ?_, by decide⟩
    simp only [List.mem_cons, List.not_mem_nil, or_false] at hv
    rcases hv with rfl | rfl
    · exact hbytes (by decide)
    · exact hbytes (by decide)

/-- The reader refuses a buffer above its limit, so the encoding of a payload of `MAX_BUFFER` bytes is not read back. -/
theorem feed_protocolBuilder_large :
    ¬∀ (depth : Nat) (vs : List Value) (ws : List Bytes), (∀ v ∈ vs, v.Plain ∧ v.levels ≤ depth + 1) →
      List.Forall₂ (fun v w => protocolBuilder (.ofValue v) = some w) vs ws →
        _feed_python (depth + 1) [] ws.flatten = (.ok vs, []) := by
  intro h
  obtain ⟨payload, hpayload⟩ : ∃ payload : Bytes, payload.length = MAX_BUFFER :=
    ⟨List.replicate MAX_BUFFER 0, List.length_replicate⟩
  have hplain : (Value.bytes payload).Plain := by
    refine .bytes ?_
    rw [hpayload]
    calc MAX_BUFFER < 10 ^ 9 := by decide
      _ ≤ 10 ^ MAX_STR_DIGITS := Nat.pow_le_pow_right (by decide) (by decide)
  have hread := h 0 [.bytes payload] _ (fun v hv => by rw [List.mem_singleton.1 hv]; exact ⟨hplain, Nat.le_refl 1⟩)
    (.cons rfl .nil)
  have hlarge : MAX_BUFFER < ([] ++ [joinLines [36 :: decimalNat payload.length, payload]].flatten).length := by
    simp [joinLines, hpayload]
    omega
  rw [_feed_python_eq, FrameParser.feed, if_pos hlarge] at hread
  cases hread

end Kagni
