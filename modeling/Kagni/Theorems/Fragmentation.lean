import Kagni.Lemmas.Parse

/-!
# Fragmentation

A TCP stream arrives in chunks the server does not choose. What the pure reader makes of a stream does not depend on the chunks,
with one exception: a call that raises returns nothing, so the complete messages of the chunk that shows a malformed frame are
lost with it.
-/

namespace Kagni

open Lib

/-- Incremental parsing equals one-shot parsing. However a stream that fits the buffer is cut, the reader raises the same
exception or none; when it raises none it has returned the same messages and holds the same bytes. Underneath: what
`_parse_message` says about a prefix, a value or an error, it says about every extension. -/
theorem feedAll_fragmentation (depth : Nat) (stream : Bytes) (hs : stream.length ≤ MAX_BUFFER) (cs cs' : List Bytes)
    (h : cs.flatten = stream) (h' : cs'.flatten = stream) :
    (feedAll (depth + 1) [] cs).2.1 = (feedAll (depth + 1) [] cs').2.1 ∧
      ((feedAll (depth + 1) [] cs).2.1 = none →
        (feedAll (depth + 1) [] cs).1.flatten = (feedAll (depth + 1) [] cs').1.flatten ∧
          (feedAll (depth + 1) [] cs).2.2 = (feedAll (depth + 1) [] cs').2.2) ∧
      ∀ (buf ext : Bytes) (pos : Nat),
        (∀ r, _parse_message buf (depth + 1) pos = .ok (some r) →
          _parse_message (buf ++ ext) (depth + 1) pos = .ok (some r)) ∧
        (∀ e, _parse_message buf (depth + 1) pos = .error e →
          _parse_message (buf ++ ext) (depth + 1) pos = .error e) := by
  have key : ∀ c : List Bytes, c.flatten = stream → _ := fun c hc =>
    FrameParser.feedAll_eq (parseFront_stable (depth + 1)) MAX_BUFFER (.protocol .requestTooLarge)
      [] c rfl (by rw [hc]; exact hs)
  obtain ⟨h1, h2⟩ := key cs h
  obtain ⟨h1', h2'⟩ := key cs' h'
  rw [feedAll_eq, feedAll_eq]
  rw [h] at h1 h2
  rw [h'] at h1' h2'
  refine ⟨h1.trans h1'.symm, fun hn => ?_, fun buf ext pos => ?_⟩
  · obtain ⟨h3, h4⟩ := h2 (h1.symm.trans hn)
    obtain ⟨h3', h4'⟩ := h2' (h1.symm.trans hn)
    exact ⟨h3.trans h3'.symm, h4.trans h4'.symm⟩
  · rcases _parse_message_append buf ext (depth + 1) pos with hn | he
    · rw [hn]
      exact ⟨nofun, nofun⟩
    · rw [he]
      exact ⟨fun r hr => hr, fun e hr => hr⟩

/-- The stream of `feedAll_fragmentation` cut into single bytes: the cut falls inside the length line, between CR and LF and
inside a payload that holds a CRLF. -/
theorem feedAll_fragmentation_bytes :
    (feedAll 2 [] [bs "*1\r\n$4\r\na\r\nb\r\nPI"]).2.1 =
      (feedAll 2 [] ((bs "*1\r\n$4\r\na\r\nb\r\nPI").map fun c => [c])).2.1 :=
  (feedAll_fragmentation 1 (bs "*1\r\n$4\r\na\r\nb\r\nPI") (by decide +kernel) [bs "*1\r\n$4\r\na\r\nb\r\nPI"]
    ((bs "*1\r\n$4\r\na\r\nb\r\nPI").map fun c => [c]) (by decide +kernel) (by decide +kernel)).1

/-- A chunk of `cs` ends at or after the last of the messages `ms`, before the frame behind them shows its error (what has arrived
of it still asks for more), and no chunk up to there fills the buffer past its cap. -/
def ArriveBeforeError (depth : Nat) (ms cs : List Bytes) : Prop :=
  ∃ pre post, cs = pre ++ post ∧ ms.flatten.length ≤ pre.flatten.length ∧
    _parse_message (pre.flatten.drop ms.flatten.length) depth 0 = .ok none ∧
    ∀ a c b, pre = a ++ c :: b → FrameParser.pending ms a.flatten.length + c.length ≤ MAX_BUFFER

/-- Which messages a connection gets from a stream of complete messages that ends in a malformed frame: the reader has
returned all of them, in order, when it raises, if and only if they arrive before the error does. -/
theorem messages_before_malformed_iff (depth : Nat) (ms : List Bytes) (vs : List Value) (bad : Bytes) (e : ProtocolError)
    (cs : List Bytes)
    (hm : List.Forall₂ (fun m v => _parse_message m (depth + 1) 0 = .ok (some (v, m.length))) ms vs)
    (hbad : _parse_message bad (depth + 1) 0 = .error (.protocol e)) (h : cs.flatten = ms.flatten ++ bad) :
    (feedAll (depth + 1) [] cs).1.flatten = vs ↔ ArriveBeforeError (depth + 1) ms cs := by
  rw [feedAll_eq]
  exact FrameParser.returned_iff (parseFront_stable (depth + 1)) [] hm hbad rfl h

/-- A PING, then a bad multibulk length in a chunk of its own. -/
theorem messages_before_malformed_iff_two :
    (feedAll 2 [] [bs "PING\r\n", bs "*x\r\n"]).1.flatten = [.array [.bytes (bs "PING")]] ↔
      ArriveBeforeError 2 [bs "PING\r\n"] [bs "PING\r\n", bs "*x\r\n"] :=
  messages_before_malformed_iff 1 [bs "PING\r\n"] [.array [.bytes (bs "PING")]] (bs "*x\r\n") .invalidMultibulkLength
    [bs "PING\r\n", bs "*x\r\n"] (.cons (by decide +kernel) .nil) (by decide +kernel) (by decide +kernel)

/-- One chunk that holds a PING and a malformed frame: the reader raises and the PING is never returned. In two chunks it is. -/
theorem messages_before_malformed_lost :
    ¬∀ (ms : List Bytes) (vs : List Value) (bad : Bytes) (cs : List Bytes),
      List.Forall₂ (fun m v => _parse_message m 2 0 = .ok (some (v, m.length))) ms vs →
      (∃ e, _parse_message bad 2 0 = .error (.protocol e)) → cs.flatten = ms.flatten ++ bad →
      (feedAll 2 [] cs).1.flatten = vs := by
  intro h
  have := h [bs "PING\r\n"] [.array [.bytes (bs "PING")]] (bs "*x\r\n") [bs "PING\r\n*x\r\n"]
    (.cons (by decide +kernel) .nil) ⟨.invalidMultibulkLength, by decide +kernel⟩ (by decide +kernel)
  exact absurd this (by decide +kernel)

end Kagni
