import Kagni.Lemmas.Grammar

/-!
# Arrays in arrays

Nothing but the interpreter's call stack bounds the nesting of arrays a peer may announce. A stream is answered with anything
but a `ProtocolError` exactly when it opens more levels than the stack allows.
-/

namespace Kagni

open Lib

/-- A chunk of `cs` completes complete messages and then the opening of more than `depth` levels of arrays, and no chunk up to
there fills the buffer past its cap. -/
def Nests (depth : Nat) (cs : List Bytes) : Prop :=
  ∃ pre post frames vs rest, cs = pre ++ post ∧ pre.flatten = frames.flatten ++ rest ∧
    List.Forall₂ (fun w v => Message depth v w) frames vs ∧ Deep depth rest ∧
    ∀ a c b, pre = a ++ c :: b → FrameParser.pending frames a.flatten.length + c.length ≤ MAX_BUFFER

theorem feedAll_recursion_iff {depth : Nat} {cs : List Bytes} :
    (feedAll (depth + 1) [] cs).2.1 = some .recursion ↔ Nests (depth + 1) cs := by
  have hne : ParseExc.recursion ≠ .protocol .requestTooLarge := nofun
  rw [feedAll_eq]
  refine (FrameParser.raises_iff (parseFront_stable (depth + 1)) parseFront_take [] hne rfl).trans ?_
  simp only [List.nil_append, frames_iff, parseFront_recursion_iff]
  rfl

/-- Whatever the chunks, the calls of `feed` return lists and raise nothing but `ProtocolError`, unless the stream nests too
deep. -/
theorem feedAll_protocolError_iff (depth : Nat) (cs : List Bytes) :
    (∀ e, (feedAll (depth + 1) [] cs).2.1 = some e → ∃ p, e = .protocol p) ↔ ¬Nests (depth + 1) cs := by
  rw [← feedAll_recursion_iff]
  constructor
  · intro h hrec
    obtain ⟨p, hp⟩ := h _ hrec
    cases hp
  · intro h e he
    cases e with
    | protocol p => exact ⟨p, rfl⟩
    | recursion => exact absurd he h

/-- The openings of `n` arrays of one item. -/
def openings : Nat → Bytes
  | 0 => []
  | n + 1 => bs "*1\r\n" ++ openings n

theorem length_openings (n : Nat) : (openings n).length = 4 * n := by
  induction n with
  | zero => rfl
  | succ n ih =>
    rw [openings, List.length_append, ih, show (bs "*1\r\n").length = 4 by decide +kernel]
    omega

theorem deep_openings (n : Nat) : Deep n (openings n) := by
  induction n with
  | zero => trivial
  | succ n ih =>
    have hone : pyInt [49] = some ((1 : Nat) : Int) := by decide +kernel
    have hopens : Opens (Message n) (Deep n) (42 :: [49] ++ SYM_CRLF ++ ([].flatten ++ openings n)) :=
      .mk (by decide) hone .nil Nat.one_pos ih
    rw [openings, show bs "*1\r\n" = 42 :: [49] ++ SYM_CRLF by decide +kernel]
    exact hopens

theorem nests_openings {n : Nat} (h : 4 * n ≤ MAX_BUFFER) : Nests n [openings n] := by
  refine ⟨[openings n], [], [], [], openings n, rfl, by simp, .nil, deep_openings n, fun a c b hab => ?_⟩
  obtain ⟨rfl, rfl⟩ : a = [] ∧ c = openings n := by
    cases a with
    | nil => exact ⟨rfl, (List.cons.inj hab).1.symm⟩
    | cons d a => simp at hab
  rw [length_openings]
  simpa [FrameParser.pending] using h

/-- For every depth, four bytes for each level and four more. -/
theorem feedAll_openings (depth : Nat) (h : 4 * (depth + 1) ≤ MAX_BUFFER) :
    (feedAll (depth + 1) [] [openings (depth + 1)]).2.1 = some .recursion :=
  feedAll_recursion_iff.2 (nests_openings h)

/-- Four thousand bytes that open a thousand arrays. -/
theorem feedAll_protocolError_nested :
    ¬∀ (cs : List Bytes) (e : ParseExc), (feedAll 1000 [] cs).2.1 = some e → ∃ p, e = .protocol p := by
  intro h
  have hfit : 4 * (999 + 1) ≤ MAX_BUFFER := by
    unfold MAX_BUFFER
    omega
  have hrec := feedAll_openings 999 hfit
  generalize openings (999 + 1) = opened at hrec
  obtain ⟨p, hp⟩ := h _ _ hrec
  cases hp

end Kagni
