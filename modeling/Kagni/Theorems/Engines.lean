import Kagni.Lemmas.Hiredis
import Kagni.Lemmas.Parse

/-!
# The two parse engines

Both engines read the same messages from a stream of framed and inline commands, as long as no chunk holds the end of a framed
command and the start of an inline line behind it: the hiredis engine hands the whole rest of a chunk to the C reader and finds
the boundary again only between two calls.
-/

namespace Kagni

open Lib

/-! ## The python engine -/

/-- The parser reads one command of the stream at the front of the buffer. -/
theorem parseFront_wire (depth : Nat) {i : Item} (hwf : i.WellFormed) (hlen : i.wire.length ≤ MAX_BUFFER) (rest : Bytes) :
    parseFront (depth + 2) (i.wire ++ rest) = .ok (some (i.message, i.wire.length)) := by
  cases i with
  | framed args => exact _parse_message_command depth rest hlen
  | inline line =>
    obtain ⟨hl, hhead⟩ := hwf
    obtain ⟨c, hc⟩ : ∃ c, (line ++ SYM_CRLF).head? = some c := by
      cases line with
      | nil => exact ⟨13, rfl⟩
      | cons c l => exact ⟨c, rfl⟩
    have hmark := hhead c hc
    simp only [_RESP_MARKERS, List.mem_cons, List.not_mem_nil, or_false, not_or] at hmark
    have hget : (line ++ SYM_CRLF ++ rest)[0]? = some c := by
      rw [← List.head?_eq_getElem?, List.head?_append, hc]
      rfl
    have hline := _read_line_line [] rest hl
    rw [List.nil_append, List.length_nil, Nat.zero_add] at hline
    rw [parseFront, Item.wire, _parse_message, hget]
    simp only [hmark.1, hmark.2.1, hmark.2.2.1, hmark.2.2.2.1, hmark.2.2.2.2, if_false, or_false, hline]
    rw [Item.message, List.length_append]
    rfl

/-- A scan of a stream of commands finds the messages and leaves nothing. -/
theorem scan_wires (depth : Nat) {items : List Item} (hwf : ∀ i ∈ items, i.WellFormed)
    (hlen : (wires items).length ≤ MAX_BUFFER) :
    FrameParser.scan (parseFront (depth + 2)) (wires items) = (items.map Item.message, [], none) := by
  induction items with
  | nil => exact FrameParser.scan_none rfl
  | cons i items ih =>
    rw [wires_cons, List.length_append] at hlen
    rw [wires_cons, FrameParser.scan_some (parseFront_stable _)
      (parseFront_wire depth (hwf i (by simp)) (by omega) (wires items)), List.drop_left,
      ih (fun j hj => hwf j (by simp [hj])) (by omega)]
    rfl

/-! ## The hiredis engine -/

variable {R : HiredisReader} {Unread : R.σ → Bytes → Prop}

/-- Reading chunk by chunk from between two calls, the engine returns the messages of the stream and raises nothing if and
only if a chunk ends wherever an inline line follows a framed command. -/
theorem feedAllHiredis_iff (hR : R.Exact Unread) {items : List Item} {b : Bytes} {cs : List Bytes} {r : RESPReader R}
    (hwf : ∀ i ∈ items, i.Fits) (hP : Pending Unread r b items) (h : b ++ cs.flatten = wires items)
    (hcap : (wires items).length ≤ MAX_BUFFER) :
    ((feedAllHiredis r cs).2 = none ∧ (feedAllHiredis r cs).1.flatten = items.map Item.message) ↔
      ∀ xs args line ys, items = xs ++ .framed args :: .inline line :: ys →
        ∃ pre post, cs = pre ++ post ∧ b ++ pre.flatten = wires (xs ++ [.framed args]) := by
  induction cs generalizing items b r with
  | nil =>
    have hitems : items = [] := by
      rw [List.flatten_nil, List.append_nil] at h
      rcases hP.begun with rfl | ⟨i, ys, z, hi, hz, hne⟩
      · exact wires_eq_nil h.symm
      · exfalso
        have hlen := congrArg List.length hz
        have hlen' := congrArg List.length h
        have hpos := List.length_pos_iff.2 hne
        simp only [hi, wires_cons, List.length_append] at hlen hlen'
        omega
    subst hitems
    simp [feedAllHiredis]
  | cons c cs ih =>
    rw [List.flatten_cons, ← List.append_assoc] at h
    have hcap' : (b ++ c).length ≤ MAX_BUFFER := by
      have := congrArg List.length h
      rw [List.length_append] at this
      omega
    obtain ⟨done, rest, y, rfl, hx, hy, hturn, hout⟩ := _feed_hiredis_spec hR hwf hP h hcap'
    -- what is pending is shorter than the first command of the stream
    have hshort : ∀ zs : List Item, zs ≠ [] → zs <+: done ++ rest → b.length < (wires zs).length := by
      intro zs hzs hpre
      cases zs with
      | nil => exact absurd rfl hzs
      | cons j zs =>
        have hpos := j.length_wire_pos
        rw [wires_cons, List.length_append]
        rcases hP.begun with rfl | ⟨i, ys, z, hi, hz, hne⟩
        · rw [List.length_nil]
          omega
        · rw [hi, List.cons_prefix_cons] at hpre
          have hlen := congrArg List.length hz
          have hzpos := List.length_pos_iff.2 hne
          rw [List.length_append] at hlen
          rw [hpre.1]
          omega
    rcases hout with ⟨r', hfeed, hP', hend⟩ | ⟨hyne, ⟨xs, args, line, ys, hdone, hrest⟩, hfeed⟩
    · rw [wires_append, List.length_append] at hcap
      have hih := ih (fun i hi => hwf i (by simp [hi])) hP' hy (by omega)
      rw [feedAllHiredis, hfeed]
      simp only [List.flatten_cons, List.map_append, List.append_cancel_left_eq]
      rw [hih]
      constructor
      · intro hall xs args line ys heq
        -- the framed command is one of the rest, the last of the done ones, or inside these
        rcases List.append_eq_append_iff.1 heq with ⟨xs', rfl, hrest⟩ | ⟨zs, hd, hrest⟩
        · obtain ⟨pre, post, rfl, hpre⟩ := hall xs' args line ys hrest
          refine ⟨c :: pre, post, rfl, ?_⟩
          rw [List.flatten_cons, ← List.append_assoc, hx, List.append_assoc, hpre, ← wires_append, List.append_assoc]
        · cases zs with
          | nil =>
            rw [List.nil_append] at hrest
            obtain ⟨pre, post, rfl, hpre⟩ := hall [] args line ys hrest.symm
            refine ⟨c :: pre, post, rfl, ?_⟩
            rw [List.append_nil] at hd
            rw [List.flatten_cons, ← List.append_assoc, hx, List.append_assoc, hpre, ← wires_append, hd, List.nil_append]
          | cons i zs =>
            rw [List.cons_append, List.cons.injEq] at hrest
            cases zs with
            | nil =>
              rw [← hrest.1] at hd
              obtain rfl := hend xs args line ys hd hrest.2.symm
              exact ⟨[c], cs, rfl, by simp [hx, hd]⟩
            | cons j zs =>
              rw [List.cons_append, List.cons.injEq] at hrest
              rw [← hrest.1, ← hrest.2.1] at hd
              exact absurd hd (hturn xs args line zs)
      · intro hall xs args line ys hrest
        obtain ⟨pre, post, hcs, hpre⟩ := hall (done ++ xs) args line ys (by rw [hrest, List.append_assoc])
        have hlong := hshort (done ++ xs ++ [.framed args]) (by simp) (by simp [hrest])
        rw [← hpre, List.length_append] at hlong
        cases pre with
        | nil => simp at hlong
        | cons d pre =>
          rw [List.cons_append, List.cons.injEq] at hcs
          obtain ⟨rfl, rfl⟩ := hcs
          refine ⟨pre, post, rfl, ?_⟩
          rw [List.flatten_cons, ← List.append_assoc, hx, List.append_assoc, List.append_assoc, wires_append,
            List.append_cancel_left_eq] at hpre
          exact hpre
    · -- an inline line follows in the same chunk
      constructor
      · rintro ⟨hnone, -⟩
        rw [feedAllHiredis] at hnone
        revert hnone hfeed
        cases _feed_hiredis r c with
        | mk out r' =>
          intro hfeed hnone
          rw [show out = .error .hiredis from hfeed] at hnone
          cases hnone
      · intro hall
        exfalso
        obtain ⟨pre, post, hcs, hpre⟩ := hall xs args line ys (by rw [hdone, hrest, List.append_assoc]; rfl)
        rw [← hdone] at hpre
        have hlong := hshort done (by simp [hdone]) (List.prefix_append _ _)
        have hypos := List.length_pos_iff.2 hyne
        rw [← hpre] at hlong hx
        cases pre with
        | nil => simp at hlong
        | cons d pre =>
          rw [List.cons_append, List.cons.injEq] at hcs
          obtain ⟨rfl, rfl⟩ := hcs
          have hlen := congrArg List.length hx
          simp only [List.flatten_cons, List.length_append] at hlen
          omega

/-- The two engines on a stream of commands, however it is cut: the python engine returns the messages; the hiredis engine returns
the same and raises nothing if and only if every inline line directly behind a framed command starts a chunk. -/
theorem engines_agree_iff (depth : Nat) (hR : R.Exact Unread) (items : List Item) (hwf : ∀ i ∈ items, i.WellFormed)
    (hlen : (wires items).length ≤ MAX_BUFFER) (cs : List Bytes) (h : cs.flatten = wires items) :
    (feedAll (depth + 2) [] cs).2.1 = none ∧ (feedAll (depth + 2) [] cs).1.flatten = items.map Item.message ∧
      (((feedAllHiredis (RESPReader.init R) cs).2 = none ∧
          (feedAllHiredis (RESPReader.init R) cs).1.flatten = (feedAll (depth + 2) [] cs).1.flatten) ↔
        InlineStartsChunk items cs) := by
  have hscan := scan_wires depth hwf hlen
  rw [← h] at hscan hlen
  obtain ⟨hnone, hmsgs⟩ := FrameParser.feedAll_eq (parseFront_stable (depth + 2)) MAX_BUFFER
    (.protocol .requestTooLarge) [] cs rfl (by simpa using hlen)
  rw [List.nil_append, hscan] at hnone hmsgs
  obtain ⟨hmsgs, -⟩ := hmsgs rfl
  rw [← feedAll_eq] at hnone hmsgs
  refine ⟨hnone, hmsgs, ?_⟩
  rw [hmsgs]
  have hfits : ∀ i ∈ items, i.Fits := by
    intro i hi
    obtain ⟨xs, ys, rfl⟩ := List.append_of_mem hi
    refine ⟨hwf i hi, ?_⟩
    rw [h, wires_append, wires_cons] at hlen
    simp only [List.length_append] at hlen
    omega
  have := feedAllHiredis_iff hR (r := RESPReader.init R) (b := []) hfits ⟨rfl, .inl ⟨rfl, rfl, rfl, hR.new, rfl, .inl rfl⟩⟩
    (by simpa using h) (by rw [← h]; exact hlen)
  simpa [InlineStartsChunk] using this

/-- A reader as the engine relies on it: the parser of arrays and bulk strings, which refuses to start at a byte that is no RESP
marker. `none` is the state after an exception. -/
def exactReader : HiredisReader where
  σ := Option Bytes
  new := some []
  feed s d := s.map (· ++ d)
  gets
    | none => (.error (), none)
    | some [] => (.ok none, some [])
    | some (c :: b) =>
      if c ∈ _RESP_MARKERS then
        match _parse_message (c :: b) 2 0 with
        | .ok none => (.ok none, some (c :: b))
        | .ok (some (v, n)) => (.ok (some v), some ((c :: b).drop n))
        | .error _ => (.error (), none)
      else (.error (), none)

theorem exactReader_exact : exactReader.Exact fun s b => s = some b where
  new := rfl
  feed := by
    rintro s b rfl d
    rfl
  command := by
    rintro s args rest hlen rfl
    refine ⟨some rest, ?_, rfl⟩
    have hparse := _parse_message_command 0 rest hlen
    have hc : command args ++ rest = 42 :: (decimalNat args.length ++ SYM_CRLF ++ args.flatMap bulk ++ rest) := rfl
    rw [hc] at hparse ⊢
    simp only [exactReader, show (42 : UInt8) ∈ _RESP_MARKERS by decide, if_true, hparse]
    rw [← hc, List.drop_left]
  partial_ := by
    rintro s b w args hlen rfl hbw hw
    refine ⟨some b, ?_, rfl⟩
    cases b with
    | nil => rfl
    | cons c b =>
      have hc : c = 42 := by
        rw [command, List.cons_append, List.cons_append, List.cons_append] at hbw
        exact (List.cons.inj hbw).1
      have hparse : _parse_message (c :: b) 2 0 = .ok none := by
        have hall := _parse_message_command 0 [] hlen
        rw [List.append_nil, ← hbw] at hall
        rcases _parse_message_append (c :: b) w 2 0 with hn | he
        · exact hn
        · rw [he] at hall
          have hsize := ((parseFront_stable 2).size hall).2
          have hpos := List.length_pos_iff.2 hw
          rw [List.length_append] at hsize
          omega
      subst hc
      simp only [exactReader, show (42 : UInt8) ∈ _RESP_MARKERS by decide, if_true, hparse]
  marker := by
    rintro s c rest rfl hc
    simp only [exactReader, if_neg hc]

/-- A framed PING and an inline PING in two chunks. -/
theorem engines_agree_iff_two :
    (feedAll 2 [] [bs "*1\r\n$4\r\nPING\r\n", bs "PING\r\n"]).2.1 = none ∧
      (feedAll 2 [] [bs "*1\r\n$4\r\nPING\r\n", bs "PING\r\n"]).1.flatten =
        [Item.framed [bs "PING"], Item.inline (bs "PING")].map Item.message ∧
      (((feedAllHiredis (RESPReader.init exactReader) [bs "*1\r\n$4\r\nPING\r\n", bs "PING\r\n"]).2 = none ∧
          (feedAllHiredis (RESPReader.init exactReader) [bs "*1\r\n$4\r\nPING\r\n", bs "PING\r\n"]).1.flatten =
            (feedAll 2 [] [bs "*1\r\n$4\r\nPING\r\n", bs "PING\r\n"]).1.flatten) ↔
        InlineStartsChunk [.framed [bs "PING"], .inline (bs "PING")] [bs "*1\r\n$4\r\nPING\r\n", bs "PING\r\n"]) := by
  refine engines_agree_iff 0 exactReader_exact [.framed [bs "PING"], .inline (bs "PING")] ?_ (by decide +kernel) _
    (by decide +kernel)
  rintro i hi
  rcases List.mem_cons.1 hi with rfl | hi
  · exact trivial
  · rw [List.mem_singleton.1 hi]
    refine ⟨by decide +kernel, fun c hc => ?_⟩
    have : (bs "PING" ++ SYM_CRLF).head? = some 80 := by decide +kernel
    rw [this, Option.some.injEq] at hc
    rw [← hc]
    decide

/-- The same two commands in one chunk: the hiredis engine raises, and neither is returned. -/
theorem engines_disagree :
    ¬∀ (R : HiredisReader) (Unread : R.σ → Bytes → Prop), R.Exact Unread → ∀ (items : List Item) (cs : List Bytes),
      (∀ i ∈ items, i.WellFormed) → (wires items).length ≤ MAX_BUFFER → cs.flatten = wires items →
      (feedAllHiredis (RESPReader.init R) cs).2 = none ∧
        (feedAllHiredis (RESPReader.init R) cs).1.flatten = (feedAll 2 [] cs).1.flatten := by
  intro h
  have := h exactReader _ exactReader_exact [.framed [bs "PING"], .inline (bs "PING")] [bs "*1\r\n$4\r\nPING\r\nPING\r\n"]
    ?_ (by decide +kernel) (by decide +kernel)
  · exact absurd this.1 (by decide +kernel)
  · rintro i hi
    rcases List.mem_cons.1 hi with rfl | hi
    · exact trivial
    · rw [List.mem_singleton.1 hi]
      refine ⟨by decide +kernel, fun c hc => ?_⟩
      have : (bs "PING" ++ SYM_CRLF).head? = some 80 := by decide +kernel
      rw [this, Option.some.injEq] at hc
      rw [← hc]
      decide

end Kagni
