import Kagni.Trio

/-!
# The order on the wire

The frames of a connection of the trio backend are to be written in the order in which they were made. They are not when a
direct reply finds `idle_event` set although frames wait in the channel: what is pushed to a connection does not clear it.
-/

namespace Kagni.Trio

open Lib

/-- The item the writer has taken. -/
def Writer.held : Writer → List Frame
  | .holding item => [item]
  | _ => []

namespace Reader

/-- The direct replies that are not written yet. -/
def direct : Reader → List Frame
  | .working _ direct => direct
  | .waiting _ direct _ _ => direct
  | _ => []

/-- The subscribed-mode reply that is not in the channel yet. -/
def inHand : Reader → List Frame
  | .waiting _ _ reply _ => reply.toList
  | .sending reply _ => reply.toList
  | .queueing reply _ => [reply]
  | _ => []

/-- The error line that is written at the end. -/
def line : Reader → List Frame
  | .draining error_line => [error_line]
  | _ => []

end Reader

namespace Conn

/-- The frames on the stream are in the order in which they were made. -/
def InOrder (c : Conn) : Prop := (c.stream.map Prod.fst).Pairwise (· < ·)

/-- What waits in the channel or in the hands of the writer. -/
def unsent (c : Conn) : List Frame := c.writer.held ++ c.queue

/-- The read task works, and a direct send would write at once. -/
def atOnce (c : Conn) : Bool := c.busy && c.idle_event && decide (c.send_lock = none)

/-- The read task has replies that wait, or will have to. -/
def holdsBack (c : Conn) : Bool :=
  match c.reader with
  | .working _ direct => decide (direct ≠ []) && !c.atOnce
  | .waiting .. => true
  | .sending reply _ => reply.isSome
  | .queueing .. => true
  | _ => false

/-- When an action keeps the order. A frame is pushed only while the read task does not hold replies back, and a reply goes
the direct way with `idle_event` set only when no frame waits for the writer. -/
def Orderly (c : Conn) : Act → Prop
  | .push _ => c.holdsBack = false
  | .read (.request outcome) => (outcome.pushed ≠ [] → c.holdsBack = false) ∧
      (outcome.reply ≠ none → outcome.subscribed = false → c.idle_event = true → c.unsent = [] ∧ outcome.pushed = [])
  | _ => True

/-! ## The invariant -/

/-- The frames were made one after the other, before the number `n`. -/
def Numbered (frames : List Frame) (n : Nat) : Prop := (frames.map Prod.fst).Pairwise (· < ·) ∧ ∀ f ∈ frames, f.1 < n

theorem Numbered.sublist {l l' : List Frame} {n : Nat} (h : Numbered l n) (hl : l'.Sublist l) : Numbered l' n :=
  ⟨h.1.sublist (hl.map _), fun f hf => h.2 f (hl.subset hf)⟩

theorem Numbered.push {l : List Frame} {n : Nat} (h : Numbered l n) (frame : Bytes) : Numbered (l ++ [(n, frame)]) (n + 1) := by
  refine ⟨?_, fun f hf => ?_⟩
  · rw [List.map_append, List.pairwise_append]
    refine ⟨h.1, List.pairwise_singleton .., fun a ha b hb => ?_⟩
    obtain ⟨f, hf, rfl⟩ := List.mem_map.1 ha
    obtain rfl : b = n := List.mem_singleton.1 hb
    exact h.2 f hf
  · rcases List.mem_append.1 hf with hf | hf
    · exact (h.2 f hf).trans (Nat.lt_succ_self n)
    · obtain rfl := List.mem_singleton.1 hf
      exact Nat.lt_succ_self n

theorem Numbered.succ {l : List Frame} {n : Nat} (h : Numbered l n) : Numbered l (n + 1) :=
  ⟨h.1, fun f hf => (h.2 f hf).trans (Nat.lt_succ_self n)⟩

/-- What is still to be written, in the order in which it was made. -/
def pending (c : Conn) : List Frame :=
  (if c.atOnce then c.reader.direct ++ c.unsent else c.unsent ++ c.reader.direct) ++ c.reader.inHand ++ c.reader.line

/-- A direct send that finds `idle_event` set, or waits for the lock, has nothing to overtake. -/
def drained (c : Conn) : Prop :=
  match c.reader with
  | .working _ direct => direct ≠ [] → c.idle_event = true → c.send_lock ≠ none → c.unsent = []
  | .waiting .idle _ _ _ => c.idle_event = true → c.unsent = []
  | .waiting .lock _ _ _ => c.unsent = []
  | _ => True

/-- The connection may write more than its error line. -/
def live (c : Conn) : Bool :=
  match c.reader with
  | .finished => false
  | _ => !c.cancelled

/-- The stream and what is still to be written are in order. -/
structure Sound (c : Conn) : Prop where
  written : Numbered (c.stream ++ c.reader.line) c.made
  all : c.live = true → Numbered (c.stream ++ c.pending) c.made
  drained : c.live = true → c.drained
  waiting : c.writer = .receiving → c.queue = []
  closed : c.reader.line ≠ [] → c.send_closed = true
  ended : c.reader = .finished → c.writer = .ended ∧ c.send_closed = true

theorem sound_opened : opened.Sound where
  written := ⟨List.Pairwise.nil, nofun⟩
  all _ := ⟨List.Pairwise.nil, nofun⟩
  drained _ := trivial
  waiting _ := rfl
  closed h := absurd rfl h
  ended h := nomatch h

theorem Sound.inOrder {c : Conn} (h : c.Sound) : c.InOrder := (h.written.sublist (List.sublist_append_left ..)).1

/-! ## The channel -/

/-- An item that is sent comes after what waits. -/
theorem send_nowait_eq {c c' : Conn} {item : Frame} (hw : c.writer = .receiving → c.queue = [])
    (h : c.send_nowait item = some c') :
    ∃ writer queue, c' = { c with writer, queue } ∧ writer.held ++ queue = c.unsent ++ [item] ∧ writer ≠ .receiving := by
  unfold send_nowait at h
  unfold unsent
  split at h
  · rename_i hwriter
    refine ⟨.holding item, c.queue, (Option.some.inj h).symm, ?_, nofun⟩
    rw [hwriter, hw hwriter]
    rfl
  · rename_i hwriter
    split at h
    · refine ⟨c.writer, c.queue ++ [item], (Option.some.inj h).symm, (List.append_assoc ..).symm, hwriter⟩
    · cases h

/-- While nothing is held back, a frame that is pushed is the last. -/
theorem pending_push {c c' : Conn} {item : Frame} (hfree : c.holdsBack = false) (hline : c.reader.line = [])
    (hr : c'.reader = c.reader)
    (hi : c'.idle_event = c.idle_event) (hl : c'.send_lock = c.send_lock) (hu : c'.unsent = c.unsent ++ [item]) :
    c'.pending = c.pending ++ [item] := by
  have honce : c'.atOnce = c.atOnce := by
    unfold atOnce busy
    rw [hr, hi, hl]
  unfold pending
  rw [honce, hr, hu, hline]
  unfold holdsBack at hfree
  cases hreader : c.reader with
  | working requests direct =>
    rw [hreader] at hfree
    cases honce' : c.atOnce with
    | true => simp [Reader.direct, Reader.inHand]
    | false =>
      obtain rfl : direct = [] := by simpa [honce'] using hfree
      simp [Reader.direct, Reader.inHand]
  | waiting on direct reply requests =>
    rw [hreader] at hfree
    cases hfree
  | sending reply requests =>
    rw [hreader] at hfree
    obtain rfl : reply = none := Option.isNone_iff_eq_none.1 (by simpa using hfree)
    simp [Reader.direct, Reader.inHand]
  | queueing reply requests =>
    rw [hreader] at hfree
    cases hfree
  | _ => simp [Reader.direct, Reader.inHand]

theorem drained_push {c c' : Conn} (hfree : c.holdsBack = false) (hr : c'.reader = c.reader) (hi : c'.idle_event = c.idle_event)
    (hl : c'.send_lock = c.send_lock) : c'.drained := by
  unfold drained
  unfold holdsBack at hfree
  rw [hr, hi, hl]
  cases hreader : c.reader with
  | working requests direct =>
    rw [hreader] at hfree
    intro hdirect hidle hlock
    have honce : c.atOnce = false := by simp [atOnce, hlock]
    simp [hdirect, honce] at hfree
  | waiting on direct reply requests =>
    rw [hreader] at hfree
    cases hfree
  | _ => trivial

/-- What a push does not touch. -/
theorem push_frame_same {c c' : Conn} {frame : Bytes} (hw : c.writer = .receiving → c.queue = [])
    (h : c.push_frame frame = some c') :
    c'.reader = c.reader ∧ c'.idle_event = c.idle_event ∧ c'.send_lock = c.send_lock ∧ c'.stream = c.stream ∧
      c.send_closed = false ∧
      c'.send_closed = false ∧ c'.made = c.made + 1 ∧ (c'.writer = .receiving → c'.queue = []) ∧
      (c'.cancelled = true ∨ c'.cancelled = c.cancelled ∧ c'.unsent = c.unsent ++ [(c.made, frame)]) := by
  unfold push_frame at h
  split at h
  · cases h
  · rename_i hopen
    have hopen : c.send_closed = false := eq_false_of_ne_true hopen
    obtain rfl := Option.some.inj h
    cases hsend : { c with made := c.made + 1 }.send_nowait (c.made, frame) with
    | none => exact ⟨rfl, rfl, rfl, rfl, hopen, hopen, rfl, hw, .inl rfl⟩
    | some d =>
      obtain ⟨writer, queue, rfl, hunsent, hwriter⟩ := send_nowait_eq (c := { c with made := c.made + 1 }) hw hsend
      exact ⟨rfl, rfl, rfl, rfl, hopen, hopen, rfl, fun h => absurd h hwriter, .inr ⟨rfl, hunsent⟩⟩

theorem live_eq {c : Conn} (h : c.live = true) : c.cancelled = false := by
  unfold live at h
  split at h
  · cases h
  · simpa using h

theorem Sound.push {c c' : Conn} {frame : Bytes} (h : c.Sound) (hfree : c.holdsBack = false)
    (hpush : c.push_frame frame = some c') :
    c'.Sound := by
  obtain ⟨hr, hi, hl, hstream, hopen, hopen', hmade, hwaiting, hunsent⟩ := push_frame_same h.waiting hpush
  have hline : c.reader.line = [] := by
    by_contra hne
    rw [h.closed hne] at hopen
    cases hopen
  refine ⟨?_, fun hlive => ?_, fun _ => drained_push hfree hr hi hl, hwaiting, fun hne => absurd (hr ▸ hline) hne,
    fun hover => ?_⟩
  · rw [hstream, hr, hmade]
    exact h.written.succ
  · rcases hunsent with hcancelled | ⟨hsame, hunsent⟩
    · rw [live_eq hlive] at hcancelled
      cases hcancelled
    · have hlive' : c.live = true := by
        rw [← hlive]
        unfold live
        rw [hr, hsame]
      rw [pending_push hfree hline hr hi hl hunsent, hstream, hmade, ← List.append_assoc]
      exact (h.all hlive').push frame
  · rw [(h.ended (hr ▸ hover)).2] at hopen
    cases hopen

/-- The frames a dispatch pushes to its own connection. -/
theorem Sound.pushes {c c' : Conn} {frames : List Bytes} (h : c.Sound) (hfree : frames ≠ [] → c.holdsBack = false)
    (hpush : frames.foldlM push_frame c = some c') :
    c'.Sound ∧ c'.reader = c.reader ∧ c'.idle_event = c.idle_event ∧ c'.send_lock = c.send_lock ∧ (frames = [] → c' = c) := by
  induction frames generalizing c with
  | nil =>
    obtain rfl := Option.some.inj hpush
    exact ⟨h, rfl, rfl, rfl, fun _ => rfl⟩
  | cons frame frames ih =>
    rw [List.foldlM_cons] at hpush
    obtain ⟨d, hd, hrest⟩ := Option.bind_eq_some_iff.1 hpush
    have hfree := hfree nofun
    obtain ⟨hr, hi, hl, -⟩ := push_frame_same h.waiting hd
    have hfree' : d.holdsBack = false := by
      rw [← hfree]
      unfold holdsBack atOnce busy
      rw [hr, hi, hl]
    obtain ⟨hsound, hr', hi', hl', -⟩ := ih (h.push hfree hd) (fun _ => hfree') hrest
    exact ⟨hsound, hr'.trans hr, hi'.trans hi, hl'.trans hl, nofun⟩

/-! ## The read task -/

theorem sound_queueReply {c : Conn} {reply : Frame} (requests : List Value) (hwritten : Numbered c.stream c.made)
    (hall : c.cancelled = false → Numbered (c.stream ++ c.unsent ++ [reply]) c.made) (hw : c.writer = .receiving → c.queue = []) :
    (c.queueReply reply requests).Sound := by
  unfold queueReply
  dsimp only
  cases hsend : { c with idle_event := false }.send_nowait reply with
  | some d =>
    obtain ⟨writer, queue, rfl, hunsent, hwriter⟩ := send_nowait_eq (c := { c with idle_event := false }) hw hsend
    refine ⟨by simpa [Reader.line] using hwritten, fun hlive => ?_, fun _ => trivial, fun h => absurd h hwriter,
      fun h => absurd rfl h, nofun⟩
    have hpending : ({ c with idle_event := false, writer, queue, reader := .yielding requests } : Conn).pending =
        c.unsent ++ [reply] := by
      rw [show c.unsent = ({ c with idle_event := false } : Conn).unsent from rfl, ← hunsent]
      simp [pending, atOnce, busy, Reader.direct, Reader.inHand, Reader.line, unsent]
    rw [hpending, ← List.append_assoc]
    exact hall (live_eq hlive :)
  | none =>
    refine ⟨by simpa [Reader.line] using hwritten, fun hlive => ?_, fun _ => trivial, hw, fun h => absurd rfl h, nofun⟩
    have hpending : ({ c with idle_event := false, reader := .queueing reply requests } : Conn).pending =
        c.unsent ++ [reply] := by
      simp [pending, atOnce, busy, Reader.direct, Reader.inHand, Reader.line, unsent]
    rw [hpending, ← List.append_assoc]
    exact hall (live_eq hlive :)

theorem sound_locked_send {c : Conn} {direct : List Frame} {reply : Option Frame} (requests : List Value)
    (hwritten : Numbered c.stream c.made)
    (hall : c.cancelled = false → Numbered (c.stream ++ direct ++ c.unsent ++ reply.toList) c.made)
    (hlock : c.cancelled = false → c.send_lock ≠ none → c.unsent = []) (hw : c.writer = .receiving → c.queue = []) :
    (c._locked_send direct reply requests).Sound := by
  unfold _locked_send
  split
  · rename_i hfree
    refine ⟨?_, fun _ => ?_, fun _ => trivial, hw, fun h => absurd rfl h, nofun⟩
    · refine (hall hfree.2).sublist ?_
      simp [Reader.line, List.append_assoc]
    · have hpending : ({ c with send_lock := some .reader, stream := c.stream ++ direct, reader := .sending reply requests } :
        Conn).pending =
          c.unsent ++ reply.toList := by
        simp [pending, atOnce, busy, Reader.direct, Reader.inHand, Reader.line, unsent]
      rw [hpending, ← List.append_assoc]
      exact hall hfree.2
  · rename_i htaken
    have hunsent (hlive : c.cancelled = false) : c.unsent = [] := hlock hlive fun hnone => htaken ⟨hnone, hlive⟩
    refine ⟨by simpa [Reader.line] using hwritten, fun hlive => ?_, fun hlive => hunsent (live_eq hlive :), hw,
      fun h => absurd rfl h, nofun⟩
    have hpending : ({ c with reader := .waiting .lock direct reply requests } : Conn).pending = c.unsent ++
        direct ++ reply.toList := by
      simp [pending, atOnce, busy, Reader.direct, Reader.inHand, Reader.line, unsent]
    have hlive : c.cancelled = false := (live_eq hlive :)
    have hall := hall hlive
    rw [hunsent hlive, List.append_nil] at hall
    rw [hpending, hunsent hlive, List.nil_append, ← List.append_assoc]
    exact hall

theorem sound_direct_send {c : Conn} {direct : List Frame} {reply : Option Frame} (requests : List Value)
    (hwritten : Numbered c.stream c.made)
    (hidle : c.idle_event = true → c.cancelled = false →
      Numbered (c.stream ++ direct ++ c.unsent ++ reply.toList) c.made ∧ (c.send_lock ≠ none → c.unsent = []))
    (hwait : c.idle_event = false → c.cancelled = false → Numbered (c.stream ++ c.unsent ++ direct ++ reply.toList) c.made)
    (hw : c.writer = .receiving → c.queue = []) : (c._direct_send direct reply requests).Sound := by
  unfold _direct_send
  split
  · rename_i hset
    exact sound_locked_send requests hwritten (fun hlive => (hidle hset hlive).1) (fun hlive => (hidle hset hlive).2) hw
  · rename_i hclear
    refine ⟨by simpa [Reader.line] using hwritten, fun hlive => ?_, fun _ hset => absurd hset hclear, hw,
      fun h => absurd rfl h, nofun⟩
    have hpending : ({ c with reader := .waiting .idle direct reply requests } : Conn).pending = c.unsent ++
        direct ++ reply.toList := by
      simp [pending, atOnce, busy, Reader.direct, Reader.inHand, Reader.line, unsent]
    rw [hpending, ← List.append_assoc, ← List.append_assoc]
    exact hwait (eq_false_of_ne_true hclear) (live_eq hlive :)

/-- While the read task works: what a direct send would write comes first if `idle_event` is set, and last otherwise. -/
theorem Sound.working {c : Conn} (h : c.Sound) {requests : List Value} {direct : List Frame}
    (hreader : c.reader = .working requests direct) :
    Numbered c.stream c.made ∧ (c.cancelled = false →
      (c.idle_event = true → Numbered (c.stream ++ direct ++ c.unsent) c.made ∧
        (direct ≠ [] → c.send_lock ≠ none → c.unsent = [])) ∧
      (c.idle_event = false → Numbered (c.stream ++ c.unsent ++ direct) c.made)) := by
  refine ⟨h.written.sublist (List.sublist_append_left ..), fun hcancelled => ?_⟩
  have hlive : c.live = true := by
    unfold live
    rw [hreader, hcancelled]
    rfl
  have hall := h.all hlive
  have hdrained := h.drained hlive
  unfold Conn.drained at hdrained
  rw [hreader] at hdrained
  have hpending : c.pending = if c.atOnce then direct ++ c.unsent else c.unsent ++ direct := by
    simp [pending, hreader, Reader.direct, Reader.inHand, Reader.line]
  rw [hpending] at hall
  refine ⟨fun hset => ⟨?_, fun hdirect hlock => hdrained hdirect hset hlock⟩, fun hclear => ?_⟩
  · by_cases hlock : c.send_lock = none
    · have honce : c.atOnce = true := by simp [atOnce, busy, hreader, hset, hlock]
      rw [honce, if_pos rfl, ← List.append_assoc] at hall
      exact hall
    · have honce : c.atOnce = false := by simp [atOnce, hlock]
      rw [honce, if_neg Bool.false_ne_true, ← List.append_assoc] at hall
      -- the lock is taken, so nothing waits behind the direct replies
      by_cases hdirect : direct = []
      · subst hdirect
        simpa using hall
      · rw [hdrained hdirect hset hlock] at hall ⊢
        simpa using hall
  · have honce : c.atOnce = false := by simp [atOnce, hclear]
    rw [honce, if_neg Bool.false_ne_true, ← List.append_assoc] at hall
    exact hall

theorem Sound.reply {c : Conn} (h : c.Sound) {all requests : List Value} {direct : List Frame}
    (hreader : c.reader = .working all direct)
    {subscribed : Bool} (hquiet : subscribed = false → c.idle_event = true → c.unsent = []) (frame : Bytes) :
    (c.reply requests direct subscribed frame).Sound := by
  obtain ⟨hwritten, hworking⟩ := h.working hreader
  unfold Conn.reply
  dsimp only
  cases subscribed with
  | true =>
    rw [if_pos rfl]
    split
    · rename_i hdirect
      subst hdirect
      refine sound_queueReply requests hwritten.succ (fun hlive => ?_) h.waiting
      obtain ⟨hset, hclear⟩ := hworking hlive
      refine Numbered.push (l := c.stream ++ c.unsent) ?_ frame
      cases hidle : c.idle_event with
      | true => simpa using (hset hidle).1
      | false => simpa using hclear hidle
    · rename_i hdirect
      refine sound_direct_send requests hwritten.succ (fun hidle hlive => ⟨?_, fun hlock => ?_⟩) (fun hidle hlive => ?_) h.waiting
      · exact ((hworking hlive).1 hidle).1.push frame
      · exact ((hworking hlive).1 hidle).2 hdirect hlock
      · exact ((hworking hlive).2 hidle).push frame
  | false =>
    rw [if_neg Bool.false_ne_true]
    refine ⟨by simpa [Reader.line] using hwritten.succ, fun hlive => ?_, fun hlive _ hidle _ => hquiet rfl hidle,
      h.waiting, fun h => absurd rfl h, nofun⟩
    have hlive : c.cancelled = false := (live_eq hlive :)
    have hpending : ({ c with made := c.made + 1, reader := .working requests (direct ++ [(c.made, frame)]) } : Conn).pending =
        if c.atOnce then direct ++ [(c.made, frame)] ++ c.unsent else c.unsent ++ (direct ++ [(c.made, frame)]) := by
      simp [pending, atOnce, busy, hreader, Reader.direct, Reader.inHand, Reader.line, unsent]
    rw [hpending]
    split
    · rename_i honce
      have hidle : c.idle_event = true := by
        simp only [atOnce, Bool.and_eq_true] at honce
        exact honce.1.2
      have hall := ((hworking hlive).1 hidle).1.push frame
      rw [hquiet rfl hidle] at hall ⊢
      simpa using hall
    · cases hidle : c.idle_event with
      | true =>
        have hall := ((hworking hlive).1 hidle).1.push frame
        rw [hquiet rfl hidle] at hall ⊢
        simpa using hall
      | false => simpa using ((hworking hlive).2 hidle).push frame

/-- What is still to be written while no request is dispatched. -/
theorem pending_of_not_busy {c : Conn} (h : c.busy = false) :
    c.pending = c.unsent ++ c.reader.direct ++ c.reader.inHand ++ c.reader.line := by
  simp [pending, atOnce, h]

/-- A read task that holds no reply. -/
theorem sound_empty {c : Conn} {reader : Reader} (hwritten : Numbered c.stream c.made)
    (hall : c.cancelled = false → Numbered (c.stream ++ c.unsent) c.made) (hw : c.writer = .receiving → c.queue = [])
    (hreader : reader.direct = [] ∧ reader.inHand = [] ∧ reader.line = []) (hdrained : ({ c with reader } : Conn).drained)
    (hover : reader ≠ .finished) : ({ c with reader } : Conn).Sound := by
  obtain ⟨hdirect, hhand, hline⟩ := hreader
  refine ⟨?_, fun hlive => ?_, fun _ => hdrained, hw, fun hne => absurd hline hne, fun h => absurd h hover⟩
  · simpa [hline] using hwritten
  · have hpending : ({ c with reader } : Conn).pending = c.unsent := by
      simp [pending, hdirect, hhand, hline, unsent]
    rw [hpending]
    exact hall (live_eq hlive :)

theorem Sound.read {c c' : Conn} {act : ReadAct} (h : c.Sound) (hact : c.Orderly (.read act)) (hread : c.read act = some c') :
    c'.Sound := by
  have hwritten : Numbered c.stream c.made := h.written.sublist (List.sublist_append_left ..)
  -- the frames still to be written while the read task does not work
  have hall (hbusy : c.busy = false) (hover : c.reader ≠ .finished) (hcancelled : c.cancelled = false) :
      Numbered (c.stream ++ (c.unsent ++ c.reader.direct ++ c.reader.inHand ++ c.reader.line)) c.made := by
    rw [← pending_of_not_busy hbusy]
    refine h.all ?_
    unfold live
    split
    · rename_i hreader
      exact absurd hreader hover
    · rw [hcancelled]
      rfl
  unfold Conn.read at hread
  split at hread
  · -- a chunk
    rename_i requests hreader
    obtain rfl := Option.some.inj hread
    refine sound_empty hwritten (fun hlive => ?_) h.waiting ⟨rfl, rfl, rfl⟩ (fun hne => absurd rfl hne) nofun
    simpa [hreader, Reader.direct, Reader.inHand, Reader.line] using hall (by simp [busy, hreader]) (by simp [hreader]) hlive
  · -- a protocol error
    rename_i text hreader
    obtain rfl := Option.some.inj hread
    refine ⟨hwritten.push _, fun hlive => ?_, fun _ => trivial, h.waiting, fun _ => rfl, nofun⟩
    have hall := hall (by simp [busy, hreader]) (by simp [hreader]) (live_eq hlive :)
    simp only [hreader, Reader.direct, Reader.inHand, Reader.line, List.append_nil] at hall
    have hpending : ({ c with send_closed := true, made := c.made + 1, reader := .draining (c.made, errorLine text) } :
      Conn).pending =
        c.unsent ++ [(c.made, errorLine text)] := by
      simp [pending, atOnce, busy, Reader.direct, Reader.inHand, Reader.line, unsent]
    rw [hpending, ← List.append_assoc]
    exact hall.push _
  · -- the peer is gone
    rename_i hreader
    obtain rfl := Option.some.inj hread
    refine sound_empty hwritten (fun hlive => ?_) h.waiting ⟨rfl, rfl, rfl⟩ trivial nofun
    simpa [hreader, Reader.direct, Reader.inHand, Reader.line] using hall (by simp [busy, hreader]) (by simp [hreader]) hlive
  · -- a request
    rename_i message requests direct outcome hreader
    obtain ⟨d, hpushed, rfl⟩ := Option.map_eq_some_iff.1 hread
    obtain ⟨hsound, hr, hi, hl, hnone⟩ := h.pushes hact.1 hpushed
    rw [hreader] at hr
    cases hreply : outcome.reply with
    | none =>
      dsimp only
      have honce : ({ d with reader := .working requests direct } : Conn).atOnce = d.atOnce := by simp [atOnce, busy, hr]
      have hlive : ({ d with reader := .working requests direct } : Conn).live = d.live := by simp [live, hr]
      have hpending : ({ d with reader := .working requests direct } : Conn).pending = d.pending := by
        unfold pending
        rw [honce, hr]
        rfl
      have hdrained : ({ d with reader := .working requests direct } : Conn).drained = d.drained := by
        unfold Conn.drained
        rw [hr]
        rfl
      refine ⟨?_, fun h => ?_, fun h => ?_, hsound.waiting, fun hne => absurd rfl hne, nofun⟩
      · simpa [hr, Reader.line] using hsound.written
      · rw [hpending]
        exact hsound.all (hlive ▸ h)
      · rw [hdrained]
        exact hsound.drained (hlive ▸ h)
    | some frame =>
      refine hsound.reply hr (fun hsubscribed hidle => ?_) frame
      obtain ⟨hunsent, hnil⟩ := hact.2 (by simp [hreply]) hsubscribed (hi ▸ hidle)
      rw [hnone hnil]
      exact hunsent
  · -- dispatching raises
    obtain rfl := Option.some.inj hread
    exact sound_empty (c := { c with cancelled := true }) hwritten nofun h.waiting ⟨rfl, rfl, rfl⟩ trivial nofun
  · -- the end of the chunk
    rename_i direct hreader
    obtain rfl := Option.some.inj hread
    obtain ⟨-, hworking⟩ := h.working hreader
    split
    · rename_i hdirect
      subst hdirect
      refine sound_empty hwritten (fun hlive => ?_) h.waiting ⟨rfl, rfl, rfl⟩ trivial nofun
      cases hidle : c.idle_event with
      | true => simpa using ((hworking hlive).1 hidle).1
      | false => simpa using (hworking hlive).2 hidle
    · rename_i hdirect
      refine sound_direct_send [] hwritten (fun hidle hlive => ⟨?_, ((hworking hlive).1 hidle).2 hdirect⟩)
        (fun hidle hlive => ?_) h.waiting
      · simpa using ((hworking hlive).1 hidle).1
      · simpa using (hworking hlive).2 hidle
  · -- the channel is drained
    rename_i direct reply requests hreader
    split at hread
    · rename_i hidle
      obtain rfl := Option.some.inj hread
      have hunsent (hlive : c.cancelled = false) : c.unsent = [] := by
        have hdrained := h.drained (by simp [live, hreader, hlive])
        unfold Conn.drained at hdrained
        rw [hreader] at hdrained
        exact hdrained hidle
      refine sound_locked_send requests hwritten (fun hlive => ?_) (fun hlive _ => hunsent hlive) h.waiting
      have hall := hall (by simp [busy, hreader]) (by simp [hreader]) hlive
      rw [hunsent hlive] at hall ⊢
      simpa [hreader, Reader.direct, Reader.inHand, Reader.line] using hall
    · cases hread
  · -- the lock is free
    rename_i direct reply requests hreader
    split at hread
    · rename_i hfree
      obtain rfl := Option.some.inj hread
      have hunsent (hlive : c.cancelled = false) : c.unsent = [] := by
        have hdrained := h.drained (by simp [live, hreader, hlive])
        unfold Conn.drained at hdrained
        rw [hreader] at hdrained
        exact hdrained
      refine sound_locked_send requests hwritten (fun hlive => ?_) (fun hlive _ => hunsent hlive) h.waiting
      have hall := hall (by simp [busy, hreader]) (by simp [hreader]) hlive
      rw [hunsent hlive] at hall ⊢
      simpa [hreader, Reader.direct, Reader.inHand, Reader.line] using hall
    · cases hread
  · -- a direct send is done
    rename_i reply requests hreader
    have hall (hlive : c.cancelled = false) : Numbered (c.stream ++ c.unsent ++ reply.toList) c.made := by
      simpa [hreader, Reader.direct, Reader.inHand, Reader.line] using hall (by simp [busy, hreader]) (by simp [hreader]) hlive
    dsimp only at hread
    cases reply with
    | none =>
      obtain rfl := Option.some.inj hread
      exact sound_empty (c := { c with send_lock := none }) hwritten (fun hlive => by simpa [unsent] using hall hlive)
        h.waiting ⟨rfl, rfl, rfl⟩ trivial nofun
    | some reply =>
      obtain rfl := Option.some.inj hread
      exact sound_queueReply (c := { c with send_lock := none }) requests hwritten hall h.waiting
  · -- a direct send fails
    rename_i reply requests hreader
    obtain rfl := Option.some.inj hread
    refine sound_empty (c := { c with send_lock := none }) hwritten (fun hlive => ?_) h.waiting ⟨rfl, rfl, rfl⟩ trivial nofun
    refine (hall (by simp [busy, hreader]) (by simp [hreader]) hlive).sublist ?_
    simp [hreader, Reader.direct, Reader.inHand, Reader.line, unsent]
  · -- the next request of the chunk
    rename_i requests hreader
    obtain rfl := Option.some.inj hread
    refine sound_empty hwritten (fun hlive => ?_) h.waiting ⟨rfl, rfl, rfl⟩ (fun hne => absurd rfl hne) nofun
    simpa [hreader, Reader.direct, Reader.inHand, Reader.line] using hall (by simp [busy, hreader]) (by simp [hreader]) hlive
  · cases hread

/-! ## The writer -/

/-- The writer leaves what waits as it is. -/
theorem Sound.of_unsent {c c' : Conn} (h : c.Sound) (hbusy : c.busy = false) (hr : c'.reader = c.reader)
    (hu : c'.unsent = c.unsent)
    (hs : c'.stream = c.stream) (hm : c'.made = c.made) (hc : c'.cancelled = c.cancelled)
    (hclosed : c'.send_closed = c.send_closed)
    (hidle : c'.idle_event = c.idle_event ∨ c.unsent = []) (hw : c'.writer = .receiving → c'.queue = [])
    (hover : c.reader = .finished → c'.writer = .ended) : c'.Sound := by
  have hlive : c'.live = c.live := by
    unfold live
    rw [hr, hc]
  refine ⟨?_, fun hl => ?_, fun hl => ?_, hw, fun hne => ?_, fun hfin => ?_⟩
  · rw [hs, hr, hm]
    exact h.written
  · rw [hs, hm, pending_of_not_busy (by rw [busy, hr]; exact hbusy), hr, hu, ← pending_of_not_busy hbusy]
    exact h.all (hlive ▸ hl)
  · have hdrained := h.drained (hlive ▸ hl)
    unfold Conn.drained at hdrained ⊢
    rw [hr, hu]
    cases hreader : c.reader with
    | working requests direct => simp [busy, hreader] at hbusy
    | waiting on direct reply requests =>
      rw [hreader] at hdrained
      cases on with
      | lock => exact hdrained
      | idle =>
        intro hset
        rcases hidle with hidle | hunsent
        · exact hdrained (hidle ▸ hset)
        · exact hunsent
    | _ => trivial
  · rw [hclosed]
    exact h.closed (hr ▸ hne)
  · rw [hclosed]
    exact ⟨hover (hr ▸ hfin), (h.ended (hr ▸ hfin)).2⟩

theorem Sound.receive_nowait {c : Conn} (h : c.Sound) (hbusy : c.busy = false) (hsending : c.writer = .sending) :
    ({ c with send_lock := none } : Conn).receive_nowait.Sound := by
  have hover : c.reader ≠ .finished := by
    intro hfin
    rw [(h.ended hfin).1] at hsending
    cases hsending
  have hunsent : c.unsent = c.queue := by
    rw [unsent, hsending]
    rfl
  unfold Conn.receive_nowait
  dsimp only
  cases hqueue : c.queue with
  | nil =>
    dsimp only
    rw [hqueue] at hunsent
    split
    · exact h.of_unsent hbusy rfl (by simp [unsent, hqueue, Writer.held, hsending]) rfl rfl rfl rfl (.inl rfl) nofun
        (fun hfin => absurd hfin hover)
    · exact h.of_unsent hbusy rfl (by simp [unsent, hqueue, Writer.held, hsending]) rfl rfl rfl rfl (.inr hunsent) (fun _ => rfl)
        (fun hfin => absurd hfin hover)
  | cons item queue =>
    cases hreader : c.reader with
    | queueing reply requests =>
      -- the blocked reply gets the free place
      refine ⟨by simpa [hreader, Reader.line] using h.written, fun hlive => ?_, fun _ => trivial, nofun,
        fun hne => absurd rfl hne, nofun⟩
      have hall := h.all (by simpa [live, hreader] using hlive)
      rw [pending_of_not_busy hbusy, hunsent, hqueue, hreader] at hall
      rw [pending_of_not_busy rfl]
      simpa [unsent, Writer.held, Reader.direct, Reader.inHand, Reader.line] using hall
    | _ =>
      refine h.of_unsent hbusy hreader.symm ?_ rfl rfl rfl rfl (.inl rfl) nofun (fun hfin => absurd hfin hover)
      rw [hunsent, hqueue]
      rfl

theorem Sound.write {c c' : Conn} {act : WriteAct} (h : c.Sound) (hbusy : c.busy = false) (hwrite : c.write act = some c') :
    c'.Sound := by
  unfold Conn.write at hwrite
  split at hwrite
  · -- an item is written
    rename_i item hwriter
    split at hwrite
    · rename_i hfree
      obtain rfl := Option.some.inj hwrite
      have hover : c.reader ≠ .finished := by
        intro hfin
        rw [(h.ended hfin).1] at hwriter
        cases hwriter
      have hlive : c.live = true := by
        unfold live
        split
        · rename_i hfin
          exact absurd hfin hover
        · rw [hfree.2]
          rfl
      have hunsent : c.unsent = item :: c.queue := by
        rw [unsent, hwriter]
        rfl
      have hall := h.all hlive
      rw [pending_of_not_busy hbusy, hunsent] at hall
      have hpending : ({ c with send_lock := some .writer, stream := c.stream ++ [item], writer := .sending } : Conn).pending =
          c.queue ++ c.reader.direct ++ c.reader.inHand ++ c.reader.line := pending_of_not_busy hbusy
      have hlater : c.reader.line.Sublist (c.queue ++ c.reader.direct ++ c.reader.inHand ++ c.reader.line) :=
        List.sublist_append_right ..
      refine ⟨hall.sublist ?_, fun _ => ?_, fun _ => ?_, nofun, h.closed, fun hfin => absurd hfin hover⟩
      · rw [List.append_assoc]
        exact (List.Sublist.refl _).append (hlater.cons_cons item)
      · rw [hpending]
        simpa using hall
      · have hdrained := h.drained hlive
        unfold Conn.drained at hdrained ⊢
        dsimp only
        rw [hunsent] at hdrained
        cases hreader : c.reader with
        | working requests direct => simp [busy, hreader] at hbusy
        | waiting on direct reply requests =>
          rw [hreader] at hdrained
          cases on with
          | lock => exact nomatch (show item :: c.queue = [] from hdrained)
          | idle => exact fun hset => nomatch (show item :: c.queue = [] from hdrained hset)
        | _ => trivial
    · cases hwrite
  · rename_i hwriter
    obtain rfl := Option.some.inj hwrite
    exact h.receive_nowait hbusy hwriter
  · rename_i hwriter
    obtain rfl := Option.some.inj hwrite
    exact h.of_unsent hbusy rfl (by simp [unsent, hwriter, Writer.held]) rfl rfl rfl rfl (.inl rfl) nofun (fun _ => rfl)
  · rename_i hwriter
    split at hwrite
    · obtain rfl := Option.some.inj hwrite
      exact h.of_unsent hbusy rfl (by simp [unsent, hwriter, Writer.held]) rfl rfl rfl rfl (.inl rfl) nofun (fun _ => rfl)
    · cases hwrite
  · cases hwrite

/-! ## Runs -/

theorem Sound.cancel {c c' : Conn} (h : c.Sound) (hcancel : c.cancel = some c') : c'.Sound := by
  have hwritten : Numbered c.stream c.made := h.written.sublist (List.sublist_append_left ..)
  unfold Conn.cancel at hcancel
  split at hcancel
  · rename_i hcancelled
    have hdead {c' : Conn} (hlive : c'.live = true) (hc : c'.cancelled = c.cancelled) : False := by
      have := live_eq hlive
      rw [hc, hcancelled] at this
      cases this
    split at hcancel
    · cases hcancel
    · rename_i line hreader
      obtain rfl := Option.some.inj hcancel
      exact ⟨h.written, fun hlive => (hdead hlive rfl).elim, fun hlive => (hdead hlive rfl).elim, nofun, h.closed,
        fun hfin => by simp [hreader] at hfin⟩
    · obtain rfl := Option.some.inj hcancel
      exact ⟨by simpa [Reader.line] using hwritten, fun hlive => (hdead hlive rfl).elim, fun _ => trivial, nofun,
        fun hne => absurd rfl hne, nofun⟩
  · cases hcancel

theorem Sound.teardown {c c' : Conn} (h : c.Sound) (hteardown : c.teardown = some c') : c'.Sound := by
  have hwritten : Numbered c.stream c.made := h.written.sublist (List.sublist_append_left ..)
  unfold Conn.teardown at hteardown
  split at hteardown
  · rename_i hwriter
    obtain rfl := Option.some.inj hteardown
    exact ⟨by simpa [Reader.line] using hwritten, nofun, fun _ => trivial, h.waiting, fun hne => absurd rfl hne,
      fun _ => ⟨hwriter, rfl⟩⟩
  · rename_i line hreader hwriter
    obtain rfl := Option.some.inj hteardown
    have hclosed : c.send_closed = true := h.closed (by simp [hreader, Reader.line])
    refine ⟨?_, nofun, fun _ => trivial, h.waiting, fun hne => absurd rfl hne, fun _ => ⟨hwriter, hclosed⟩⟩
    simpa [hreader, Reader.line] using h.written
  · cases hteardown

theorem Sound.step {c c' : Conn} {act : Act} (hact : c.Orderly act) (h : c.Sound) (hstep : c.step act = some c') : c'.Sound := by
  have hguard {x : Option Conn} (h : (if c.busy then none else x) = some c') : c.busy = false ∧ x = some c' := by
    split at h
    · cases h
    · rename_i hbusy
      exact ⟨eq_false_of_ne_true hbusy, h⟩
  cases act with
  | read act => exact h.read hact hstep
  | write act =>
    obtain ⟨hbusy, hwrite⟩ := hguard hstep
    exact h.write hbusy hwrite
  | push frame => exact h.push hact (hguard hstep).2
  | cancel => exact h.cancel (hguard hstep).2
  | teardown => exact h.teardown hstep

/-- In every run whose actions are orderly, the frames on the stream are in the order in which they were made. -/
theorem stream_in_order {acts : List Act} {c : Conn} (hacts : trace.Each step Orderly opened acts)
    (h : trace step opened acts = some c) :
    c.InOrder :=
  (hacts.invariant (fun _ _ _ ha hs hstep => hs.step ha hstep) h sound_opened).inOrder

/-- A push to an idle subscriber. -/
theorem stream_in_order_push : ∃ c, trace step opened [.push (bs "x"), .write .acquire, .write .sent] = some c ∧ c.InOrder := by
  have hacts : trace.Each step Orderly opened [.push (bs "x"), .write .acquire, .write .sent] :=
    .cons rfl fun _ _ => .cons trivial fun _ _ => .cons trivial fun _ _ => .nil
  exact ⟨_, rfl, stream_in_order hacts rfl⟩

/-- Subscribing, unsubscribing and a PING in one chunk: the reply to the PING is written before both confirmations. -/
theorem stream_out_of_order :
    let requests := [[bs "SUBSCRIBE", bs "a"], [bs "UNSUBSCRIBE", bs "a"], [bs "PING"]].map fun words =>
      Value.array (words.map .bytes)
    ∃ subscribe unsubscribe ping c,
      outcomes .plain ⟨0, 0⟩ 1 requests (Server.init 0 none ∅ fun _ => true : Server Int) = some [subscribe, unsubscribe, ping] ∧
      trace step opened [.read (.chunk requests), .read (.request subscribe), .read (.request unsubscribe),
        .read (.request ping), .read .flush,
        .read .sent, .write .acquire, .write .sent, .write .acquire, .write .sent] = some c ∧
      c.stream.map Prod.fst = [2, 0, 1] ∧ ¬c.InOrder := by
  have houtcomes : outcomes .plain ⟨0, 0⟩ 1
      ([[bs "SUBSCRIBE", bs "a"], [bs "UNSUBSCRIBE", bs "a"], [bs "PING"]].map fun words => Value.array (words.map .bytes))
      (Server.init 0 none ∅ fun _ => true : Server Int) =
        some [⟨[bs "*3\r\n$9\r\nsubscribe\r\n$1\r\na\r\n:1\r\n"], none, true⟩,
          ⟨[bs "*3\r\n$11\r\nunsubscribe\r\n$1\r\na\r\n:0\r\n"], none, false⟩, ⟨[], some (bs "+PONG\r\n"), false⟩] := by
    decide +kernel
  refine ⟨_, _, _, _, houtcomes, rfl, rfl, ?_⟩
  change ¬[2, 0, 1].Pairwise (· < ·)
  decide

end Conn

end Kagni.Trio
