import Kagni.Asyncio

/-!
# Backpressure of the asyncio backend

Of an open connection reading is paused exactly while `_write_paused` is set, and then the timer is armed, so that a
connection is never stuck. What is kept for a client that does not read is bounded: by the limit for pushed frames and the
replies of one chunk.
-/

namespace Kagni.Asyncio

open Lib

/-! ## The transport -/

namespace Transport

/-- A connection that is over is closing and keeps nothing. -/
def Settled (t : Transport) : Prop := t.lost = true → t.closing = true ∧ t.buffer = []

/-- What a call does to a transport besides pausing it: it may close it, and keeps at most `n` bytes more. -/
structure Goes (n : Nat) (t t' : Transport) : Prop where
  paused : t'.paused = t.paused
  closing : t.closing = true → t'.closing = true
  buffer : t'.closing = false → t'.buffer.length ≤ t.buffer.length + n
  settled : t.Settled → t'.Settled

theorem Goes.refl (t : Transport) : Goes 0 t t := ⟨rfl, id, fun _ => Nat.le_refl _, id⟩

theorem Goes.trans {n m : Nat} {t t' t'' : Transport} (h : Goes n t t') (h' : Goes m t' t'') : Goes (n + m) t t'' where
  paused := h'.paused.trans h.paused
  closing := h'.closing ∘ h.closing
  buffer hopen := by
    have hopen' : t'.closing = false := by
      cases hc : t'.closing with
      | false => rfl
      | true => exact absurd (h'.closing hc) (by simp [hopen])
    have := h.buffer hopen'
    have := h'.buffer hopen
    omega
  settled := h'.settled ∘ h.settled

theorem goes_force_close (t : Transport) : Goes 0 t t._force_close := by
  unfold _force_close
  split
  · exact .refl t
  · exact ⟨rfl, fun _ => rfl, nofun, fun _ _ => ⟨rfl, rfl⟩⟩

theorem goes_close (t : Transport) : Goes 0 t t.close := by
  unfold close
  split
  · exact .refl t
  · exact ⟨rfl, fun _ => rfl, nofun, fun _ h => ⟨rfl, of_decide_eq_true h⟩⟩

theorem goes_write (kernel : Nat → Option Nat) (t : Transport) (data : Bytes) : Goes data.length t (t.write kernel data) := by
  unfold write
  split
  · exact ⟨rfl, id, fun _ => Nat.le_add_right .., id⟩
  · rename_i hlost
    rw [not_or] at hlost
    split
    · refine ⟨rfl, id, fun _ => by simp, fun _ h => absurd h hlost.2⟩
    · split
      · exact ⟨rfl, id, fun _ => by simp; omega, fun _ h => absurd h hlost.2⟩
      · rename_i hempty _
        have hend := goes_force_close { t with attempts := t.attempts + 1 }
        exact ⟨hend.paused, hend.closing, fun h => (hend.buffer h).trans (by simp), hend.settled⟩

theorem goes_write_ready (kernel : Nat → Option Nat) (t : Transport) (ht : t.buffer ≠ []) : Goes 0 t (t._write_ready kernel) := by
  unfold _write_ready
  split
  · refine ⟨rfl, id, fun _ => by simp, fun h hlost => ?_⟩
    exact absurd (h hlost).2 ht
  · have hend := goes_force_close { t with attempts := t.attempts + 1 }
    exact ⟨hend.paused, hend.closing, hend.buffer, hend.settled⟩

theorem close_closing (t : Transport) : t.close.closing = true := by
  unfold close
  split
  · assumption
  · rfl

theorem force_close_closing (t : Transport) (h : t.Settled) : t._force_close.closing = true := by
  unfold _force_close
  split
  · rename_i hlost
    exact (h hlost).1
  · rfl

end Transport

/-! ## One connection -/

namespace Conn

/-- The flags of a connection and its transport. -/
structure Flags (c : Conn) : Prop where
  gone : c._transport = none → c._resume_handle = false
  armed : ∀ t, c._transport = some t → c._resume_handle = c._write_paused
  paused : ∀ t, c._transport = some t → t.closing = false → t.paused = true → c._write_paused = true
  stopped : ∀ t, c._transport = some t → c._write_paused = true → t.paused = true ∨ t.closing = true
  settled : ∀ t, c._transport = some t → t.Settled

/-- Nothing more is kept for an open connection than pushes and the replies of a chunk. -/
def Bounded (c : Conn) : Prop := ∀ t, c._transport = some t → t.closing = false → t.buffer.length ≤ PUBSUB_LIMIT + c.burst

/-- While a connection is read, nothing more is kept than pushes. -/
def Slack (c : Conn) : Prop := ∀ t, c._transport = some t → t.is_reading = true → t.buffer.length ≤ PUBSUB_LIMIT

/-- What holds of a connection between two calls. -/
structure Sound (c : Conn) : Prop extends Flags c where
  bounded : c.Bounded
  slack : c.Slack

theorem sound_opened : opened.Sound where
  gone := nofun
  armed _ _ := rfl
  paused _ h _ hp := by
    cases h
    cases hp
  stopped _ _ h := by cases h
  settled _ h := by
    cases h
    exact nofun
  bounded _ h _ := by
    cases h
    exact Nat.zero_le _
  slack _ h _ := by
    cases h
    exact Nat.zero_le _

variable {c : Conn} {f : Transport → Transport} {n : Nat}

theorem withTransport_eq_some {t' : Transport} (h : (c.withTransport f)._transport = some t') :
    ∃ t, c._transport = some t ∧ t' = f t := by
  obtain ⟨t, ht, rfl⟩ := Option.map_eq_some_iff.1 h
  exact ⟨t, ht, rfl⟩

theorem open_of_goes {t t' : Transport} (h : t.Goes n t') (hopen : t'.closing = false) : t.closing = false := by
  cases hc : t.closing with
  | false => rfl
  | true => exact absurd (h.closing hc) (by simp [hopen])

theorem Flags.withTransport (h : c.Flags) (hf : ∀ t, c._transport = some t → t.Goes n (f t)) : (c.withTransport f).Flags where
  gone hnone := h.gone (Option.map_eq_none_iff.1 hnone)
  armed t' ht' := by
    obtain ⟨t, ht, -⟩ := withTransport_eq_some ht'
    exact h.armed t ht
  paused t' ht' hopen hp := by
    obtain ⟨t, ht, rfl⟩ := withTransport_eq_some ht'
    exact h.paused t ht (open_of_goes (hf t ht) hopen) ((hf t ht).paused ▸ hp)
  stopped t' ht' hw := by
    obtain ⟨t, ht, rfl⟩ := withTransport_eq_some ht'
    rw [(hf t ht).paused]
    exact (h.stopped t ht hw).imp_right (hf t ht).closing
  settled t' ht' := by
    obtain ⟨t, ht, rfl⟩ := withTransport_eq_some ht'
    exact (hf t ht).settled (h.settled t ht)

theorem Bounded.withTransport (h : c.Bounded) (hf : ∀ t, c._transport = some t → t.Goes 0 (f t)) :
    (c.withTransport f).Bounded := by
  intro t' ht' hopen
  obtain ⟨t, ht, rfl⟩ := withTransport_eq_some ht'
  exact ((hf t ht).buffer hopen).trans (h t ht (open_of_goes (hf t ht) hopen))

theorem Slack.withTransport (h : c.Slack) (hf : ∀ t, c._transport = some t → t.Goes 0 (f t)) : (c.withTransport f).Slack := by
  intro t' ht' hreading
  obtain ⟨t, ht, rfl⟩ := withTransport_eq_some ht'
  have hgoes := hf t ht
  simp only [Transport.is_reading, Bool.and_eq_true, Bool.not_eq_true'] at hreading
  refine (hgoes.buffer hreading.1).trans (h t ht ?_)
  simp [Transport.is_reading, open_of_goes hgoes hreading.1, ← hgoes.paused, hreading.2]

/-- A call of the transport that keeps nothing more. -/
theorem Sound.withTransport (h : c.Sound) (hf : ∀ t, c._transport = some t → t.Goes 0 (f t)) : (c.withTransport f).Sound :=
  { h.toFlags.withTransport hf with bounded := h.bounded.withTransport hf, slack := h.slack.withTransport hf }

/-- A pushed frame is kept within the limit, or the connection is closed. -/
theorem goes_push (kernel : Nat → Option Nat) (t : Transport) (frame : Bytes) :
    let t' := if (t.write kernel frame).get_write_buffer_size > PUBSUB_LIMIT then (t.write kernel frame).close
      else t.write kernel frame
    t.Goes frame.length t' ∧ (t'.closing = false → t'.buffer.length ≤ PUBSUB_LIMIT) := by
  dsimp only
  split
  · refine ⟨(t.goes_write kernel frame).trans (Transport.goes_close _), fun hopen => ?_⟩
    rw [Transport.close_closing] at hopen
    cases hopen
  · rename_i hsize
    exact ⟨t.goes_write kernel frame, fun _ => Nat.le_of_not_lt hsize⟩

theorem Flags.push (h : c.Flags) (kernel : Nat → Option Nat) (frame : Bytes) : (c._push_frame kernel frame).Flags :=
  h.withTransport fun t _ => (goes_push kernel t frame).1

theorem bounded_push (kernel : Nat → Option Nat) (frame : Bytes) : (c._push_frame kernel frame).Bounded := by
  intro t' ht' hopen
  obtain ⟨t, -, rfl⟩ := withTransport_eq_some ht'
  exact ((goes_push kernel t frame).2 hopen).trans (Nat.le_add_right ..)

theorem slack_push (kernel : Nat → Option Nat) (frame : Bytes) : (c._push_frame kernel frame).Slack := by
  intro t' ht' hreading
  obtain ⟨t, -, rfl⟩ := withTransport_eq_some ht'
  simp only [Transport.is_reading, Bool.and_eq_true, Bool.not_eq_true'] at hreading
  exact (goes_push kernel t frame).2 hreading.1

theorem Flags.write (h : c.Flags) (kernel : Nat → Option Nat) (frame : Bytes) : (c.write kernel frame).Flags :=
  let hend := h.withTransport fun t _ => t.goes_write kernel frame
  ⟨hend.gone, hend.armed, hend.paused, hend.stopped, hend.settled⟩

theorem Bounded.write (h : c.Bounded) (kernel : Nat → Option Nat) (frame : Bytes) : (c.write kernel frame).Bounded := by
  intro t' ht' hopen
  obtain ⟨t, ht, rfl⟩ := withTransport_eq_some ht'
  have hgoes := t.goes_write kernel frame
  have := hgoes.buffer hopen
  have := h t ht (open_of_goes hgoes hopen)
  change _ ≤ PUBSUB_LIMIT + (c.burst + frame.length)
  omega

/-- After `_maybe_pause_reading` the connection is sound again. -/
theorem Flags.pause (h : c.Flags) (hbounded : c.Bounded) : c._maybe_pause_reading.Sound := by
  have hlimit : HIGH_WATER ≤ PUBSUB_LIMIT := by decide
  unfold _maybe_pause_reading
  split
  · rename_i hnone
    exact { h with bounded := hbounded, slack := fun t ht => absurd (hnone.symm.trans ht) nofun }
  · rename_i t ht
    split
    · rename_i hcase
      refine { h with bounded := hbounded, slack := fun t' ht' hreading => ?_ }
      obtain rfl := Option.some.inj (ht.symm.trans ht')
      simp only [Transport.is_reading, Bool.and_eq_true, Bool.not_eq_true'] at hreading
      rcases hcase with hpaused | hsize
      · rcases h.stopped t ht hpaused with hp | hp
        · rw [hp] at hreading
          cases hreading.2
        · rw [hp] at hreading
          cases hreading.1
      · exact hsize.trans hlimit
    · have hstill : t.pause_reading.is_reading = false ∧ t.pause_reading.closing = t.closing ∧ t.pause_reading.buffer = t.buffer ∧
          t.pause_reading.lost = t.lost ∧ (t.pause_reading.paused = true ∨ t.pause_reading.closing = true) := by
        unfold Transport.pause_reading
        split
        · exact ⟨by simp [Transport.is_reading], rfl, rfl, rfl, .inl rfl⟩
        · rename_i hreading
          simp only [Transport.is_reading, Bool.and_eq_true, Bool.not_eq_true', not_and, Bool.not_eq_false] at hreading
          refine ⟨by simpa [Transport.is_reading] using hreading, rfl, rfl, rfl, ?_⟩
          cases hc : t.closing with
          | true => exact .inr rfl
          | false => exact .inl (hreading hc)
      obtain ⟨hreading, hclosing, hbuffer, hlost, hcase⟩ := hstill
      exact {
        gone := nofun
        armed := fun _ _ => rfl
        paused := fun _ _ _ _ => rfl
        stopped := fun t' ht' _ => Option.some.inj ht' ▸ hcase
        settled := fun t' ht' => by
          obtain rfl := Option.some.inj ht'
          intro hl
          rw [hclosing, hbuffer]
          exact h.settled t ht (hlost ▸ hl)
        bounded := fun t' ht' hopen => by
          obtain rfl := Option.some.inj ht'
          rw [hbuffer]
          exact hbounded t ht (hclosing ▸ hopen)
        slack := fun t' ht' hr => by
          obtain rfl := Option.some.inj ht'
          rw [hreading] at hr
          cases hr }

theorem resume_spec (t : Transport) : t.resume_reading.closing = t.closing ∧ t.resume_reading.buffer = t.buffer ∧
    t.resume_reading.lost = t.lost ∧ (t.closing = false → t.resume_reading.paused = false) := by
  unfold Transport.resume_reading
  split
  · rename_i hcase
    refine ⟨rfl, rfl, rfl, fun hopen => ?_⟩
    simpa [hopen] using hcase
  · exact ⟨rfl, rfl, rfl, fun _ => rfl⟩

/-- The timer. -/
theorem Sound.resume (h : c.Sound) (htimer : c._resume_handle = true) : c._maybe_resume_reading.Sound := by
  have hlimit : LOW_WATER ≤ PUBSUB_LIMIT := by decide
  unfold _maybe_resume_reading
  split
  · rename_i hnone
    have habsurd : ∀ t, c._transport ≠ some t := fun t ht => absurd (hnone.symm.trans ht) nofun
    exact ⟨⟨fun _ => rfl, fun _ _ => rfl, fun t ht => absurd ht (habsurd t), fun t ht => absurd ht (habsurd t),
      fun t ht => absurd ht (habsurd t)⟩,
      fun t ht => absurd ht (habsurd t), fun t ht => absurd ht (habsurd t)⟩
  · rename_i t ht
    obtain ⟨hclosing, hbuffer, hlost, hpaused⟩ := resume_spec t
    split
    · rename_i hsize
      exact {
        gone := nofun
        armed := fun _ _ => rfl
        paused := fun t' ht' hopen hp => by
          obtain rfl := Option.some.inj ht'
          rw [hpaused (hclosing ▸ hopen)] at hp
          cases hp
        stopped := fun _ _ hw => by cases hw
        settled := fun t' ht' => by
          obtain rfl := Option.some.inj ht'
          intro hl
          rw [hclosing, hbuffer]
          exact h.settled t ht (hlost ▸ hl)
        bounded := fun t' ht' hopen => by
          obtain rfl := Option.some.inj ht'
          rw [hbuffer]
          exact h.bounded t ht (hclosing ▸ hopen)
        slack := fun t' ht' _ => by
          obtain rfl := Option.some.inj ht'
          rw [hbuffer]
          exact (Nat.le_of_lt hsize).trans hlimit }
    · refine ⟨⟨fun hnone => absurd (hnone.symm.trans ht) nofun, fun _ _ => htimer.symm.trans (h.armed t ht), h.paused,
        h.stopped, h.settled⟩, h.bounded, h.slack⟩

end Conn

/-! ## The backend -/

namespace Backend

variable {F : Type} {b b' : Backend F} {i j : SessionId} {env : Env} {kernel : SessionId → Nat → Option Nat}

theorem update_conns (b : Backend F) (i j : SessionId) (f : Conn → Conn) :
    (b.update i f).conns j = if j = i then f (b.conns i) else b.conns j := by
  unfold update
  dsimp only
  rw [Function.update_apply]

/-- Between two calls every connection is sound. -/
def Sound (b : Backend F) : Prop := ∀ i, (b.conns i).Sound

/-- While a chunk of one connection is worked on, more may be kept for that one. -/
def Working (i : SessionId) (b : Backend F) : Prop := ∀ j, (b.conns j).Flags ∧ (b.conns j).Bounded ∧ (j ≠ i → (b.conns j).Slack)

theorem Sound.update (h : b.Sound) {f : Conn → Conn} (hf : (f (b.conns i)).Sound) : (b.update i f).Sound := by
  intro j
  rw [update_conns]
  split
  · exact hf
  · exact h j

/-- The call that ends the work on a chunk. -/
theorem Working.finish (h : b.Working i) {f : Conn → Conn}
    (hf : (b.conns i).Flags → (b.conns i).Bounded → (f (b.conns i)).Sound) :
    (b.update i f).Sound := by
  intro j
  rw [update_conns]
  split
  · exact hf (h i).1 (h i).2.1
  · rename_i hji
    exact { (h j).1 with bounded := (h j).2.1, slack := (h j).2.2 hji }

/-- The first call of a chunk. -/
theorem Sound.working (h : b.Sound) {t : Transport} (ht : (b.conns i)._transport = some t) (hreading : t.is_reading = true) :
    (b.update i fun c => { c with burst := 0 }).Working i := by
  intro j
  rw [update_conns]
  split
  · rename_i hji
    refine ⟨{ (h i).toFlags with }, fun t' ht' hopen => ?_, fun hne => absurd hji hne⟩
    obtain rfl := Option.some.inj (ht.symm.trans ht')
    exact ((h i).slack t ht hreading).trans (Nat.le_add_right ..)
  · exact ⟨(h j).toFlags, (h j).bounded, fun _ => (h j).slack⟩

theorem Working.advance (h : b.Working i) (kernel : SessionId → Nat → Option Nat) (server : Server F) :
    (b.advance kernel server).Working i := by
  have hpushes : ∀ (P : Prop) (k : Nat → Option Nat) (frames : List Bytes) (c : Conn), c.Flags ∧ c.Bounded ∧ (P → c.Slack) →
      (frames.foldl (Conn._push_frame k) c).Flags ∧ (frames.foldl (Conn._push_frame k) c).Bounded ∧
        (P → (frames.foldl (Conn._push_frame k) c).Slack) := by
    intro P k frames
    induction frames with
    | nil => exact fun _ => id
    | cons frame frames ih =>
      exact fun c hc => ih _ ⟨hc.1.push k frame, Conn.bounded_push k frame, fun _ => Conn.slack_push k frame⟩
  exact fun j => hpushes _ (kernel j) _ _ (h j)

theorem Working.write (h : b.Working i) (frame : Bytes) : (b.update i (·.write (kernel i) frame)).Working i := by
  intro j
  rw [update_conns]
  split
  · rename_i hji
    exact ⟨(h i).1.write (kernel i) frame, (h i).2.1.write (kernel i) frame, fun hne => absurd hji hne⟩
  · exact h j

variable [PyFloat F]

/-- The loop over the requests. -/
theorem Working.serve (h : b.Working i) (env : Env) (kernel : SessionId → Nat → Option Nat) (now : Nat → Clock)
    (messages : List Value) : (b.serve env kernel i now messages).2.Working i := by
  induction messages generalizing now b with
  | nil => exact h
  | cons request messages ih =>
    unfold Backend.serve
    have hadvance := h.advance kernel (dispatch request (some i) (env, now 0) b.server).2
    dsimp only
    split
    · exact hadvance
    · exact ih hadvance _
    · exact ih (hadvance.write _) _

/-- A call keeps every connection sound. -/
theorem Sound.step (h : b.Sound) {e : Event} (hstep : b.step env kernel e = some b') : b'.Sound := by
  have hforce : ∀ c : Conn, c.Flags → c.Bounded → (c.withTransport Transport._force_close).Sound := fun c hflags hbounded =>
    { hflags.withTransport fun t _ => t.goes_force_close with
      bounded := hbounded.withTransport fun t _ => t.goes_force_close
      slack := fun t' ht' hreading => by
        obtain ⟨t, ht, rfl⟩ := Conn.withTransport_eq_some ht'
        simp [Transport.is_reading, t.force_close_closing (hflags.settled t ht)] at hreading }
  have hlost : ∀ c : Conn, c.connection_lost.Sound := fun c =>
    ⟨⟨fun _ => rfl, nofun, nofun, nofun, nofun⟩, nofun, nofun⟩
  cases e with
  | data_received i data now =>
    obtain ⟨t, ht, hcase⟩ := Option.bind_eq_some_iff.1 hstep
    split at hcase
    · rename_i hreading
      obtain rfl := Option.some.inj hcase
      have hstart := h.working ht hreading
      unfold data_received
      cases data with
      | requests messages =>
        have hserve := hstart.serve env kernel now messages
        dsimp only
        split
        · exact hserve.finish Conn.Flags.pause
        · exact hserve.finish (hforce _)
      | garbage text =>
        refine hstart.finish ?_
        intro hflags hbounded
        refine ((hflags.write (kernel i) (errorLine text)).withTransport fun t _ => t.goes_close).pause ?_
        exact (hbounded.write (kernel i) (errorLine text)).withTransport fun t _ => t.goes_close
      | crash => exact hstart.finish (hforce _)
    · cases hcase
  | timer i =>
    unfold Backend.step at hstep
    dsimp only at hstep
    split at hstep
    · rename_i htimer
      obtain rfl := Option.some.inj hstep
      exact h.update ((h i).resume htimer)
    · cases hstep
  | writable i =>
    obtain ⟨t, ht, hcase⟩ := Option.bind_eq_some_iff.1 hstep
    split at hcase
    · rename_i hbuffer
      have hready : (b.update i (·.withTransport (·._write_ready (kernel i)))).Sound :=
        h.update <| (h i).withTransport fun t' ht' => by
        obtain rfl := Option.some.inj (ht.symm.trans ht')
        exact t.goes_write_ready (kernel i) hbuffer
      obtain rfl := Option.some.inj hcase
      split
      · exact hready.update (hlost _)
      · exact hready
    · cases hcase
  | eof i =>
    obtain ⟨t, ht, hcase⟩ := Option.bind_eq_some_iff.1 hstep
    split at hcase
    · obtain rfl := Option.some.inj hcase
      exact h.update ((h i).withTransport fun t _ => t.goes_close)
    · cases hcase
  | broken i =>
    obtain ⟨t, ht, hcase⟩ := Option.bind_eq_some_iff.1 hstep
    split at hcase
    · obtain rfl := Option.some.inj hcase
      exact h.update (hforce _ (h i).toFlags (h i).bounded)
    · cases hcase
  | connection_lost i =>
    obtain ⟨t, ht, hcase⟩ := Option.bind_eq_some_iff.1 hstep
    split at hcase
    · obtain rfl := Option.some.inj hcase
      exact h.update (hlost _)
    · cases hcase

/-- After every run every connection is sound. -/
theorem sound_of_trace {port : Nat} {table : Option (Table F)} {storage : Dict Value (Entry F)} {events : List Event}
    (h : trace (step env kernel) (.init port table storage) events = some b) : b.Sound :=
  trace.invariant (fun _ _ _ h hstep => h.step hstep) h fun _ => Conn.sound_opened

/-- A client asks for an echo and does not read it. -/
def unread (message : Bytes) : List Event :=
  [.data_received 0 (.requests [.array [.bytes (bs "ECHO"), .bytes message]]) fun _ => ⟨0, 0⟩]

theorem dispatch_echo (env : Env) (message : Bytes) :
    dispatch (.array [.bytes (bs "ECHO"), .bytes message]) (some 0) (env, ⟨0, 0⟩)
    (init (F := Int) 0 none ∅).server = (.ok (protocolBuilder (.bytes message)), (init (F := Int) 0 none ∅).server) := by
  rfl

omit [PyFloat F] in
/-- A server that does nothing pushes nothing. -/
theorem advance_self (b : Backend F) : b.advance kernel b.server = b := by
  have hnone : ∀ j, newFrames b.server b.server j = [] := fun j => List.drop_length
  unfold advance
  simp only [hnone, List.foldl_nil]

/-- An echo of more than the high-water mark pauses the reading. -/
theorem unread_pauses {message : Bytes} (h : HIGH_WATER ≤ message.length) :
    ∃ b t, trace (step .plain fun _ _ => some 1) (init (F := Int) 0 none ∅) (unread message) = some b ∧
      (b.conns 0)._transport = some t ∧
      t.closing = false ∧ t.paused = true := by
  obtain ⟨frame, hframe, hlength⟩ : ∃ frame, protocolBuilder (.bytes message) = some frame ∧ HIGH_WATER + 1 < frame.length := by
    have hcrlf : SYM_CRLF.length = 2 := rfl
    refine ⟨_, rfl, ?_⟩
    simp [joinLines]
    omega
  have hstart : (init (F := Int) 0 none ∅).update 0 (fun c => { c with burst := 0 }) = init 0 none ∅ := by
    unfold update
    dsimp only
    exact congrArg (Backend.mk _) (Function.update_eq_self 0 (init (F := Int) 0 none ∅).conns)
  have hserve : (init (F := Int) 0 none ∅).serve .plain (fun _ _ => some 1) 0 (fun _ => ⟨0, 0⟩)
    [.array [.bytes (bs "ECHO"), .bytes message]] =
      (true, (init (F := Int) 0 none ∅).update 0 (·.write (fun _ => some 1) frame)) := by
    unfold serve
    rw [dispatch_echo, hframe]
    dsimp only
    rw [advance_self]
    rfl
  have hwrite : (Conn.opened.write (fun _ => some 1) frame)._transport =
      some ⟨frame.drop 1, frame.take 1, false, false, false, 1⟩ := by
    have hne : frame ≠ [] := List.ne_nil_of_length_pos (by omega)
    unfold Conn.write Conn.withTransport Conn.opened Transport.write Transport.opened
    simp [hne]
  let t : Transport := ⟨frame.drop 1, frame.take 1, true, false, false, 1⟩
  refine ⟨_, t, trace.cons_eq_some.2 ⟨_, rfl, rfl⟩, ?_, rfl, rfl⟩
  unfold data_received
  dsimp only
  rw [hstart, hserve]
  dsimp only [if_true]
  rw [if_pos rfl, update_conns, if_pos rfl, update_conns, if_pos rfl]
  change (Conn._maybe_pause_reading (Conn.opened.write (fun _ => some 1) frame))._transport = _
  unfold Conn._maybe_pause_reading
  rw [hwrite]
  dsimp only
  rw [if_neg]
  · rfl
  · have hmore : ¬(frame.drop 1).length ≤ HIGH_WATER := by
      rw [List.length_drop]
      omega
    rintro (hw | hsize)
    · cases hw
    · exact hmore hsize

/-- After every run, of every open connection: reading is paused exactly while `_write_paused` is set, and exactly then the
timer is armed; what is kept while it is read is within the limit for pushed frames, and what is kept at all exceeds it at
most by the replies to one chunk. -/
theorem backpressure (env : Env) (kernel : SessionId → Nat → Option Nat) {port : Nat} {table : Option (Table F)}
    {storage : Dict Value (Entry F)}
    {events : List Event} {b : Backend F} (h : trace (step env kernel) (.init port table storage) events = some b)
    (i : SessionId) {t : Transport}
    (ht : (b.conns i)._transport = some t) (hopen : t.closing = false) :
    t.paused = (b.conns i)._write_paused ∧ (b.conns i)._resume_handle = (b.conns i)._write_paused ∧
      (t.paused = false → t.buffer.length ≤ PUBSUB_LIMIT) ∧ t.buffer.length ≤ PUBSUB_LIMIT + (b.conns i).burst := by
  have hsound := sound_of_trace h i
  refine ⟨?_, hsound.armed t ht, fun hpaused => hsound.slack t ht (by simp [Transport.is_reading, hopen, hpaused]),
    hsound.bounded t ht hopen⟩
  rw [Bool.eq_iff_iff]
  exact ⟨hsound.paused t ht hopen, fun hw => (hsound.stopped t ht hw).resolve_right (by simp [hopen])⟩

/-- The timer of a client that asked for an echo of a megabyte and reads nothing more. -/
theorem backpressure_unread :
    ∃ b, trace (step .plain fun _ _ => some 1) (init (F := Int) 0 none ∅) (unread (List.replicate HIGH_WATER 97)) = some b ∧
    (b.conns 0)._resume_handle = true := by
  have hlength : HIGH_WATER ≤ (List.replicate HIGH_WATER (97 : UInt8)).length := Nat.le_of_eq List.length_replicate.symm
  obtain ⟨b, t, htrace, ht, hopen, hpaused⟩ := unread_pauses hlength
  obtain ⟨hwrite, hhandle, -, -⟩ := backpressure .plain (fun _ _ => some 1) htrace 0 ht hopen
  exact ⟨b, htrace, by rw [hhandle, ← hwrite, hpaused]⟩

/-- The socket takes something each time, so after some times little is kept. -/
theorem drains (env : Env) (htakes : ∀ n, ∃ m, kernel i n = some (m + 1)) {t : Transport}
    (ht : (b.conns i)._transport = some t) (hopen : t.closing = false) :
    ∃ k b' t', trace (step env kernel) b (List.replicate k (.writable i)) = some b' ∧ (b'.conns i)._transport = some t' ∧
      t'.buffer.length < LOW_WATER ∧ t'.closing = false ∧ (b'.conns i)._resume_handle = (b.conns i)._resume_handle ∧
      t'.sent ++ t'.buffer = t.sent ++ t.buffer := by
  have hpositive : 0 < LOW_WATER := by decide
  induction hlength : t.buffer.length using Nat.strong_induction_on generalizing b t with
  | _ n ih =>
    by_cases hlow : t.buffer.length < LOW_WATER
    · exact ⟨0, b, t, rfl, ht, hlow, hopen, rfl, rfl⟩
    · have hbuffer : t.buffer ≠ [] := by
        intro he
        rw [he] at hlow
        exact hlow hpositive
      obtain ⟨m, hm⟩ := htakes t.attempts
      have hready : t._write_ready (kernel i) =
          { t with sent := t.sent ++ t.buffer.take (m + 1), buffer := t.buffer.drop (m + 1), attempts := t.attempts + 1 } := by
        unfold Transport._write_ready
        rw [hm]
      have hstep : b.step env kernel (.writable i) = some (b.update i (·.withTransport (·._write_ready (kernel i)))) := by
        unfold step
        dsimp only
        rw [ht, Option.bind_some, if_pos hbuffer, hready]
        simp [Transport.finished, hopen]
      have hnext : ((b.update i (·.withTransport (·._write_ready (kernel i)))).conns i)._transport =
          some (t._write_ready (kernel i)) := by
        rw [update_conns, if_pos rfl]
        unfold Conn.withTransport
        rw [ht]
        rfl
      have hhandle : ((b.update i (·.withTransport (·._write_ready (kernel i)))).conns i)._resume_handle =
          (b.conns i)._resume_handle := by
        rw [update_conns, if_pos rfl]
        rfl
      have hshort : (t._write_ready (kernel i)).buffer.length < n := by
        have : 0 < t.buffer.length := List.length_pos_iff.2 hbuffer
        rw [hready, List.length_drop]
        omega
      obtain ⟨k, b', t', htrace, ht', hlow', hopen', hhandle', hbytes⟩ := ih _ hshort hnext (by rw [hready]; exact hopen) rfl
      refine ⟨k + 1, b', t', ?_, ht', hlow', hopen', hhandle'.trans hhandle, hbytes.trans ?_⟩
      · rw [List.replicate_succ]
        exact trace.cons_eq_some.2 ⟨_, hstep, htrace⟩
      · rw [hready]
        simp

/-- An open connection is never stuck: whenever its reading is paused, once the peer takes what is kept, however little at a
time, the timer resumes it; and nothing that was written is lost meanwhile. -/
theorem resumes (env : Env) (kernel : SessionId → Nat → Option Nat) {port : Nat} {table : Option (Table F)}
    {storage : Dict Value (Entry F)}
    {events : List Event} {b : Backend F} (h : trace (step env kernel) (.init port table storage) events = some b)
    (i : SessionId) {t : Transport}
    (ht : (b.conns i)._transport = some t) (hopen : t.closing = false) (hpaused : t.paused = true)
    (htakes : ∀ n, ∃ m, kernel i n = some (m + 1)) :
    ∃ k b' t', trace (step env kernel) b (List.replicate k (.writable i) ++ [.timer i]) = some b' ∧
      (b'.conns i)._transport = some t' ∧
      t'.is_reading = true ∧ t'.sent ++ t'.buffer = t.sent ++ t.buffer := by
  have hsound := sound_of_trace h i
  obtain ⟨k, b₁, t₁, htrace, ht₁, hlow, hopen₁, hhandle, hbytes⟩ := drains env htakes ht hopen
  have hhandle₁ : (b₁.conns i)._resume_handle = true := by rw [hhandle, hsound.armed t ht, hsound.paused t ht hopen hpaused]
  obtain ⟨hclosing, hbuffer, -, hresumed⟩ := Conn.resume_spec t₁
  refine ⟨k, b₁.update i Conn._maybe_resume_reading, t₁.resume_reading, ?_, ?_, ?_, ?_⟩
  · rw [trace.append, htrace, Option.bind_some]
    unfold trace step
    dsimp only
    rw [if_pos hhandle₁]
    rfl
  · rw [update_conns, if_pos rfl]
    unfold Conn._maybe_resume_reading
    rw [ht₁]
    exact congrArg Conn._transport (if_pos hlow)
  · simp [Transport.is_reading, hclosing, hopen₁, hresumed hopen₁]
  · rw [hbuffer, ← hbytes]
    unfold Transport.resume_reading
    split
    all_goals rfl

/-- A client that asked for an echo of a megabyte and takes it byte by byte. -/
theorem resumes_unread :
    ∃ b, trace (step .plain fun _ _ => some 1) (init (F := Int) 0 none ∅) (unread (List.replicate HIGH_WATER 97)) = some b ∧
    ∃ k b' t', trace (step .plain fun _ _ => some 1) b (List.replicate k (.writable 0) ++ [.timer 0]) = some b' ∧
      (b'.conns 0)._transport = some t' ∧ t'.is_reading = true := by
  have hlength : HIGH_WATER ≤ (List.replicate HIGH_WATER (97 : UInt8)).length := Nat.le_of_eq List.length_replicate.symm
  obtain ⟨b, t, htrace, ht, hopen, hpaused⟩ := unread_pauses hlength
  obtain ⟨k, b', t', hend, ht', hreading, -⟩ := resumes .plain (fun _ _ => some 1) htrace 0 ht hopen hpaused fun _ => ⟨0, rfl⟩
  exact ⟨b, htrace, k, b', t', hend, ht', hreading⟩

end Backend

end Kagni.Asyncio
