import Kagni.Lemmas.Parse
import Kagni.Lemmas.Server
import Kagni.Theorems.Backpressure

/-!
# What the asyncio backend writes

A run of the backend is a run of the server, and what an open connection was sent, with what is kept for it, is what the
server pushed to it and answered it, in the order in which it did.
-/

namespace Kagni.Asyncio

open Lib

variable {F : Type} [PyFloat F]

/-- What an input makes the server send to a session: the frames it pushes to it, and the reply if the session asked. -/
def emitted (env : Env) (s : Server F) (input : Input) (i : SessionId) : List Bytes :=
  newFrames s (s.step env input) i ++ match input with
    | .request clock state message =>
      if state = some i then
        match (dispatch message state (env, clock) s).1 with
        | .ok (some frame) => [frame]
        | _ => []
      else []
    | .lost _ => []

/-- What a run of the server sends to a session. -/
def transcript (env : Env) (s : Server F) : List Input → SessionId → List Bytes
  | [], _ => []
  | input :: inputs, i => emitted env s input i ++ transcript env (s.step env input) inputs i

/-- The requests of a chunk as inputs, up to the first that raises, and whether none does. -/
def answered (env : Env) (i : SessionId) : (now : Nat → Clock) → List Value → Server F → Bool × List Input
  | _, [], _ => (true, [])
  | now, request :: requests, s =>
    match (dispatch request (some i) (env, now 0) s).1 with
    | .error _ => (false, [.request (now 0) (some i) request])
    | .ok _ =>
      let rest := answered env i (fun n => now (n + 1)) requests (dispatch request (some i) (env, now 0) s).2
      (rest.1, .request (now 0) (some i) request :: rest.2)

/-- What a call of the event loop is to the server: the requests of a chunk that are dispatched, or the end of a connection. -/
def Backend.heard (env : Env) (kernel : SessionId → Nat → Option Nat) (b : Backend F) : Event → List Input
  | .data_received i (.requests messages) now => (answered env i now messages b.server).2
  | .writable i =>
    if ((b.conns i)._transport.map fun t => (t._write_ready (kernel i)).finished) = some true then [.lost i] else []
  | .connection_lost i => [.lost i]
  | _ => []

/-- What a run of the backend is to the server. -/
def Backend.inputs (env : Env) (kernel : SessionId → Nat → Option Nat) (b : Backend F) : List Event → List Input
  | [] => []
  | e :: events => b.heard env kernel e ++ ((b.step env kernel e).map fun b' => b'.inputs env kernel events).getD []

section Transcripts

variable {env : Env} {s : Server F} {i j : SessionId}

theorem transcript_append (xs ys : List Input) :
    transcript env s (xs ++ ys) i = transcript env s xs i ++ transcript env (s.run env xs) ys i := by
  induction xs generalizing s with
  | nil => rfl
  | cons x xs ih =>
    rw [List.cons_append, transcript, ih, ← List.append_assoc]
    rfl

theorem emitted_lost : emitted env s (.lost j) i = [] := by
  have hwire : (((s.update j fun st => { st with sender := none }) : Server F).sessions i).wire = (s.sessions i).wire := by
    rw [Server.update_sessions]
    split
    · rename_i h
      rw [h]
    · rfl
  unfold emitted newFrames
  rw [List.append_nil]
  change (((s.update j fun st => { st with sender := none }) : Server F).sessions i).wire.drop (s.sessions i).wire.length = []
  rw [hwire, List.drop_length]

end Transcripts

/-! ## One connection -/

/-- What was written to a transport. -/
def Transport.stream (t : Transport) : Bytes := t.sent ++ t.buffer

/-- What was written to the connection is `expected`, as long as it is open. -/
def Conn.Wrote (expected : Bytes) (c : Conn) : Prop := ∀ t, c._transport = some t → t.closing = false → t.stream = expected

namespace Conn

variable {c : Conn} {f : Transport → Transport} {n : Nat} {expected more : Bytes}

/-- A call of the transport that writes `more`, if it stays open. -/
theorem Wrote.withTransport (h : c.Wrote expected)
    (hf : ∀ t, c._transport = some t → (f t).closing = false → t.closing = false ∧ (f t).stream = t.stream ++ more) :
    (c.withTransport f).Wrote (expected ++ more) := by
  intro t' ht' hopen
  obtain ⟨t, ht, rfl⟩ := withTransport_eq_some ht'
  obtain ⟨hopen', hstream⟩ := hf t ht hopen
  rw [hstream, h t ht hopen']

theorem stream_force_close {t : Transport} (hsettled : t.Settled) (h : t._force_close.closing = false) : False := by
  rw [t.force_close_closing hsettled] at h
  cases h

theorem stream_write (kernel : Nat → Option Nat) (t : Transport) (data : Bytes) (hsettled : t.Settled)
    (h : (t.write kernel data).closing = false) :
    t.closing = false ∧ (t.write kernel data).stream = t.stream ++ data := by
  refine ⟨open_of_goes (t.goes_write kernel data) h, ?_⟩
  revert h
  unfold Transport.write Transport.stream
  split
  · rename_i hcase
    rcases hcase with rfl | hlost
    · exact fun _ => (List.append_nil _).symm
    · exact fun hopen => absurd (hsettled hlost).1 (by simp [hopen])
  · rename_i hcase
    split
    · exact fun _ => (List.append_assoc ..).symm
    · rename_i hbuffer
      rw [not_not] at hbuffer
      split
      · intro _
        simp [hbuffer]
      · intro hopen
        rw [not_or] at hcase
        exact (stream_force_close (t := { t with attempts := t.attempts + 1 }) (fun hlost => absurd hlost hcase.2) hopen).elim

theorem Wrote.push (h : c.Wrote expected) (hc : c.Flags) (kernel : Nat → Option Nat) (frame : Bytes) :
    (c._push_frame kernel frame).Wrote (expected ++ frame) := by
  refine h.withTransport ?_
  intro t ht
  dsimp only
  split
  · rw [Transport.close_closing]
    exact nofun
  · exact stream_write kernel t frame (hc.settled t ht)

theorem Wrote.pushes (h : c.Wrote expected) (hc : c.Flags) (kernel : Nat → Option Nat) (frames : List Bytes) :
    (frames.foldl (Conn._push_frame kernel) c).Wrote (expected ++ frames.flatten) := by
  induction frames generalizing c expected with
  | nil => rwa [List.flatten_nil, List.append_nil]
  | cons frame frames ih =>
    rw [List.flatten_cons, ← List.append_assoc]
    exact ih (h.push hc kernel frame) (hc.push kernel frame)

theorem Wrote.write (h : c.Wrote expected) (hc : c.Flags) (kernel : Nat → Option Nat) (frame : Bytes) :
    (c.write kernel frame).Wrote (expected ++ frame) :=
  h.withTransport (f := fun t => t.write kernel frame) fun t ht => stream_write kernel t frame (hc.settled t ht)

theorem Wrote.closed {f : Transport → Transport} (hf : ∀ t, c._transport = some t → (f t).closing = true) :
    (c.withTransport f).Wrote expected := by
  intro t' ht' hopen
  obtain ⟨t, ht, rfl⟩ := withTransport_eq_some ht'
  rw [hf t ht] at hopen
  cases hopen

theorem Wrote.pause (h : c.Wrote expected) : c._maybe_pause_reading.Wrote expected := by
  unfold _maybe_pause_reading
  split
  · exact h
  · rename_i t ht
    split
    · exact h
    · intro t' ht' hopen
      obtain rfl := Option.some.inj ht'
      have hpause : t.pause_reading.closing = t.closing ∧ t.pause_reading.stream = t.stream := by
        unfold Transport.pause_reading
        split
        all_goals exact ⟨rfl, rfl⟩
      rw [hpause.2]
      exact h t ht (hpause.1 ▸ hopen)

theorem Wrote.resume (h : c.Wrote expected) : c._maybe_resume_reading.Wrote expected := by
  unfold _maybe_resume_reading
  split
  · rename_i hnone
    exact fun t ht => absurd (hnone.symm.trans ht) nofun
  · rename_i t ht
    split
    · intro t' ht' hopen
      obtain rfl := Option.some.inj ht'
      have hresume : t.resume_reading.closing = t.closing ∧ t.resume_reading.stream = t.stream := by
        unfold Transport.resume_reading
        split
        all_goals exact ⟨rfl, rfl⟩
      rw [hresume.2]
      exact h t ht (hresume.1 ▸ hopen)
    · exact h

theorem Wrote.ready (h : c.Wrote expected) (hc : c.Flags) (kernel : Nat → Option Nat)
    (hbuffer : ∀ t, c._transport = some t → t.buffer ≠ []) :
    (c.withTransport (·._write_ready kernel)).Wrote expected := by
  intro t' ht' hopen
  obtain ⟨t, ht, rfl⟩ := withTransport_eq_some ht'
  have hopen' := open_of_goes (t.goes_write_ready kernel (hbuffer t ht)) hopen
  revert hopen
  unfold Transport._write_ready
  split
  · intro _
    rw [← h t ht hopen']
    simp [Transport.stream]
  · intro hopen
    exact (stream_force_close (t := { t with attempts := t.attempts + 1 }) (hc.settled t ht) hopen).elim

end Conn

/-! ## The backend -/

namespace Backend

variable {b b' : Backend F} {i j : SessionId} {env : Env} {kernel : SessionId → Nat → Option Nat} {start : Server F}
  {inputs : List Input}

/-- The server is where the inputs lead, and every open connection was written what they make it send. -/
structure Follows (env : Env) (start : Server F) (inputs : List Input) (b : Backend F) : Prop where
  server : b.server = start.run env inputs
  wrote : ∀ j, (b.conns j).Wrote (transcript env start inputs j).flatten

/-- A change of a connection that writes nothing. -/
theorem Follows.update (h : b.Follows env start inputs) {f : Conn → Conn}
    (hf : (b.conns i).Wrote (transcript env start inputs i).flatten →
      (f (b.conns i)).Wrote (transcript env start inputs i).flatten) :
    (b.update i f).Follows env start inputs := by
  refine ⟨h.server, fun j => ?_⟩
  rw [update_conns]
  split
  · rename_i hji
    rw [hji]
    exact hf (h.wrote i)
  · exact h.wrote j

theorem flatten_transcript (x : Input) : (transcript env start (inputs ++ [x]) j).flatten =
    (transcript env start inputs j).flatten ++ (emitted env (start.run env inputs) x j).flatten := by
  rw [transcript_append, List.flatten_append, transcript, transcript, List.append_nil]

/-- A request that is answered by nothing, or raises. -/
theorem Follows.silent (h : b.Follows env start inputs) (hb : b.Working i) (kernel : SessionId → Nat → Option Nat)
    (clock : Clock) (request : Value)
    (hsilent : ∀ frame, (dispatch request (some i) (env, clock) b.server).1 ≠ .ok (some frame)) :
    (b.advance kernel (dispatch request (some i) (env, clock) b.server).2).Follows env start
    (inputs ++ [.request clock (some i) request]) := by
  refine ⟨?_, fun j => ?_⟩
  · rw [Server.run_append, ← h.server]
    rfl
  · rw [flatten_transcript, ← h.server]
    have hemitted : emitted env b.server (.request clock (some i) request) j = newFrames b.server
        (dispatch request (some i) (env, clock) b.server).2 j := by
      unfold emitted
      dsimp only
      split
      · split
        · rename_i hframe
          exact absurd hframe (hsilent _)
        · exact List.append_nil _
      · exact List.append_nil _
    rw [hemitted]
    exact (h.wrote j).pushes (hb j).1 (kernel j) _

/-- A request that is answered by a frame. -/
theorem Follows.reply (h : b.Follows env start inputs) (hb : b.Working i) (kernel : SessionId → Nat → Option Nat)
    (clock : Clock) (request : Value) {frame : Bytes}
    (hframe : (dispatch request (some i) (env, clock) b.server).1 = .ok (some frame)) :
    ((b.advance kernel (dispatch request (some i) (env, clock) b.server).2).update i (·.write (kernel i) frame)).Follows env start
      (inputs ++ [.request clock (some i) request]) := by
  have hadvance := hb.advance kernel (dispatch request (some i) (env, clock) b.server).2
  have hpushes : ∀ j, ((b.advance kernel (dispatch request (some i) (env, clock) b.server).2).conns j).Wrote
      ((transcript env start inputs j).flatten ++
        (newFrames b.server (dispatch request (some i) (env, clock) b.server).2 j).flatten) := fun j =>
    (h.wrote j).pushes (hb j).1 (kernel j) _
  refine ⟨?_, fun j => ?_⟩
  · rw [Server.run_append, ← h.server]
    rfl
  · rw [flatten_transcript, ← h.server, update_conns]
    unfold emitted
    dsimp only
    by_cases hji : j = i
    · subst hji
      rw [if_pos rfl, if_pos rfl, hframe, List.flatten_append, ← List.append_assoc, List.flatten_singleton]
      exact (hpushes j).write (hadvance j).1 (kernel j) frame
    · rw [if_neg fun e => hji (Option.some.inj e).symm, if_neg hji, List.append_nil]
      exact hpushes j

/-- The loop over the requests of a chunk. -/
theorem Follows.serve (h : b.Follows env start inputs) (hb : b.Working i) (kernel : SessionId → Nat → Option Nat)
    (now : Nat → Clock) (messages : List Value) :
    (b.serve env kernel i now messages).1 = (answered env i now messages b.server).1 ∧
      (b.serve env kernel i now messages).2.Follows env start (inputs ++ (answered env i now messages b.server).2) := by
  induction messages generalizing now b inputs with
  | nil => exact ⟨rfl, by rwa [answered, List.append_nil]⟩
  | cons request messages ih =>
    have hadvance := hb.advance kernel (dispatch request (some i) (env, now 0) b.server).2
    unfold Backend.serve answered
    dsimp only
    cases hout : (dispatch request (some i) (env, now 0) b.server).1 with
    | error e => exact ⟨rfl, h.silent hb kernel (now 0) request fun frame hframe => by rw [hout] at hframe; cases hframe⟩
    | ok reply =>
      cases reply with
      | none =>
        have hnext := h.silent hb kernel (now 0) request fun frame hframe => by rw [hout] at hframe; cases hframe
        obtain ⟨hdone, hrest⟩ := ih hnext hadvance fun n => now (n + 1)
        refine ⟨hdone, ?_⟩
        rwa [List.append_assoc] at hrest
      | some frame =>
        have hnext := h.reply hb kernel (now 0) request hout
        obtain ⟨hdone, hrest⟩ := ih hnext (hadvance.write frame) fun n => now (n + 1)
        refine ⟨hdone, ?_⟩
        rwa [List.append_assoc] at hrest

theorem Follows.lost (h : b.Follows env start inputs) (i : SessionId) :
    (b.connection_lost env i).Follows env start (inputs ++ [.lost i]) := by
  refine ⟨?_, fun j => ?_⟩
  · rw [Server.run_append, ← h.server]
    rfl
  · rw [flatten_transcript, emitted_lost, List.flatten_nil, List.append_nil]
    change ((b.update i Conn.connection_lost).conns j).Wrote _
    rw [update_conns]
    split
    · exact nofun
    · exact h.wrote j

/-- What a chunk makes the backend do. -/
theorem Follows.data_received (h : b.Follows env start inputs) (hb : b.Sound) {t : Transport}
    (ht : (b.conns i)._transport = some t)
    (hreading : t.is_reading = true) (messages : List Value) (now : Nat → Clock) :
    (b.data_received env kernel i (.requests messages) now).Follows env start
    (inputs ++ (answered env i now messages b.server).2) := by
  have hworking := hb.working ht hreading
  have hstart : (b.update i fun c => { c with burst := 0 }).Follows env start inputs := h.update id
  obtain ⟨-, hserve⟩ := hstart.serve hworking kernel now messages
  unfold Backend.data_received
  dsimp only
  split
  · exact hserve.update Conn.Wrote.pause
  · refine hserve.update ?_
    intro _
    refine Conn.Wrote.closed ?_
    intro t' ht'
    exact t'.force_close_closing ((hworking.serve env kernel now messages i).1.settled t' ht')

/-- A call of the event loop is to the server what it hears of it. -/
theorem Follows.step (h : b.Follows env start inputs) (hb : b.Sound) {e : Event} (hstep : b.step env kernel e = some b') :
    b'.Follows env start (inputs ++ b.heard env kernel e) := by
  cases e with
  | data_received i data now =>
    obtain ⟨t, ht, hcase⟩ := Option.bind_eq_some_iff.1 hstep
    split at hcase
    · rename_i hreading
      obtain rfl := Option.some.inj hcase
      have hstart : (b.update i fun c => { c with burst := 0 }).Follows env start inputs := h.update id
      cases data with
      | requests messages => exact h.data_received hb ht hreading messages now
      | garbage text =>
        unfold Backend.data_received heard
        rw [List.append_nil]
        exact hstart.update fun _ => Conn.Wrote.pause (Conn.Wrote.closed fun t _ => t.close_closing)
      | crash =>
        unfold Backend.data_received heard
        rw [List.append_nil]
        refine hstart.update ?_
        intro _
        refine Conn.Wrote.closed ?_
        intro t' ht'
        exact t'.force_close_closing ((hb.working ht hreading i).1.settled t' ht')
    · cases hcase
  | timer i =>
    unfold Backend.step at hstep
    unfold heard
    dsimp only at hstep ⊢
    rw [List.append_nil]
    split at hstep
    · obtain rfl := Option.some.inj hstep
      exact h.update Conn.Wrote.resume
    · cases hstep
  | writable i =>
    obtain ⟨t, ht, hcase⟩ := Option.bind_eq_some_iff.1 hstep
    split at hcase
    · rename_i hbuffer
      have hready : (b.update i (·.withTransport (·._write_ready (kernel i)))).Follows env start inputs :=
        h.update fun hwrote => hwrote.ready (hb i).toFlags (kernel i) fun t' ht' => Option.some.inj (ht.symm.trans ht') ▸ hbuffer
      obtain rfl := Option.some.inj hcase
      unfold heard
      dsimp only
      rw [ht, Option.map_some]
      split
      · rename_i hfinished
        rw [if_pos (Option.some.inj hfinished)]
        exact hready.lost i
      · rename_i hfinished
        rw [if_neg fun e => hfinished (congrArg some e), List.append_nil]
        exact hready
    · cases hcase
  | eof i =>
    obtain ⟨t, ht, hcase⟩ := Option.bind_eq_some_iff.1 hstep
    split at hcase
    · obtain rfl := Option.some.inj hcase
      unfold heard
      rw [List.append_nil]
      refine h.update ?_
      intro _
      exact Conn.Wrote.closed fun t _ => t.close_closing
    · cases hcase
  | broken i =>
    obtain ⟨t, ht, hcase⟩ := Option.bind_eq_some_iff.1 hstep
    split at hcase
    · obtain rfl := Option.some.inj hcase
      unfold heard
      rw [List.append_nil]
      refine h.update ?_
      intro _
      refine Conn.Wrote.closed ?_
      intro t' ht'
      exact t'.force_close_closing ((hb i).settled t' ht')
    · cases hcase
  | connection_lost i =>
    obtain ⟨t, ht, hcase⟩ := Option.bind_eq_some_iff.1 hstep
    split at hcase
    · obtain rfl := Option.some.inj hcase
      exact h.lost i
    · cases hcase

theorem Follows.trace {events : List Event} (h : b.Follows env start inputs) (hb : b.Sound)
    (htrace : Lib.trace (Backend.step env kernel) b events = some b') :
    b'.Follows env start (inputs ++ b.inputs env kernel events) := by
  induction events generalizing b inputs with
  | nil =>
    obtain rfl := Option.some.inj htrace
    rwa [Backend.inputs, List.append_nil]
  | cons e events ih =>
    obtain ⟨b₁, hstep, hrest⟩ := trace.cons_eq_some.1 htrace
    have hend := ih (h.step hb hstep) (hb.step hstep) hrest
    rwa [Backend.inputs, hstep, Option.map_some, Option.getD_some, ← List.append_assoc]

theorem follows_init (env : Env) (port : Nat) (table : Option (Table F)) (storage : Dict Value (Entry F)) :
    (init port table storage).Follows env (.init port table storage fun _ => true) [] :=
  ⟨rfl, fun _ t ht _ => by
    cases ht
    rfl⟩

/-- A run of the backend is a run of the server over what it hears; and what was written to a connection that is open is what
the server pushed to its session and answered it on that run, in the order in which it did. -/
theorem runs_server (env : Env) (kernel : SessionId → Nat → Option Nat) (port : Nat) (table : Option (Table F))
    (storage : Dict Value (Entry F))
    {events : List Event} {b : Backend F} (h : Lib.trace (Backend.step env kernel) (init port table storage) events = some b) :
    let start : Server F := .init port table storage fun _ => true
    let inputs := (init port table storage).inputs env kernel events
    b.server = start.run env inputs ∧ ∀ i t, (b.conns i)._transport = some t → t.closing = false →
      t.sent ++ t.buffer = (transcript env start inputs i).flatten := by
  have hend := (follows_init env port table storage).trace (fun _ => Conn.sound_opened) h
  exact ⟨hend.server, hend.wrote⟩

/-- A client that asked for an echo: what the server sent it. -/
theorem runs_server_unread : ∃ b, Lib.trace (Backend.step .plain fun _ _ => some 1) (init (F := Int) 0 none ∅)
    (unread (bs "hi")) = some b ∧
    b.server = (Server.init (F := Int) 0 none ∅ fun _ => true).run .plain
      ((init (F := Int) 0 none ∅).inputs .plain (fun _ _ => some 1) (unread (bs "hi"))) := by
  have htrace : Lib.trace (Backend.step .plain fun _ _ => some 1) (init (F := Int) 0 none ∅) (unread (bs "hi")) = some _ := rfl
  exact ⟨_, htrace, (runs_server .plain (fun _ _ => some 1) 0 none ∅ htrace).1⟩

/-! ## Chunks -/

/-- One connection is served, and the others only take what is kept for them: the chunks arrive one after the other, and the
n-th request of them all is dispatched at `clocks n`. -/
inductive Delivers (i : SessionId) (clocks : Nat → Clock) : Nat → List (List Value) → List Event → Prop
  | done (n : Nat) : Delivers i clocks n [] []
  | chunk {n : Nat} {messages : List Value} {chunks : List (List Value)} {events : List Event}
    (h : Delivers i clocks (n + messages.length) chunks events) :
    Delivers i clocks n (messages :: chunks) (.data_received i (.requests messages) (fun k => clocks (n + k)) :: events)
  | timer {n : Nat} {chunks : List (List Value)} {events : List Event} (j : SessionId) (h : Delivers i clocks n chunks events) :
    Delivers i clocks n chunks (.timer j :: events)
  | writable {n : Nat} {chunks : List (List Value)} {events : List Event} (j : SessionId)
    (h : Delivers i clocks n chunks events) :
    Delivers i clocks n chunks (.writable j :: events)

/-- Every connection is open. -/
def Open (b : Backend F) : Prop := ∀ j, ∃ t, (b.conns j)._transport = some t ∧ t.closing = false

theorem open_of_each {events : List Event} (htrace : Lib.trace (Backend.step env kernel) b events = some b')
    (hopen : trace.Each (Backend.step env kernel) (fun b _ => b.Open) b events) (hend : b'.Open) : b.Open := by
  cases events with
  | nil => exact Option.some.inj htrace ▸ hend
  | cons e events => exact hopen.head

/-- An open connection is not over when the socket takes more. -/
theorem finished_write_ready {t : Transport} (h : t.closing = false) (kernel : Nat → Option Nat) :
    (t._write_ready kernel).finished = false := by
  unfold Transport._write_ready Transport.finished
  split
  · simp [h]
  · unfold Transport._force_close
    split
    · simp [h]
    · simp

/-- A chunk that leaves the connection open was answered to its end. -/
theorem answered_of_open (hb : b.Sound) {now : Nat → Clock} {messages : List Value} (h : b.Follows env start inputs)
    (hstep : b.step env kernel (.data_received i (.requests messages) now) = some b') (hopen : b'.Open) :
    (answered env i now messages b.server).1 = true := by
  obtain ⟨t, ht, hcase⟩ := Option.bind_eq_some_iff.1 hstep
  split at hcase
  · rename_i hreading
    obtain rfl := Option.some.inj hcase
    have hworking := hb.working ht hreading
    have hstart : (b.update i fun c => { c with burst := 0 }).Follows env start inputs := h.update id
    obtain ⟨hdone, -⟩ := hstart.serve hworking kernel now messages
    change _ = (answered env i now messages b.server).1 at hdone
    cases hanswered : (answered env i now messages b.server).1 with
    | true => rfl
    | false =>
      obtain ⟨t', ht', hopen'⟩ := hopen i
      unfold Backend.data_received at ht'
      dsimp only at ht'
      rw [hdone, hanswered, if_neg (by decide), update_conns, if_pos rfl] at ht'
      obtain ⟨t₁, ht₁, rfl⟩ := Conn.withTransport_eq_some ht'
      rw [t₁.force_close_closing ((hworking.serve env kernel now messages i).1.settled t₁ ht₁)] at hopen'
      cases hopen'
  · cases hcase

theorem answered_ok {now : Nat → Clock} {x : Value} {xs : List Value} {s : Server F} {reply : Option Bytes}
    (h : (dispatch x (some i) (env, now 0) s).1 = .ok reply) : answered env i now (x :: xs) s =
      ((answered env i (fun n => now (n + 1)) xs (dispatch x (some i) (env, now 0) s).2).1,
        .request (now 0) (some i) x :: (answered env i (fun n => now (n + 1)) xs (dispatch x (some i) (env, now 0) s).2).2) := by
  rw [answered, h]

theorem answered_error {now : Nat → Clock} {x : Value} {xs : List Value} {s : Server F} {e : Unit}
    (h : (dispatch x (some i) (env, now 0) s).1 = .error e) :
    answered env i now (x :: xs) s = (false, [.request (now 0) (some i) x]) := by
  rw [answered, h]

/-- A chunk whose requests are all answered, and what follows it. -/
theorem answered_append {now : Nat → Clock} {xs : List Value} {s : Server F} (h : (answered env i now xs s).1 = true)
    (ys : List Value) :
    (answered env i now (xs ++ ys) s).2 = (answered env i now xs s).2 ++
      (answered env i (fun k => now (xs.length + k)) ys (s.run env (answered env i now xs s).2)).2 := by
  induction xs generalizing now s with
  | nil =>
    simp only [List.nil_append, answered, List.length_nil, Nat.zero_add]
    rfl
  | cons x xs ih =>
    cases hout : (dispatch x (some i) (env, now 0) s).1 with
    | error e =>
      rw [answered_error hout] at h
      cases h
    | ok reply =>
      rw [answered_ok hout] at h
      have hrest := ih h
      have hnow : (fun k => now ((x :: xs).length + k)) = fun k => now (xs.length + k + 1) :=
        funext fun k => congrArg now (by rw [List.length_cons]; omega)
      rw [List.cons_append, answered_ok hout, answered_ok hout, hrest, hnow]
      rfl

theorem inputs_of_delivers {n : Nat} {clocks : Nat → Clock} {chunks : List (List Value)} {events : List Event}
    (hd : Delivers i clocks n chunks events)
    (h : b.Follows env start inputs) (hb : b.Sound) (htrace : Lib.trace (Backend.step env kernel) b events = some b')
    (hopen : trace.Each (Backend.step env kernel) (fun b _ => b.Open) b events) (hend : b'.Open) :
    b.inputs env kernel events = (answered env i (fun k => clocks (n + k)) chunks.flatten b.server).2 := by
  induction hd generalizing b inputs with
  | done n =>
    unfold Backend.inputs answered
    rfl
  | @chunk n messages chunks events hd ih =>
    obtain ⟨b₁, hstep, hrest⟩ := trace.cons_eq_some.1 htrace
    have hnext := h.step hb hstep
    have hserver : b₁.server = b.server.run env (answered env i (fun k => clocks (n + k)) messages b.server).2 := by
      rw [hnext.server, Server.run_append, ← h.server]
      rfl
    have hdone : (answered env i (fun k => clocks (n + k)) messages b.server).1 = true :=
      answered_of_open hb h hstep (open_of_each hrest (hopen.tail hstep) hend)
    rw [Backend.inputs, hstep, Option.map_some, Option.getD_some, ih hnext (hb.step hstep) hrest (hopen.tail hstep),
      List.flatten_cons,
      answered_append hdone, hserver]
    simp only [Nat.add_assoc]
    rfl
  | timer j hd ih =>
    obtain ⟨b₁, hstep, hrest⟩ := trace.cons_eq_some.1 htrace
    have hnext := h.step hb hstep
    have hserver : b₁.server = b.server := by
      rw [hnext.server, h.server]
      exact congrArg (start.run env) (List.append_nil _)
    rw [Backend.inputs, hstep, Option.map_some, Option.getD_some, ih hnext (hb.step hstep) hrest (hopen.tail hstep), hserver]
    rfl
  | writable j hd ih =>
    obtain ⟨b₁, hstep, hrest⟩ := trace.cons_eq_some.1 htrace
    have hnext := h.step hb hstep
    have hheard : b.heard env kernel (.writable j) = [] := by
      obtain ⟨t, ht, hj⟩ := hopen.head j
      unfold heard
      dsimp only
      rw [ht, Option.map_some, finished_write_ready hj]
      exact if_neg (by decide)
    rw [hheard, List.append_nil] at hnext
    rw [Backend.inputs, hheard, hstep, Option.map_some, Option.getD_some, ih hnext (hb.step hstep) hrest (hopen.tail hstep),
      hnext.server, h.server]
    rfl

/-- The messages of a stream that is parsed without an error do not depend on how it is cut. -/
theorem flatten_feedAll (depth : Nat) {stream : Bytes} (hsize : stream.length ≤ MAX_BUFFER) {cs cs' : List Bytes}
    (h : cs.flatten = stream)
    (h' : cs'.flatten = stream) (hok : (feedAll (depth + 1) [] cs).2.1 = none) :
    (feedAll (depth + 1) [] cs).1.flatten = (feedAll (depth + 1) [] cs').1.flatten := by
  have key : ∀ c : List Bytes, c.flatten = stream → _ := fun c hc =>
    FrameParser.feedAll_eq (parseFront_stable (depth + 1)) MAX_BUFFER (.protocol .requestTooLarge) [] c rfl
      (by rw [hc]; exact hsize)
  obtain ⟨h₁, h₂⟩ := key cs h
  obtain ⟨-, h₂'⟩ := key cs' h'
  rw [feedAll_eq] at hok ⊢
  rw [feedAll_eq]
  rw [h] at h₁ h₂
  rw [h'] at h₂'
  rw [h₁] at hok
  exact (h₂ hok).1.trans (h₂' hok).1.symm

/-- However the stream of a client is cut into chunks, and whatever the sockets take in between: as long as no connection is
closed, the server ends in the same state, and every connection is written the same. -/
theorem chunks_unnoticed (env : Env) {port : Nat} {table : Option (Table F)} {storage : Dict Value (Entry F)} (i : SessionId)
    (clocks : Nat → Clock)
    (depth : Nat) {stream : Bytes} (hsize : stream.length ≤ MAX_BUFFER) {cs cs' : List Bytes} (hcs : cs.flatten = stream)
    (hcs' : cs'.flatten = stream)
    (hok : (feedAll (depth + 1) [] cs).2.1 = none) {kernel kernel' : SessionId → Nat → Option Nat}
    {before events events' : List Event}
    {b₀ b b' : Backend F} (hbefore : Lib.trace (Backend.step env kernel) (init port table storage) before = some b₀)
    (hevents : Delivers i clocks 0 (feedAll (depth + 1) [] cs).1 events)
    (hevents' : Delivers i clocks 0 (feedAll (depth + 1) [] cs').1 events')
    (h : Lib.trace (Backend.step env kernel) b₀ events = some b) (h' : Lib.trace (Backend.step env kernel') b₀ events' = some b')
    (hopen : trace.Each (Backend.step env kernel) (fun b _ => b.Open) b₀ events) (hend : b.Open)
    (hopen' : trace.Each (Backend.step env kernel') (fun b _ => b.Open) b₀ events') (hend' : b'.Open) :
    b.server = b'.server ∧ ∀ j t t', (b.conns j)._transport = some t → (b'.conns j)._transport = some t' →
      t.sent ++ t.buffer = t'.sent ++ t'.buffer := by
  have hsound : b₀.Sound := sound_of_trace hbefore
  have hfollows := (follows_init env port table storage).trace (fun _ => Conn.sound_opened) hbefore
  have hinputs : b₀.inputs env kernel events = b₀.inputs env kernel' events' := by
    rw [inputs_of_delivers hevents hfollows hsound h hopen hend, inputs_of_delivers hevents' hfollows hsound h' hopen' hend',
      flatten_feedAll depth hsize hcs hcs' hok]
  have hrun := hfollows.trace hsound h
  have hrun' := hfollows.trace hsound h'
  rw [hinputs] at hrun
  refine ⟨hrun.server.trans hrun'.server.symm, fun j t t' ht ht' => ?_⟩
  obtain ⟨t₁, ht₁, hj⟩ := hend j
  obtain ⟨t₁', ht₁', hj'⟩ := hend' j
  obtain rfl := Option.some.inj (ht.symm.trans ht₁)
  obtain rfl := Option.some.inj (ht'.symm.trans ht₁')
  exact (hrun.wrote j t ht hj).trans (hrun'.wrote j t' ht' hj').symm

/-- A client sends a PING, at once or in two parts. -/
def pinged (chunks : List (List Value)) : List Event :=
  chunks.map fun messages => .data_received 0 (.requests messages) fun _ => ⟨0, 0⟩

/-- The backend after it. -/
def ponged : Backend Int := (init 0 none ∅).update 0 fun _ => ⟨some ⟨[], bs "+PONG\r\n", false, false, false, 1⟩, false, false, 7⟩

theorem step_ping : (init (F := Int) 0 none ∅).step .plain (fun _ _ => some 100)
    (.data_received 0 (.requests [.array [.bytes (bs "PING")]]) fun _ => ⟨0, 0⟩) = some ponged := by
  have hping : dispatch (.array [.bytes (bs "PING")]) (some 0) (.plain, ⟨0, 0⟩) (init (F := Int) 0 none ∅).server =
      (.ok (some (bs "+PONG\r\n")), (init (F := Int) 0 none ∅).server) := rfl
  have hserve : ((init (F := Int) 0 none ∅).update 0 fun c => { c with burst := 0 }).serve .plain (fun _ _ => some 100) 0
      (fun _ => ⟨0, 0⟩) [.array [.bytes (bs "PING")]] =
        (true, ((init (F := Int) 0 none ∅).update 0 fun c => { c with burst := 0 }).update 0
          (·.write (fun _ => some 100) (bs "+PONG\r\n"))) := by
    change (let reply := dispatch (.array [.bytes (bs "PING")]) (some 0) (.plain, ⟨0, 0⟩) (init (F := Int) 0 none ∅).server
      _) = _
    rw [hping]
    dsimp only
    exact congrArg (fun b : Backend Int => (true, b.update 0 (·.write (fun _ => some 100) (bs "+PONG\r\n")))) (advance_self _)
  change some (data_received .plain (fun _ _ => some 100) 0 _ _ (init (F := Int) 0 none ∅)) = _
  unfold data_received
  dsimp only
  rw [hserve]
  dsimp only
  rw [if_pos rfl]
  unfold ponged update
  simp only [Function.update_idem, Function.update_self]
  rfl

theorem step_nothing : (init (F := Int) 0 none ∅).step .plain (fun _ _ => some 100)
    (.data_received 0 (.requests []) fun _ => ⟨0, 0⟩) =
    some (init 0 none ∅) := by
  have hconns : Function.update (init (F := Int) 0 none ∅).conns 0 Conn.opened = (init (F := Int) 0 none ∅).conns :=
    Function.update_eq_self 0 (init (F := Int) 0 none ∅).conns
  change some (data_received .plain (fun _ _ => some 100) 0 _ _ (init (F := Int) 0 none ∅)) = _
  unfold data_received serve update
  simp only [Function.update_idem, Function.update_self, if_true]
  exact congrArg (fun conns => some (Backend.mk _ conns)) hconns

theorem open_init : (init (F := Int) 0 none ∅).Open := fun _ => ⟨.opened, rfl, rfl⟩

theorem open_ponged : ponged.Open := by
  intro j
  unfold ponged
  rw [update_conns]
  split
  · exact ⟨_, rfl, rfl⟩
  · exact ⟨.opened, rfl, rfl⟩

/-- The server does not notice. -/
theorem chunks_unnoticed_ping : ∃ b b' : Backend Int,
    Lib.trace (Backend.step .plain fun _ _ => some 100) (init 0 none ∅) (pinged [[.array [.bytes (bs "PING")]]]) = some b ∧
    Lib.trace (Backend.step .plain fun _ _ => some 100) (init 0 none ∅) (pinged [[], [.array [.bytes (bs "PING")]]]) =
      some b' ∧ b.server = b'.server := by
  have hwhole : (feedAll 2 [] [bs "*1\r\n$4\r\nPING\r\n"]).1 = [[.array [.bytes (bs "PING")]]] := by decide +kernel
  have hparts : (feedAll 2 [] [bs "*1\r\n$4\r\nPI", bs "NG\r\n"]).1 = [[], [.array [.bytes (bs "PING")]]] := by decide +kernel
  have htrace : Lib.trace (Backend.step .plain fun _ _ => some 100) (init (F := Int) 0 none ∅)
      (pinged [[.array [.bytes (bs "PING")]]]) = some ponged :=
    trace.cons_eq_some.2 ⟨_, step_ping, rfl⟩
  have htrace' : Lib.trace (Backend.step .plain fun _ _ => some 100) (init (F := Int) 0 none ∅)
      (pinged [[], [.array [.bytes (bs "PING")]]]) = some ponged :=
    trace.cons_eq_some.2 ⟨_, step_nothing, htrace⟩
  have heach : trace.Each (Backend.step .plain fun _ _ => some 100) (fun b _ => b.Open) (init (F := Int) 0 none ∅)
      (pinged [[.array [.bytes (bs "PING")]]]) :=
    .cons open_init fun _ _ => .nil
  have heach' : trace.Each (Backend.step .plain fun _ _ => some 100) (fun b _ => b.Open) (init (F := Int) 0 none ∅)
      (pinged [[], [.array [.bytes (bs "PING")]]]) :=
    .cons open_init fun b hb => Option.some.inj (step_nothing.symm.trans hb) ▸ heach
  have hstream : (bs "*1\r\n$4\r\nPING\r\n").length ≤ MAX_BUFFER := by decide +kernel
  have hcs : [bs "*1\r\n$4\r\nPING\r\n"].flatten = bs "*1\r\n$4\r\nPING\r\n" := by decide +kernel
  have hcs' : [bs "*1\r\n$4\r\nPI", bs "NG\r\n"].flatten = bs "*1\r\n$4\r\nPING\r\n" := by decide +kernel
  have hbefore : Lib.trace (Backend.step .plain fun _ _ => some 100) (init (F := Int) 0 none ∅) [] = some (init 0 none ∅) := rfl
  refine ⟨ponged, ponged, htrace, htrace',
    (chunks_unnoticed .plain 0 (fun _ => ⟨0, 0⟩) 1 hstream hcs hcs' (by decide +kernel) hbefore ?_ ?_ htrace htrace'
    heach open_ponged heach' open_ponged).1⟩
  · rw [hwhole]
    exact .chunk (.done _)
  · rw [hparts]
    exact .chunk (.chunk (.done _))

end Backend

end Kagni.Asyncio
