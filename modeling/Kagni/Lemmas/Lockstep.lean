import Kagni.Lemmas.Runs
import Kagni.Lib.Alike

/-!
# The dispatcher runs alike

What the dispatcher does with a request depends on the calling session, on the keys it watches and on what the methods do. So
from two servers on which these are the same it runs alike, at once, in a queue and through the replay of EXEC.
-/

namespace Kagni

open Lib Lib.Prog

variable {F : Type}

/-- The dispatcher keeps the subscriptions of a session, drops what it watches or keeps it, and queues requests that satisfy
`Q`. -/
structure Session.Retouched (Q : Request → Prop) (st st' : Session) : Prop where
  names : st'.names = st.names
  watched : st'.watched = st.watched ∨ st'.watched = ∅
  queue : ∀ q ∈ st'.queue, q ∈ st.queue ∨ Q q

variable [PyFloat F]

/-- Related servers have the same session of the caller, whose queued requests satisfy `Q`; the dispatcher's changes of it
keep them related; they agree on whether a watched key was changed; and on them the methods run alike. -/
structure Abreast (r : Env × Clock) (Q : Request → Prop) (R : Server F → Server F → Prop) (state : Option SessionId) : Prop where
  session : ∀ {s s' i}, state = some i → R s s' → s.sessions i = s'.sessions i
  queued : ∀ {s s' i}, state = some i → R s s' → ∀ q ∈ (s.sessions i).queue, Q q
  update : ∀ {s s' i} {f : Session → Session}, state = some i → (∀ st : Session, st.Retouched Q (f st)) → R s s' →
    R (s.update i f) (s'.update i f)
  dirty : ∀ {s s' i}, state = some i → R s s' →
    (s.sessions i).dirty s.data.toStore r.2.mono = (s.sessions i).dirty s'.data.toStore r.2.mono
  run : ∀ {q c}, Q q → Cmd.ofName q.name = some c → Alike r R (runHandler (handler c) state q.args)

namespace Abreast

variable {r : Env × Clock} {Q : Request → Prop} {R : Server F → Server F → Prop} {state : Option SessionId}
  {i : SessionId} {q : Request}

omit [PyFloat F] in
theorem alike_answer (frame : Option Bytes) : Alike r R (answer frame : D F _) := by
  cases frame with
  | none => exact .raise
  | some frame => exact .pure

omit [PyFloat F] in
theorem alike_orEscape {α : Type} (a : Option α) : Alike r R (orEscape a : D F α) := by
  cases a with
  | none => exact .raise
  | some a => exact .pure

theorem subscribed (h : Abreast r Q R state) {s s' : Server F} (hs : R s s') : s.subscribed state = s'.subscribed state := by
  cases state with
  | none => rfl
  | some i => exact congrArg Session.subscribed (h.session rfl hs)

theorem direct (h : Abreast r Q R state) (hq : Q q) (bypass_gate : Bool) : Alike r R (_dispatch_direct q state bypass_gate) := by
  intro s s' hs
  rw [_dispatch_direct_eq, _dispatch_direct_eq, ← h.subscribed hs]
  cases hroute : directRoute q state (s.subscribed state) bypass_gate with
  | answer frame => exact alike_answer frame s s' hs
  | multi i =>
    obtain ⟨-, rfl⟩ := multi_of_directRoute hroute
    have hopen : Alike r R (openMulti i : D F _) :=
      .bind (.modify fun _ _ => h.update rfl fun st => ⟨rfl, .inl rfl, fun _ hq => absurd hq List.not_mem_nil⟩) fun _ => .pure
    exact hopen s s' hs
  | run c => exact h.run hq (run_of_directRoute hroute).1 s s' hs

theorem replayOne (h : Abreast r Q R (some i)) (hq : Q q) : Alike r R (replayOne i q) := by
  have hsender : ∀ sender,
      Alike r R (Prog.modify fun s : Server F => s.update i fun st => { st with sender := sender, collected := [] } :
      D F Unit) :=
    fun _ => .modify fun _ _ => h.update rfl fun _ => ⟨rfl, .inl rfl, fun _ => .inl⟩
  refine .get_bind (fun s s' hs => ?_) fun s => .bind (hsender _) fun _ => .bind (h.direct hq true).attempt fun out =>
    .get_bind (fun t t' ht => ?_) fun t => .bind (hsender _) fun _ => ?_
  · dsimp only
    rw [h.session rfl hs]
  · dsimp only
    rw [h.session rfl ht]
  · split
    · exact .pure
    · exact .raise

theorem replay (h : Abreast r Q R (some i)) {queue : List Request} (hqueue : ∀ q ∈ queue, Q q) : Alike r R (replay i queue) := by
  induction queue with
  | nil => exact .pure
  | cons q queue ih =>
    refine .bind (h.replayOne (hqueue q (by simp))) fun p => .bind (ih fun q hq => hqueue q (by simp [hq])) fun rest => ?_
    dsimp only
    split
    · exact .pure
    · exact .pure

theorem close (h : Abreast r Q R (some i)) {s s' : Server F} (hs : R s s') : R (s.close i) (s'.close i) :=
  h.update rfl (fun _ => ⟨rfl, .inr rfl, fun _ hq => absurd hq List.not_mem_nil⟩) hs

/-- EXEC compares the same watched keys, and replays the same queue. -/
theorem exec (h : Abreast r Q R (some i)) : Alike r R (exec i) := by
  intro s s' hs
  rw [exec_run, exec_run, ← h.session rfl hs, ← h.dirty rfl hs]
  dsimp only
  split
  · exact ⟨rfl, h.close hs⟩
  · split
    · exact ⟨rfl, h.close hs⟩
    · have hreplay := (h.replay (h.queued rfl hs)).bind fun rest => (alike_orEscape (joinParts rest.1)).bind fun body =>
        .pure (a := some (42 :: decimalNat (s.sessions i).queue.length ++ SYM_CRLF ++ body ++ rest.2.flatten))
      exact hreplay _ _ (h.close hs)

theorem queuedRequest (h : Abreast r Q R (some i)) (hq : Q q) : Alike r R (_dispatch_queued i q) := by
  rw [_dispatch_queued_eq]
  cases queuedRoute q with
  | exec => exact h.exec
  | discard => exact .bind (.modify fun _ _ => h.close) fun _ => .pure
  | answer frame => exact alike_answer frame
  | enqueue =>
    refine .bind (.modify fun _ _ => h.update rfl fun st => ⟨rfl, .inl rfl, fun q' hq' => ?_⟩) fun _ => .pure
    rcases List.mem_append.1 hq' with hq' | hq'
    · exact .inl hq'
    · exact .inr (List.mem_singleton.1 hq' ▸ hq)

/-- The dispatcher runs alike. -/
theorem dispatch (h : Abreast r Q R state) {message : Value} (hm : message.Requests Q) : Alike r R (dispatch message state) := by
  unfold Kagni.dispatch
  split
  · rename_i command args
    cases state with
    | none => exact h.direct hm false
    | some i =>
      refine .get_bind (fun s s' hs => ?_) fun s => .ite (fun _ => h.queuedRequest hm) fun _ => h.direct hm false
      rw [h.session rfl hs]
  · exact .pure
  · exact .pure

/-- What keeps an invariant runs alike on equal servers. -/
theorem of_invariant {I : Server F → Prop} (hqueued : ∀ {s i}, state = some i → I s → ∀ q ∈ (s.sessions i).queue, Q q)
    (hupdate : ∀ {s i} {f : Session → Session}, state = some i → (∀ st : Session, st.Retouched Q (f st)) → I s → I (s.update i f))
    (hrun : ∀ {q c}, Q q → Cmd.ofName q.name = some c → ∀ s, I s → I (runHandler (handler c) state q.args r s).2) :
    Abreast r Q (fun s s' => s = s' ∧ I s) state where
  session _ h := by rw [h.1]
  queued hi h := hqueued hi h.2
  update hi hf h := ⟨by rw [h.1], hupdate hi hf h.2⟩
  dirty _ h := by rw [h.1]
  run hq hc := .of_respects (hrun hq hc)

end Abreast

end Kagni
