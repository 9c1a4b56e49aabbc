import Kagni.Lemmas.Sessions

/-!
# The states of a session

A session is idle, in a transaction, or subscribed. MULTI is stopped at the gate of a subscribed session and the subscribe
family is queued inside a transaction, so the last two never meet; the queue holds nothing that would open or close a
transaction, so EXEC can replay it and end where it started.
-/

namespace Kagni

open Lib Lib.Prog

variable {F : Type}

/-- A request that may be queued: it names a command other than WATCH, with a number of arguments the command accepts. The three
words of a transaction name no command. -/
def Request.Queueable (q : Request) : Prop :=
  q.name ∉ [bs "EXEC", bs "DISCARD", bs "MULTI", bs "WATCH"] ∧
    ∃ command, Cmd.ofName q.name = some command ∧ command.Accepts q.args.length

/-- What holds of a session between two requests. -/
structure Session.WellFormed (st : Session) : Prop where
  exclusive : ¬(st.in_multi = true ∧ st.subscribed = true)
  in_multi_of_queue : st.queue ≠ [] → st.in_multi = true
  queueable : ∀ q ∈ st.queue, q.Queueable

/-! ## Well-formed sessions -/

theorem wellFormed_new (sender : Option Sink) : (Session.new sender).WellFormed where
  exclusive := by simp [Session.new]
  in_multi_of_queue := by simp [Session.new]
  queueable := by simp [Session.new]

theorem subscribed_eq {st st' : Session} (h : st'.names = st.names) : st'.subscribed = st.subscribed := by
  have hc : st'.channels = st.channels := congrFun h .channels
  have hp : st'.patterns = st.patterns := congrFun h .patterns
  unfold Session.subscribed
  rw [hc, hp]

/-- A session that keeps its mode and its queue, and in a transaction its subscriptions too, stays well formed. -/
theorem Session.WellFormed.keep {st st' : Session} (h : st.WellFormed) (hm : st'.in_multi = st.in_multi)
    (hq : st'.queue = st.queue) (hn : st.in_multi = true → st'.names = st.names) : st'.WellFormed where
  exclusive := by
    rintro ⟨hmulti, hsub⟩
    rw [hm] at hmulti
    rw [subscribed_eq (hn hmulti)] at hsub
    exact h.exclusive ⟨hmulti, hsub⟩
  in_multi_of_queue := by
    rw [hq, hm]
    exact h.in_multi_of_queue
  queueable := by
    rw [hq]
    exact h.queueable

/-- A session with nothing queued and no transaction open is well formed. -/
theorem Session.WellFormed.of_idle {st : Session} (hm : st.in_multi = false) (hq : st.queue = []) : st.WellFormed where
  exclusive := by simp [hm]
  in_multi_of_queue := by simp [hq]
  queueable := by simp [hq]

/-- A change of one session that leaves it well formed. -/
theorem wellFormed_update {s : Server F} (h : ∀ j, (s.sessions j).WellFormed) (i : SessionId) {f : Session → Session}
    (hf : (f (s.sessions i)).WellFormed) (j : SessionId) : ((s.update i f).sessions j).WellFormed := by
  rw [Server.update_sessions]
  split
  · exact hf
  · exact h j

theorem enqueue_wellFormed {s : Server F} (h : ∀ j, (s.sessions j).WellFormed) {q : Request} (hq : queuedRoute q = .enqueue)
    {i : SessionId} (hm : (s.sessions i).in_multi = true) (j : SessionId) :
    ((s.update i fun st => { st with queue := st.queue ++ [q] }).sessions j).WellFormed := by
  refine wellFormed_update h i (f := fun st => { st with queue := st.queue ++ [q] }) ⟨(h i).exclusive, fun _ => hm, ?_⟩ j
  intro q' hq'
  rcases List.mem_append.1 hq' with hq' | hq'
  · exact (h i).queueable q' hq'
  · rw [List.mem_singleton.1 hq']
    unfold queuedRoute at hq
    unfold Request.Queueable
    grind

section Methods

variable [PyFloat F]

/-- MULTI is stopped at the gate of a subscribed session. -/
theorem not_subscribed_of_multi {q : Request} {state : Option SessionId} {subscribed : Bool} {i : SessionId}
    (h : directRoute q state subscribed false = .multi i) : subscribed = false := by
  have hname := (multi_of_directRoute h).1
  cases subscribed with
  | false => rfl
  | true =>
    unfold directRoute at h
    rw [if_pos ⟨rfl, rfl, .inl hname⟩] at h
    cases h

/-! ## EXEC -/

/-- A queued request opens no transaction and watches nothing. -/
theorem Request.Queueable.direct {q : Request} (hq : q.Queueable) (i : SessionId) (r : Env × Clock) (s : Server F) :
    let t := (_dispatch_direct q (some i) true r s).2
    SameMode s t ∧ SameNames (some i) s t ∧ StaysUnwatched i s t := by
  obtain ⟨hname, c, hc, -⟩ := hq
  simp only [List.mem_cons, List.not_mem_nil, or_false, not_or] at hname
  obtain ⟨-, -, hmulti, hwatch⟩ := hname
  obtain ⟨hmode, hnames⟩ := direct_sameMode (some i) true r s fun j hj => hmulti (multi_of_directRoute hj).1
  refine ⟨hmode, hnames, ?_⟩
  rw [_dispatch_direct_eq]
  cases hroute : directRoute q (some i) (s.subscribed (some i)) true with
  | answer frame => cases frame <;> exact id
  | multi j => exact absurd (multi_of_directRoute hroute).1 hmulti
  | run c' =>
    refine staysUnwatched_runHandler (fun e => ?_) i q.args r s
    subst e
    exact hwatch (name_of_ofName (run_of_directRoute hroute).1)

/-- What the replay of a queued request leaves of the sessions. -/
theorem Request.Queueable.replayOne {q : Request} (hq : q.Queueable) (i : SessionId) (r : Env × Clock) (s : Server F) :
    let t := (replayOne i q r s).2
    SameMode s t ∧ SameNames (some i) s t ∧ StaysUnwatched i s t := by
  have hstate : (Kagni.replayOne i q r s).2 =
      ((_dispatch_direct q (some i) true r
        (s.update i fun st => { st with sender := some .collector, collected := [] })).2.update i
        fun st => { st with sender := (s.sessions i).sender, collected := [] }) := by
    rw [replayOne_run]
    dsimp only
    split <;> rfl
  obtain ⟨hmode, hnames, hwatched⟩ :=
    hq.direct i r (s.update i fun st => { st with sender := some .collector, collected := [] })
  rw [hstate]
  refine ⟨fun j => ?_, fun j hj => ?_, fun h => ?_⟩
  · have hj := hmode j
    rw [Server.update_sessions] at hj
    rw [Server.update_sessions]
    by_cases hij : j = i
    · -- the sender is put back
      subst hij
      rw [if_pos rfl] at hj ⊢
      exact ⟨hj.1, hj.2.1, rfl⟩
    · rw [if_neg hij] at hj ⊢
      exact hj
  · have hij : j ≠ i := fun h => hj (congrArg some h.symm)
    have := hnames j hj
    rw [Server.update_sessions, if_neg hij] at this
    rw [Server.update_sessions, if_neg hij, this]
  · rw [Server.update_sessions_self]
    exact hwatched (by rw [Server.update_sessions_self]; exact h)

/-- What the replay of a queue leaves of the sessions. -/
theorem replay_sameMode {queue : List Request} (hq : ∀ q ∈ queue, q.Queueable) (i : SessionId) (r : Env × Clock) (s : Server F) :
    let t := (replay i queue r s).2
    SameMode s t ∧ SameNames (some i) s t ∧ StaysUnwatched i s t := by
  have hmode := (quiet_sameMode (F := F)).toIsPreorder
  have hnames := (quiet_sameNames (F := F) (some i)).toIsPreorder
  have hwatched := (quiet_staysUnwatched (F := F) i).toIsPreorder
  refine ⟨?_, ?_, ?_⟩
  · exact respects_replay (fun q h r s => ((hq q h).replayOne i r s).1) r s
  · exact respects_replay (fun q h r s => ((hq q h).replayOne i r s).2.1) r s
  · exact respects_replay (fun q h r s => ((hq q h).replayOne i r s).2.2) r s

/-- EXEC closes the transaction and, whatever it replays, leaves it closed. -/
theorem exec_sessions (i : SessionId) (r : Env × Clock) (s : Server F) (hq : ∀ q ∈ (s.sessions i).queue, q.Queueable) :
    let t := (exec i r s).2
    SameMode (s.close i) t ∧ SameNames (some i) (s.close i) t ∧ (t.sessions i).watched = ∅ := by
  have hclosed : ((s.close i).sessions i).watched = ∅ := by
    unfold Server.close
    rw [Server.update_sessions_self]
  obtain h | h := exec_state i r s
  · rw [h]
    exact ⟨quiet_sameMode.toIsPreorder.refl _, (quiet_sameNames _).toIsPreorder.refl _, hclosed⟩
  · rw [h]
    obtain ⟨hmode, hnames, hwatched⟩ := replay_sameMode hq i r (s.close i)
    exact ⟨hmode, hnames, hwatched hclosed⟩

/-! ## The invariant -/

theorem direct_wellFormed {s : Server F} (h : ∀ j, (s.sessions j).WellFormed) (q : Request) {state : Option SessionId}
    (hm : s.inMulti state = false) (r : Env × Clock) (j : SessionId) :
    ((_dispatch_direct q state false r s).2.sessions j).WellFormed := by
  by_cases hroute : ∃ i, directRoute q state (s.subscribed state) false = .multi i
  · obtain ⟨i, hroute⟩ := hroute
    obtain ⟨-, rfl⟩ := multi_of_directRoute hroute
    have hsub := not_subscribed_of_multi hroute
    rw [_dispatch_direct_eq, hroute]
    refine wellFormed_update h i (f := fun st => { st with in_multi := true, queue := [] }) ⟨?_, ?_, ?_⟩ j
    · rintro ⟨-, hs⟩
      exact absurd (hs.symm.trans hsub) (by decide)
    · exact fun _ => rfl
    · exact fun q hq => absurd hq List.not_mem_nil
  · obtain ⟨hmode, hnames⟩ := direct_sameMode state false r s (not_exists.1 hroute)
    refine (h j).keep (hmode j).1 (hmode j).2.1 fun hj => hnames j ?_
    -- the calling session is in no transaction
    rintro rfl
    exact absurd (hj.symm.trans hm) (by decide)

theorem queued_wellFormed {s : Server F} (h : ∀ j, (s.sessions j).WellFormed) (q : Request) {i : SessionId}
    (hm : (s.sessions i).in_multi = true) (r : Env × Clock) (j : SessionId) :
    ((_dispatch_queued i q r s).2.sessions j).WellFormed := by
  have hclose : ((s.close i).sessions j).WellFormed := wellFormed_update h i (.of_idle rfl rfl) j
  rw [_dispatch_queued_eq]
  cases hroute : queuedRoute q with
  | exec =>
    obtain ⟨hmode, hnames, -⟩ := exec_sessions i r s (h i).queueable
    refine hclose.keep (hmode j).1 (hmode j).2.1 fun hj => hnames j ?_
    rintro ⟨⟩
    unfold Server.close at hj
    rw [Server.update_sessions_self] at hj
    cases hj
  | discard => exact hclose
  | answer frame =>
    cases frame
    all_goals exact h j
  | enqueue => exact enqueue_wellFormed h hroute hm j

/-- Every input leaves every session well formed. -/
theorem step_wellFormed (env : Env) (s : Server F) (input : Input) (h : ∀ j, (s.sessions j).WellFormed) (j : SessionId) :
    ((s.step env input).sessions j).WellFormed := by
  cases input with
  | lost i => exact wellFormed_update h i (f := fun st => { st with sender := none }) ((h i).keep rfl rfl fun _ => rfl) j
  | request clock state message =>
    change ((dispatch message state (env, clock) s).2.sessions j).WellFormed
    obtain ⟨frame, hd⟩ | ⟨command, args, -, ⟨hm, hd⟩ | ⟨i, rfl, hm, hd⟩⟩ := dispatch_cases message state (env, clock) s
    · rw [hd]
      exact h j
    · rw [hd]
      exact direct_wellFormed h _ hm _ j
    · rw [hd]
      exact queued_wellFormed h _ hm _ j

theorem reachable_wellFormed {env : Env} {s : Server F} (h : s.Reachable env) (j : SessionId) : (s.sessions j).WellFormed :=
  h.induct (P := fun s => ∀ j, (s.sessions j).WellFormed) (fun _ _ _ _ _ => wellFormed_new _) (step_wellFormed env) j

/-! ## The state machine -/

/-- EXEC or DISCARD ends the transaction. -/
theorem end_of_transaction {s : Server F} {i : SessionId} (hq : ∀ q ∈ (s.sessions i).queue, q.Queueable) {q : Request}
    (hname : q.name = bs "EXEC" ∨ q.name = bs "DISCARD") (r : Env × Clock) :
    let st := (_dispatch_queued i q r s).2.sessions i
    st.in_multi = false ∧ st.queue = [] ∧ st.watched = ∅ ∧ st.sender = (s.sessions i).sender := by
  have hclose : (s.close i).sessions i = { s.sessions i with queue := [], in_multi := false, watched := ∅ } :=
    Server.update_sessions_self ..
  rw [_dispatch_queued_eq]
  obtain hname | hname := hname
  · have hroute : queuedRoute q = .exec := by
      unfold queuedRoute
      rw [if_pos hname]
    obtain ⟨hmode, -, hwatched⟩ := exec_sessions i r s hq
    obtain ⟨hm, hqueue, hsender⟩ := hmode i
    rw [hclose] at hm hqueue hsender
    rw [hroute]
    exact ⟨hm, hqueue, hwatched, hsender⟩
  · have hroute : queuedRoute q = .discard := by
      unfold queuedRoute
      dsimp only
      rw [hname, if_neg (by decide), if_pos rfl]
    rw [hroute]
    have hdiscard : (discard i r s).2.sessions i = (s.close i).sessions i := rfl
    dsimp only
    rw [hdiscard, hclose]
    exact ⟨rfl, rfl, rfl, rfl⟩

/-- A subscribed session's request outside of the subscribe family and PING is answered at the gate, or before it. -/
theorem gated {s : Server F} {i : SessionId} (hsub : (s.sessions i).subscribed = true) {q : Request}
    (hname : ∀ c ∈ _ALLOWED_WHILE_SUBSCRIBED, q.name ≠ c.name) (r : Env × Clock) :
    (_dispatch_direct q (some i) false r s).2 = s := by
  have hs : s.subscribed (some i) = true := hsub
  rw [_dispatch_direct_eq, hs]
  cases hroute : directRoute q (some i) true false with
  | answer frame => cases frame <;> rfl
  | multi j => cases not_subscribed_of_multi hroute
  | run c =>
    have hc := (run_of_directRoute hroute).1
    have hgate : c ∉ _ALLOWED_WHILE_SUBSCRIBED := fun h => hname c h (name_of_ofName hc)
    unfold directRoute at hroute
    grind

/-- The session state machine: in every reachable state every session is well formed, EXEC and DISCARD end a transaction and
put the sender back, and a subscribed session changes nothing but by the subscribe family and PING. -/
theorem session_state_machine {env : Env} {s : Server F} (h : s.Reachable env) (i : SessionId) :
    let st := s.sessions i
    ¬(st.in_multi = true ∧ st.subscribed = true) ∧ (st.queue ≠ [] → st.in_multi = true) ∧ (∀ q ∈ st.queue, q.Queueable) ∧
    (∀ clock command args, st.in_multi = true →
      (Request.name ⟨command, args⟩ = bs "EXEC" ∨ Request.name ⟨command, args⟩ = bs "DISCARD") →
      let st' := (s.step env (.request clock (some i) (.array (.bytes command :: args)))).sessions i
      st'.in_multi = false ∧ st'.queue = [] ∧ st'.watched = ∅ ∧ st'.sender = st.sender) ∧
    ∀ clock message, st.subscribed = true →
      (∀ command args, message = .array (.bytes command :: args) →
        ∀ c ∈ _ALLOWED_WHILE_SUBSCRIBED, Request.name ⟨command, args⟩ ≠ c.name) →
      s.step env (.request clock (some i) message) = s := by
  have hst := reachable_wellFormed h i
  refine ⟨hst.exclusive, hst.in_multi_of_queue, hst.queueable, ?_, ?_⟩
  · intro clock command args hm hname
    have hstep : s.step env (.request clock (some i) (.array (.bytes command :: args))) =
        (_dispatch_queued i ⟨command, args⟩ (env, clock) s).2 := by
      rw [← dispatch_queued (env, clock) hm]
      rfl
    rw [hstep]
    exact end_of_transaction hst.queueable hname (env, clock)
  · intro clock message hsub hname
    change (dispatch message (some i) (env, clock) s).2 = s
    obtain ⟨frame, hd⟩ | ⟨command, args, hmessage, ⟨-, hd⟩ | ⟨j, hj, hm, -⟩⟩ := dispatch_cases message (some i) (env, clock) s
    · rw [hd]
    · rw [hd]
      exact gated hsub (hname command args hmessage) (env, clock)
    · cases hj
      exact absurd ⟨hm, hsub⟩ hst.exclusive

end Methods

/-- A transaction that is opened and discarded leaves the session idle. -/
theorem session_state_machine_discard :
    let s := Server.run .plain (Server.init (F := Int) 0 none ∅ fun _ => true) [.send ⟨0, 0⟩ 0 [bs "MULTI"]]
    (s.sessions 0).in_multi = true ∧ ((s.step .plain (.send ⟨1, 1⟩ 0 [bs "discard"])).sessions 0).in_multi = false := by
  have hmulti : ((Server.run .plain (Server.init (F := Int) 0 none ∅ fun _ => true) [.send ⟨0, 0⟩ 0 [bs "MULTI"]]).sessions
      0).in_multi = true := by decide
  have hreach : (Server.run .plain (Server.init (F := Int) 0 none ∅ fun _ => true) [.send ⟨0, 0⟩ 0 [bs "MULTI"]]).Reachable
      .plain :=
    ⟨0, none, ∅, fun _ => true, [.send ⟨0, 0⟩ 0 [bs "MULTI"]], rfl⟩
  have h := session_state_machine hreach 0
  exact ⟨hmulti, (h.2.2.2.1 ⟨1, 1⟩ (bs "discard") [] hmulti (.inr (by decide))).1⟩

end Kagni
