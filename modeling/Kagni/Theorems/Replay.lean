import Kagni.Lemmas.Aside

/-!
# A transaction is its commands one by one

EXEC runs the queued commands with another sender, past the gate, and joins their frames. None of this shows when the queue
does not touch the subscriptions: the replies and the server are those of the commands sent one after the other, once the
transaction is closed.
-/

namespace Kagni

open Lib Lib.Prog

variable {F : Type}

/-- The message a request was parsed from. -/
def Request.message (q : Request) : Value := .array (.bytes q.command :: q.args)

/-- The requests are sent one after the other, by the session. -/
def oneByOne [PyFloat F] (i : SessionId) : List Request → D F (List (Option Bytes))
  | [] => pure []
  | q :: queue => do
    let frame ← dispatch q.message (some i)
    let frames ← oneByOne i queue
    return frame :: frames

/-- The request does not touch the subscriptions. -/
def Request.Unsubscribing (q : Request) : Prop := ∀ c, Cmd.ofName q.name = some c → c ∉ subscribeCommands

/-! ## The sender of a session nobody talks to -/

/-- A session between two commands that are replayed. -/
structure Session.Between (sender : Option Sink) (st : Session) : Prop where
  single : st.in_multi = false
  subscribed : st.subscribed = false
  sender : st.sender = sender
  collected : st.collected = []

/-- The session while its frames are collected. -/
def Session.collecting (st : Session) : Session := { st with sender := some .collector, collected := [] }

/-- The servers are the same, but on the first the frames of the session are collected; and nobody sends it any. -/
structure Aside (i : SessionId) (sender : Option Sink) (s s' : Server F) : Prop where
  same : s = s'.update i Session.collecting
  deaf : s'.Deaf i
  between : (s'.sessions i).Between sender

namespace Server

theorem update_update (s : Server F) (i : SessionId) (f g : Session → Session) :
    (s.update i f).update i g = s.update i (g ∘ f) := by
  unfold update
  simp

theorem update_comm (s : Server F) {i j : SessionId} (h : i ≠ j) (f g : Session → Session) :
    (s.update i f).update j g = (s.update j g).update i f := by
  unfold update
  simp [Function.update_comm h, Function.update_of_ne h, Function.update_of_ne h.symm]

/-- Frames for others. -/
theorem push_aside {i : SessionId} {frames : List (SessionId × Bytes)} (h : ∀ p ∈ frames, p.1 ≠ i) (s : Server F)
    (f : Session → Session) :
    (s.update i f).push frames = (s.push frames).update i f ∧ (s.push frames).sessions i = s.sessions i := by
  induction frames generalizing s with
  | nil => exact ⟨rfl, rfl⟩
  | cons p frames ih =>
    have hp : i ≠ p.1 := (h p (by simp)).symm
    obtain ⟨hpush, hsession⟩ := ih (fun p hp => h p (by simp [hp])) (s.update p.1 (·.deliver p.2))
    refine ⟨?_, ?_⟩
    · change ((s.update i f).update p.1 (·.deliver p.2)).push frames = _
      rw [update_comm s hp]
      exact hpush
    · refine hsession.trans ?_
      rw [update_sessions, if_neg hp]

end Server

namespace Aside

variable {i : SessionId} {sender : Option Sink} {s s' : Server F} {r : Env × Clock}

theorem absorb (h : Aside i sender s s') {k : KState F} (hk : Heard s'.hub k) : Aside i sender (s.absorb k) (s'.absorb k) := by
  have hframes : ∀ p ∈ k.pushed, p.1 ≠ i := by
    rintro p hp rfl
    obtain ⟨topic, name, hmem⟩ := hk p hp
    exact h.deaf topic name hmem
  obtain ⟨hpush, hsession⟩ :=
    Server.push_aside hframes { s' with data := { s'.data with toStore := k.store }, draws := k.draws } Session.collecting
  have hhub : (s'.absorb k).hub = s'.hub := Server.push_hub _ _
  refine ⟨?_, ?_, ?_⟩
  · rw [h.same]
    exact hpush
  · intro topic name
    rw [hhub]
    exact h.deaf topic name
  · change (({ s' with data := { s'.data with toStore := k.store }, draws := k.draws } : Server F).push k.pushed
      |>.sessions i).Between sender
    rw [hsession]
    exact h.between

theorem alike_liftK {m : K F α} (hm : ∀ ctx k, Heard ctx.hub k → Heard ctx.hub (m ctx k).2) :
    Alike r (Aside i sender) (liftK m) := by
  refine Kagni.alike_liftK ?_
  intro s s' h
  have hctx : s.ctx r.1 r.2 = s'.ctx r.1 r.2 := by
    rw [h.same]
    rfl
  have hstart : s.kstate = s'.kstate := by
    rw [h.same]
    rfl
  rw [hctx, hstart]
  exact ⟨rfl, h.absorb (hm (s'.ctx r.1 r.2) s'.kstate nofun)⟩

/-- A change of what a session watches. -/
theorem withWatched (h : Aside i sender s s') (f : Session → Dict Value (Nat × Bool))
    (hf : ∀ st : Session, f st.collecting = f st) :
    Aside i sender (s.update i fun st => { st with watched := f st }) (s'.update i fun st => { st with watched := f st }) := by
  refine ⟨?_, h.deaf, ?_⟩
  · rw [h.same, Server.update_update, Server.update_update]
    refine congrArg (s'.update i) (funext fun st => ?_)
    simp only [Function.comp_apply, hf]
    rfl
  · rw [Server.update_sessions_self]
    exact ⟨h.between.single, h.between.subscribed, h.between.sender, h.between.collected⟩

theorem tandem {c : Cmd} (hc : c ∉ subscribeCommands) : Tandem r (Aside (F := F) i sender) (some i) c where
  port s s' h := by
    rw [h.same]
    rfl
  watch _ j hj key s s' h := by
    obtain rfl := Option.some.inj hj
    have hwatched := h.withWatched (fun st => st.watched.set key (s'.data.generation key, s'.data.is_live key r.2.mono))
      fun _ => rfl
    rw [h.same] at hwatched ⊢
    exact hwatched
  unwatch _ j hj s s' h := by
    obtain rfl := Option.some.inj hj
    exact h.withWatched (fun _ => ∅) fun _ => rfl
  flags _ s s' h := by
    rw [h.same]
    exact ⟨rfl, fun _ => ⟨rfl, h.deaf, h.between⟩⟩
  flush _ s s' h := by
    rw [h.same]
    exact ⟨⟨rfl, h.deaf, h.between⟩, rfl, h.deaf, h.between⟩
  names hsub := absurd hsub hc
  publish _ channel message := alike_liftK fun ctx k hk => by
    have hend := heard_publish channel message k hk
    revert hend
    cases publish channel message ctx k with
    | mk out k' =>
      cases out with
      | ok _ => exact And.left
      | error _ => exact id
  hub _ s s' h := by
    rw [h.same]
    rfl

/-- The sender is put back. -/
theorem back (h : Aside i sender s s') :
    (s.update i fun st => { st with sender := sender, collected := [] }) = s' ∧ (s.sessions i).collected = [] := by
  rw [h.same, Server.update_update, Server.update_sessions_self]
  refine ⟨?_, rfl⟩
  have hst : ((fun st : Session => { st with sender := sender, collected := [] }) ∘ Session.collecting) (s'.sessions i) =
      s'.sessions i := by
    rw [← h.between.sender]
    simp only [Function.comp_apply, Session.collecting, ← h.between.collected]
  unfold Server.update
  rw [hst, Function.update_eq_self]

variable [PyFloat F] {q : Request}

/-- Past the gate or not, a request that may be queued does the same. -/
theorem direct (h : Aside i sender s s') (hq : q.Queueable) (hsub : q.Unsubscribing) :
    (_dispatch_direct q (some i) true r s).1 = (_dispatch_direct q (some i) false r s').1 ∧
      Aside i sender (_dispatch_direct q (some i) true r s).2 (_dispatch_direct q (some i) false r s').2 := by
  have hsubscribed : s.subscribed (some i) = false := by
    rw [h.same]
    change ((s'.update i Session.collecting).sessions i).subscribed = false
    rw [Server.update_sessions_self]
    exact h.between.subscribed
  have hsubscribed' : s'.subscribed (some i) = false := h.between.subscribed
  have hroute : directRoute q (some i) false true = directRoute q (some i) false false := by
    unfold directRoute
    simp
  rw [_dispatch_direct_eq, _dispatch_direct_eq, hsubscribed, hsubscribed', hroute]
  cases hcase : directRoute q (some i) false false with
  | answer frame =>
    cases frame
    all_goals exact ⟨rfl, h⟩
  | multi j =>
    have hname := hq.1
    rw [(multi_of_directRoute hcase).1] at hname
    exact absurd hname (by decide)
  | run c =>
    refine (tandem (hsub c (run_of_directRoute hcase).1)).runHandler (fun method hm => ?_) s s' h
    exact alike_liftK fun ctx k hk => heard_command hm k hk

end Aside

section Replay

variable [PyFloat F] {i : SessionId} {sender : Option Sink} {s : Server F} {r : Env × Clock} {q : Request} {queue : List Request}

/-- A replayed command is a command that is sent, and nothing is collected meanwhile. -/
theorem replayOne_between (hq : q.Queueable) (hsub : q.Unsubscribing) (hdeaf : s.Deaf i) (hs : (s.sessions i).Between sender) :
    replayOne i q r s = (dispatch q.message (some i) >>= fun frame => pure (frame, [])) r s ∧
      (dispatch q.message (some i) r s).2.Deaf i ∧ ((dispatch q.message (some i) r s).2.sessions i).Between sender := by
  have hstart : Aside i sender (s.update i fun st => { st with sender := some .collector, collected := [] }) s := ⟨rfl, hdeaf, hs⟩
  obtain ⟨hout, hend⟩ := hstart.direct (r := r) hq hsub
  have hdirect : dispatch q.message (some i) r s = _dispatch_direct q (some i) false r s := dispatch_direct r hs.single
  rw [bind_run, hdirect, replayOne_run]
  refine ⟨?_, hend.deaf, hend.between⟩
  dsimp only
  obtain ⟨hback, hcollected⟩ := hend.back
  rw [hout, hs.sender, hback, hcollected]
  cases _dispatch_direct q (some i) false r s with
  | mk out t => cases out <;> rfl

/-- Nor is anything collected for the whole queue. -/
theorem replay_between (hqueue : ∀ q ∈ queue, q.Queueable ∧ q.Unsubscribing) (hdeaf : s.Deaf i)
    (hs : (s.sessions i).Between sender) :
    replay i queue r s = (oneByOne i queue >>= fun frames => pure (frames, [])) r s := by
  induction queue generalizing s with
  | nil => rfl
  | cons q queue ih =>
    obtain ⟨hq, hsub⟩ := hqueue q (by simp)
    obtain ⟨hone, hdeaf', hs'⟩ := replayOne_between (r := r) hq hsub hdeaf hs
    have hrest := ih (fun q hq => hqueue q (by simp [hq])) hdeaf' hs'
    have hunfold : oneByOne (F := F) i (q :: queue) = dispatch q.message (some i) >>= fun frame =>
      oneByOne i queue >>= fun frames => pure (frame :: frames) := rfl
    rw [hunfold]
    unfold replay
    cases hdispatch : dispatch q.message (some i) r s with
    | mk out t =>
      rw [hdispatch] at hrest
      cases out with
      | error e =>
        have hstop := hone.trans (bind_error r s hdispatch)
        rw [bind_error r s hstop, bind_error r s (bind_error r s hdispatch)]
      | ok frame =>
        have hgo := hone.trans (bind_ok r s hdispatch)
        rw [bind_ok r s hgo]
        change (replay i queue >>= _) r t = _
        cases hframes : oneByOne i queue r t with
        | mk out' t' =>
          cases out' with
          | error e =>
            rw [bind_error r t (hrest.trans (bind_error r t hframes)),
              bind_error r s ((bind_ok r s hdispatch).trans (bind_error r t hframes))]
          | ok frames =>
            rw [bind_ok r t (hrest.trans (bind_ok r t hframes)),
              bind_ok r s ((bind_ok r s hdispatch).trans (bind_ok r t hframes))]

/-- EXEC of a transaction whose watched keys are unchanged, with a queue that does not touch the subscriptions, in any
reachable state: the transaction is closed, the queued commands are dispatched one after the other, and the reply is the array
of their replies. -/
theorem exec_one_by_one {env : Env} (h : s.Reachable env) (i : SessionId) (clock : Clock) (hqueue : (s.sessions i).queue ≠ [])
    (hclean : (s.sessions i).dirty s.data.toStore clock.mono = false) (hsub : ∀ q ∈ (s.sessions i).queue, q.Unsubscribing) :
    dispatch (.array [.bytes (bs "EXEC")]) (some i) (env, clock) s =
      (do
        let _ ← dispatch (.array [.bytes (bs "DISCARD")]) (some i)
        let frames ← oneByOne i (s.sessions i).queue
        let body ← orEscape (joinParts frames)
        return some (42 :: decimalNat (s.sessions i).queue.length ++ SYM_CRLF ++ body)) (env, clock) s := by
  have hformed := reachable_wellFormed h i
  have hmulti := hformed.in_multi_of_queue hqueue
  have hsubscribed : (s.sessions i).subscribed = false := by
    cases hcase : (s.sessions i).subscribed with
    | true => exact absurd ⟨hmulti, hcase⟩ hformed.exclusive
    | false => rfl
  have hdeaf : (s.close i).Deaf i := Server.reachable_deaf h hsubscribed
  have hbetween : ((s.close i).sessions i).Between (s.sessions i).sender := by
    unfold Server.close
    rw [Server.update_sessions_self]
    exact ⟨rfl, hsubscribed, rfl, (reachable_tidy h i nofun).2⟩
  have hreplay := replay_between (r := (env, clock)) (fun q hq => ⟨hformed.queueable q hq, hsub q hq⟩) hdeaf hbetween
  have hdiscard : dispatch (.array [.bytes (bs "DISCARD")]) (some i) (env, clock) s = (.ok (protocolBuilder .OK), s.close i) := by
    rw [dispatch_queued _ hmulti, _dispatch_queued_eq]
    rfl
  rw [bind_ok _ _ hdiscard, dispatch_queued _ hmulti, _dispatch_queued_eq]
  change exec i (env, clock) s = _
  rw [exec_run, if_neg (by rw [hclean]; decide), if_neg hqueue]
  change (replay i (s.sessions i).queue >>= _) (env, clock) (s.close i) = _
  rw [bind_run, hreplay, bind_run, bind_run]
  cases oneByOne i (s.sessions i).queue (env, clock) (s.close i) with
  | mk out t =>
    cases out with
    | error e => rfl
    | ok frames =>
      dsimp only [pure_run]
      simp only [List.flatten_nil, List.append_nil]

end Replay

/-- A client that has queued a SET and a GET. -/
def queuedPair : Server Int :=
  Server.run .plain (.init 0 none ∅ fun _ => true)
    [.send ⟨0, 0⟩ 0 [bs "MULTI"], .send ⟨1, 1⟩ 0 [bs "SET", bs "a", bs "x"], .send ⟨2, 2⟩ 0 [bs "GET", bs "a"]]

/-- Its EXEC. -/
theorem exec_one_by_one_pair :
    dispatch (.array [.bytes (bs "EXEC")]) (some 0) (.plain, ⟨3, 3⟩) queuedPair =
      (do
        let _ ← dispatch (.array [.bytes (bs "DISCARD")]) (some 0)
        let frames ← oneByOne 0 (queuedPair.sessions 0).queue
        let body ← orEscape (joinParts frames)
        return some (42 :: decimalNat (queuedPair.sessions 0).queue.length ++ SYM_CRLF ++ body)) (.plain, ⟨3, 3⟩) queuedPair := by
  have hqueue : (queuedPair.sessions 0).queue =
    [⟨bs "SET", [.bytes (bs "a"), .bytes (bs "x")]⟩, ⟨bs "GET", [.bytes (bs "a")]⟩] := by decide
  have hreach : queuedPair.Reachable .plain := ⟨0, none, ∅, fun _ => true, _, rfl⟩
  refine exec_one_by_one hreach 0 ⟨3, 3⟩ (by decide) (by decide) fun q hq c hc => ?_
  rw [hqueue] at hq
  simp only [List.mem_cons, List.not_mem_nil, or_false] at hq
  rcases hq with rfl | rfl
  · obtain rfl : Cmd.SET = c := Option.some.inj (Eq.trans (by decide) hc)
    decide
  · obtain rfl : Cmd.GET = c := Option.some.inj (Eq.trans (by decide) hc)
    decide

end Kagni
