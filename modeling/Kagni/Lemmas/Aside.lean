import Kagni.Lemmas.Hub
import Kagni.Lemmas.Lockstep
import Kagni.Lemmas.Steady
import Kagni.Theorems.Sessions

/-!
# A session nobody talks to

What the hub lists for a session the session holds itself. So a session without subscriptions gets no frame from a command,
and it makes no difference to the command what the sender of that session is.
-/

namespace Kagni

open Lib Lib.Prog

variable {F : Type}

/-! ## What the hub lists -/

/-- Whoever the hub lists under a name holds the name. -/
def Server.Listed (s : Server F) : Prop := ∀ i topic name, i ∈ s.hub.subscribers topic name → name ∈ (s.sessions i).names topic

/-- The hub does not list the session. -/
def Server.Deaf (s : Server F) (i : SessionId) : Prop := ∀ topic name, i ∉ s.hub.subscribers topic name

namespace Server

theorem Listed.update {s : Server F} (h : s.Listed) (i : SessionId) {f : Session → Session} (hf : ∀ st, (f st).names = st.names) :
    (s.update i f).Listed := by
  intro j topic name hj
  rw [update_sessions]
  split
  · rename_i hji
    subst hji
    rw [hf]
    exact h j topic name hj
  · exact h j topic name hj

theorem listed_init (port : Nat) (table : Option (Table F)) (storage : Dict Value (Entry F)) (wired : SessionId → Bool) :
    (init port table storage wired).Listed := by
  intro i topic name hmem
  cases topic
  all_goals cases hmem

theorem Listed.subscribe {s : Server F} (h : s.Listed) (topic : Topic) (i : SessionId) (name : Value) :
    (subscribeOne topic i name s).Listed := by
  intro j topic' name' hj
  change name' ∈ ((s.update i (·.withNames (·.insert name) topic)).sessions j).names topic'
  rw [update_sessions]
  obtain ⟨rfl, rfl, rfl⟩ | hj := (PubSubHub.mem_subscribers_subscribe ..).1 hj
  · rw [if_pos rfl, session_names_withNames, Function.update_self]
    exact (OrdSet.mem_insert ..).2 (.inl rfl)
  · have hname := h j topic' name' hj
    split
    · rename_i hji
      subst hji
      rw [session_names_withNames]
      by_cases htopic : topic' = topic
      · subst htopic
        rw [Function.update_self]
        exact (OrdSet.mem_insert ..).2 (.inr hname)
      · rwa [Function.update_of_ne htopic]
    · exact hname

theorem Listed.unsubscribe {s : Server F} (h : s.Listed) (topic : Topic) (i : SessionId) (name : Value) :
    (unsubscribeOne topic i name s).Listed := by
  intro j topic' name' hj
  change name' ∈ ((s.update i (·.withNames (·.erase name) topic)).sessions j).names topic'
  rw [update_sessions]
  obtain ⟨hj, hother⟩ := (PubSubHub.mem_subscribers_unsubscribe ..).1 hj
  have hname := h j topic' name' hj
  split
  · rename_i hji
    subst hji
    rw [session_names_withNames]
    by_cases htopic : topic' = topic
    · subst htopic
      rw [Function.update_self]
      exact (OrdSet.mem_erase ..).2 ⟨hname, fun heq => hother ⟨rfl, rfl, heq⟩⟩
    · rwa [Function.update_of_ne htopic]
  · exact hname

theorem Listed.lost {s : Server F} (h : s.Listed) (i : SessionId) :
    Listed { s.update i fun st => { st with sender := none } with hub := s.hub.remove_session i } := by
  intro j topic name hj
  exact h.update i (f := fun st => { st with sender := none }) (fun _ => rfl) j topic name
    ((PubSubHub.mem_subscribers_remove_session ..).1 hj).2

theorem listed_push {s : Server F} (h : s.Listed) (frames : List (SessionId × Bytes)) : (s.push frames).Listed := by
  induction frames generalizing s with
  | nil => exact h
  | cons p frames ih => exact ih (h.update p.1 fun st => deliver_names st p.2)

theorem listed_absorb {s : Server F} (h : s.Listed) (k : KState F) : (s.absorb k).Listed :=
  listed_push (s := { s with data := { s.data with toStore := k.store }, draws := k.draws }) h k.pushed

theorem listed_liftK {s : Server F} (h : s.Listed) {α : Type} (m : K F α) (r : Env × Clock) : (liftK m r s).2.Listed := by
  unfold liftK
  split
  all_goals exact listed_absorb h _

/-- What a command does to the hub it does to the session that sent it. -/
theorem tandem_listed (r : Env × Clock) (state : Option SessionId) (c : Cmd) :
    Tandem r (fun s s' : Server F => s = s' ∧ s.Listed) state c where
  port _ _ h := by rw [h.1]
  watch _ i _ key s s' h := ⟨by rw [h.1], h.2.update i fun _ => rfl⟩
  unwatch _ i _ s s' h := ⟨by rw [h.1], h.2.update i fun _ => rfl⟩
  flags _ s s' h := ⟨by rw [h.1], fun _ => ⟨by rw [h.1], h.2⟩⟩
  flush _ s s' h := ⟨⟨by rw [h.1], h.2⟩, by rw [h.1], h.2⟩
  names _ i _ s s' h := by
    refine ⟨by rw [h.1], fun topic name => ⟨by rw [h.1], h.2.subscribe topic i name⟩, fun topic name => ⟨by
      rw [h.1], h.2.unsubscribe topic i name⟩,
      fun frame => ⟨by rw [h.1], h.2.update i fun st => deliver_names st frame⟩⟩
  publish _ channel message := .of_respects fun s h => listed_liftK h _ r
  hub _ s s' h := by rw [h.1]

/-- A listed session without subscriptions is deaf. -/
theorem Listed.deaf {s : Server F} (h : s.Listed) {i : SessionId} (hsub : (s.sessions i).subscribed = false) : s.Deaf i := by
  intro topic name hmem
  have hname := h i topic name hmem
  simp only [Session.subscribed, decide_eq_false_iff_not, not_or, not_not] at hsub
  cases topic with
  | channels =>
    rw [OrdSet.mem_def, show (s.sessions i).names .channels = (s.sessions i).channels from rfl, hsub.1] at hname
    cases hname
  | patterns =>
    rw [OrdSet.mem_def, show (s.sessions i).names .patterns = (s.sessions i).patterns from rfl, hsub.2] at hname
    cases hname

variable [PyFloat F]

/-- In every reachable state whoever the hub lists under a name holds the name. -/
theorem reachable_listed {env : Env} {s : Server F} (h : s.Reachable env) : s.Listed := by
  refine h.induct (fun port table storage wired => listed_init port table storage wired) ?_
  intro s input hs
  cases input with
  | lost i => exact hs.lost i
  | request clock state message =>
    have hkept : Kept (fun _ => True) Listed state (F := F) :=
      { update := fun s i f hf hs => hs.update i hf
        run := fun {q c} r s _ _ hs =>
          ((tandem_listed r state c).runHandler (fun _ _ => .of_respects fun s hs => listed_liftK hs _ r) s s ⟨rfl, hs⟩).2.2 }
    exact (hkept.dispatch (by unfold Value.Requests; split <;> trivial) (env, clock) hs fun _ _ _ => trivial).1

/-- A session without subscriptions is deaf in every reachable state. -/
theorem reachable_deaf {env : Env} {s : Server F} (h : s.Reachable env) {i : SessionId}
    (hsub : (s.sessions i).subscribed = false) : s.Deaf i :=
  (reachable_listed h).deaf hsub

end Server

/-! ## Collected frames -/

/-- Nothing is collected but for the session whose transaction is replayed. -/
def Server.Tidy (replayed : Option SessionId) (s : Server F) : Prop :=
  ∀ j, replayed ≠ some j → (s.sessions j).sender ≠ some .collector ∧ (s.sessions j).collected = []

section Tidy

variable {replayed state : Option SessionId} {i : SessionId}

theorem tidy_update {s : Server F} (h : s.Tidy replayed) (i : SessionId) {f : Session → Session}
    (hf : ∀ st, st.sender ≠ some .collector ∧ st.collected = [] → (f st).sender ≠ some .collector ∧ (f st).collected = []) :
    (s.update i f).Tidy replayed := by
  intro j hj
  rw [Server.update_sessions]
  split
  · rename_i hji
    exact hf _ (h i (hji ▸ hj))
  · exact h j hj

theorem tidy_deliver {st : Session} (h : st.sender ≠ some .collector ∧ st.collected = []) (frame : Bytes) :
    (st.deliver frame).sender ≠ some .collector ∧ (st.deliver frame).collected = [] := by
  unfold Session.deliver
  split
  · exact h
  · exact h
  · rename_i hsender
    exact absurd hsender h.1

theorem quiet_tidy (replayed : Option SessionId) : Quiet fun s t : Server F => s.Tidy replayed → t.Tidy replayed :=
  { toIsPreorder := isPreorder_keeps _
    store := fun _ _ => id
    deliver := fun _ i frame h => tidy_update h i fun _ hst => tidy_deliver hst frame
    flags := fun _ _ => id }

variable [PyFloat F]

theorem tidy_direct (q : Request) (bypass_gate : Bool) :
    Respects (fun s t : Server F => s.Tidy replayed → t.Tidy replayed) (_dispatch_direct q state bypass_gate) := by
  intro r s h
  rw [_dispatch_direct_eq]
  cases directRoute q state (s.subscribed state) bypass_gate with
  | answer frame =>
    cases frame
    all_goals exact h
  | multi i => exact tidy_update (f := fun st => { st with in_multi := true, queue := [] }) h i fun _ => id
  | run c =>
    refine (quiet_tidy replayed).runHandler (fun _ s i topic f hub _ h => ?_) (fun _ s i f _ h => tidy_update h i fun _ => id)
      (fun _ s => ⟨id, id⟩) q.args r s h
    exact tidy_update (f := (·.withNames f topic)) h i fun _ => by cases topic <;> exact id

/-- What was collected for the session is dropped when its sender is put back. -/
theorem tidy_replayOne (i : SessionId) (q : Request) :
    Respects (fun s t : Server F => s.Tidy none → t.Tidy none) (replayOne i q) := by
  intro r s h
  have hstart : (s.update i fun st => { st with sender := some .collector, collected := [] }).Tidy (some i) := by
    intro j hj
    rw [Server.update_sessions, if_neg fun e : j = i => hj (congrArg some e.symm)]
    exact h j nofun
  have hdirect : Respects (fun s t : Server F => s.Tidy (some i) → t.Tidy (some i)) (_dispatch_direct q (some i) true) :=
    tidy_direct q true
  have hstop := hdirect r _ hstart
  have hback : ∀ t : Server F, t.Tidy (some i) →
      (t.update i fun st => { st with sender := (s.sessions i).sender, collected := [] }).Tidy none := by
    intro t ht j _
    rw [Server.update_sessions]
    split
    · exact ⟨(h i nofun).1, rfl⟩
    · rename_i hji
      exact ht j fun e => hji (Option.some.inj e).symm
  rw [replayOne_run]
  dsimp only
  split
  all_goals exact hback _ hstop

theorem tidy_exec (i : SessionId) : Respects (fun s t : Server F => s.Tidy none → t.Tidy none) (exec i) := by
  intro r s h
  have hclose : (s.close i).Tidy none :=
    tidy_update (f := fun st => { st with queue := [], in_multi := false, watched := ∅ }) h i fun _ => id
  obtain hstate | hstate := exec_state i r s
  · rw [hstate]
    exact hclose
  · have := isPreorder_keeps fun s : Server F => s.Tidy none
    rw [hstate]
    exact respects_replay (R := fun s t => s.Tidy none → t.Tidy none) (fun q _ => tidy_replayOne i q) r _ hclose

theorem tidy_dispatch (message : Value) (state : Option SessionId) (r : Env × Clock) {s : Server F} (h : s.Tidy none) :
    (dispatch message state r s).2.Tidy none := by
  obtain ⟨frame, hd⟩ | ⟨command, args, rfl, ⟨-, hd⟩ | ⟨i, rfl, -, hd⟩⟩ := dispatch_cases message state r s
  · rw [hd]
    exact h
  · rw [hd]
    exact tidy_direct _ false r s h
  · rw [hd, _dispatch_queued_eq]
    cases queuedRoute ⟨command, args⟩ with
    | exec => exact tidy_exec i r s h
    | discard => exact tidy_update (f := fun st => { st with queue := [], in_multi := false, watched := ∅ }) h i fun _ => id
    | answer frame =>
      cases frame
      all_goals exact h
    | enqueue => exact tidy_update (f := fun st => { st with queue := st.queue ++ [⟨command, args⟩] }) h i fun _ => id

/-- In every reachable state nothing is collected. -/
theorem reachable_tidy {env : Env} {s : Server F} (h : s.Reachable env) : s.Tidy none := by
  refine h.induct (P := Server.Tidy none) (fun port table storage wired j _ => ⟨?_, rfl⟩) fun s input hs => ?_
  · change (if wired j = true then some Sink.transport else none) ≠ some .collector
    split
    all_goals decide
  · cases input with
    | lost i => exact tidy_update (f := fun st => { st with sender := none }) hs i fun _ hst => ⟨nofun, hst.2⟩
    | request clock state message => exact tidy_dispatch message state (env, clock) hs

end Tidy

end Kagni
