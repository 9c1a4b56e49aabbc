import Kagni.Lemmas.Sessions

/-!
# Invariants of a run

An invariant that no change of a session but of its subscriptions can break, and that every method keeps, is kept by the
dispatcher: at once, in a queue and through the replay of EXEC. What is asked of the requests is asked of the queued ones too.
-/

namespace Kagni

open Lib Lib.Prog

variable {F : Type}

/-- Every queued request satisfies `Q`. -/
def Server.Queued (Q : Request → Prop) (s : Server F) : Prop := ∀ j, ∀ q ∈ (s.sessions j).queue, Q q

/-- The message is a request that satisfies `Q`, or none. -/
def Value.Requests (Q : Request → Prop) : Value → Prop
  | .array (.bytes command :: args) => Q ⟨command, args⟩
  | _ => True

theorem queued_update {Q : Request → Prop} {s : Server F} (h : s.Queued Q) (i : SessionId) {f : Session → Session}
    (hf : ∀ q ∈ (f (s.sessions i)).queue, Q q) : (s.update i f).Queued Q := by
  intro j q hq
  rw [Server.update_sessions] at hq
  split at hq
  · exact hf q hq
  · exact h j q hq

theorem queued_of_sameMode {Q : Request → Prop} {s t : Server F} (h : s.Queued Q) (hst : SameMode s t) : t.Queued Q := by
  intro j q hq
  rw [(hst j).2.1] at hq
  exact h j q hq

theorem queued_init (Q : Request → Prop) (port : Nat) (table : Option (Table F)) (storage : Dict Value (Entry F))
    (wired : SessionId → Bool) : (Server.init port table storage wired).Queued Q :=
  fun _ _ hq => absurd hq List.not_mem_nil

variable [PyFloat F]

/-- The invariant `I` does not look at the mode, the queue, the sender or the frames of a session, and every method that a
request with `Q` of the caller `state` runs keeps it. -/
structure Kept (Q : Request → Prop) (I : Server F → Prop) (state : Option SessionId) : Prop where
  update : ∀ (s : Server F) i (f : Session → Session), (∀ st, (f st).names = st.names) → I s → I (s.update i f)
  run : ∀ {q c} r s, Q q → Cmd.ofName q.name = some c → I s → I (runHandler (handler c) state q.args r s).2

namespace Kept

variable {Q : Request → Prop} {I : Server F → Prop} {state : Option SessionId} {i : SessionId}

theorem direct (h : Kept Q I state) {q : Request} (hq : Q q) (bypass_gate : Bool) :
    Respects (fun s t => I s ∧ s.Queued Q → I t ∧ t.Queued Q) (_dispatch_direct q state bypass_gate : D F _) := by
  rintro r s ⟨hI, hQ⟩
  rw [_dispatch_direct_eq]
  cases hroute : directRoute q state (s.subscribed state) bypass_gate with
  | answer frame =>
    cases frame
    all_goals exact ⟨hI, hQ⟩
  | multi j =>
    refine ⟨h.update s j (fun st => { st with in_multi := true, queue := [] }) (fun _ => rfl) hI, ?_⟩
    exact queued_update (f := fun st => { st with in_multi := true, queue := [] }) hQ j fun q hq => absurd hq List.not_mem_nil
  | run c => exact ⟨h.run r s hq (run_of_directRoute hroute).1 hI, queued_of_sameMode hQ (sameMode_runHandler c state q.args r s)⟩

theorem replayOne (h : Kept Q I (some i)) {q : Request} (hq : Q q) :
    Respects (fun s t => I s ∧ s.Queued Q → I t ∧ t.Queued Q) (replayOne i q : D F _) := by
  rintro r s ⟨hI, hQ⟩
  have hstart := h.direct hq true r (s.update i fun st => { st with sender := some .collector, collected := [] })
    ⟨h.update s i _ (fun _ => rfl) hI, queued_update hQ i (hQ i)⟩
  rw [replayOne_run]
  have hback : ∀ t : Server F, I t ∧ t.Queued Q →
      I (t.update i fun st => { st with sender := (s.sessions i).sender, collected := [] }) ∧
      (t.update i fun st => { st with sender := (s.sessions i).sender, collected := [] }).Queued Q := fun t ht =>
    ⟨h.update t i _ (fun _ => rfl) ht.1, queued_update ht.2 i (ht.2 i)⟩
  dsimp only
  split
  · exact hback _ hstart
  · exact hback _ hstart

theorem close (h : Kept Q I (some i)) {s : Server F} (hs : I s ∧ s.Queued Q) : I (s.close i) ∧ (s.close i).Queued Q :=
  ⟨h.update s i _ (fun _ => rfl) hs.1, queued_update hs.2 i fun _ hq => absurd hq List.not_mem_nil⟩

/-- EXEC replays what the queue held when it was sent. -/
theorem exec (h : Kept Q I (some i)) :
    Respects (fun s t => I s ∧ s.Queued Q → I t ∧ t.Queued Q) (exec i : D F _) := by
  intro r s hs
  obtain hstate | hstate := exec_state i r s
  · rw [hstate]
    exact h.close hs
  · have := isPreorder_keeps fun s : Server F => I s ∧ s.Queued Q
    rw [hstate]
    exact respects_replay (R := fun s t => I s ∧ s.Queued Q → I t ∧ t.Queued Q) (fun q hq => h.replayOne (hs.2 i q hq)) r _
      (h.close hs)

theorem queued (h : Kept Q I (some i)) {q : Request} (hq : Q q) :
    Respects (fun s t => I s ∧ s.Queued Q → I t ∧ t.Queued Q) (_dispatch_queued i q : D F _) := by
  intro r s hs
  rw [_dispatch_queued_eq]
  cases queuedRoute q with
  | exec => exact h.exec r s hs
  | discard => exact h.close hs
  | answer frame =>
    cases frame
    all_goals exact hs
  | enqueue =>
    refine ⟨h.update s i (fun st => { st with queue := st.queue ++ [q] }) (fun _ => rfl) hs.1, ?_⟩
    refine queued_update (f := fun st => { st with queue := st.queue ++ [q] }) hs.2 i ?_
    intro q' hq'
    rcases List.mem_append.1 hq' with hq' | hq'
    · exact hs.2 i q' hq'
    · rw [List.mem_singleton.1 hq']
      exact hq

/-- The dispatcher keeps the invariant, and what is asked of the queues. -/
theorem dispatch (h : Kept Q I state) {message : Value} (hm : message.Requests Q) (r : Env × Clock) {s : Server F}
    (hI : I s) (hQ : s.Queued Q) : I (dispatch message state r s).2 ∧ (dispatch message state r s).2.Queued Q := by
  obtain ⟨frame, hd⟩ | ⟨command, args, rfl, ⟨-, hd⟩ | ⟨i, rfl, -, hd⟩⟩ := dispatch_cases message state r s
  · rw [hd]
    exact ⟨hI, hQ⟩
  · rw [hd]
    exact h.direct hm false r s ⟨hI, hQ⟩
  · rw [hd]
    exact h.queued hm r s ⟨hI, hQ⟩

end Kept

/-! ## Invariants of the store -/

omit [PyFloat F] in
theorem Server.push_data (s : Server F) (frames : List (SessionId × Bytes)) : (s.push frames).data = s.data := by
  induction frames generalizing s with
  | nil => rfl
  | cons p frames ih => exact ih _

omit [PyFloat F] in
theorem Server.push_hub (s : Server F) (frames : List (SessionId × Bytes)) : (s.push frames).hub = s.hub := by
  induction frames generalizing s with
  | nil => rfl
  | cons p frames ih => exact ih _

omit [PyFloat F] in
theorem liftK_hub {α : Type} (m : K F α) (r : Env × Clock) (s : Server F) : (liftK m r s).2.hub = s.hub := by
  unfold liftK
  split
  all_goals exact Server.push_hub _ _

omit [PyFloat F] in
/-- A keyspace program that is run on the server leaves the store it leaves. -/
theorem liftK_store {α : Type} (m : K F α) (r : Env × Clock) (s : Server F) :
    (liftK m r s).2.data.toStore = (m (s.ctx r.1 r.2) s.kstate).2.store := by
  unfold liftK
  split
  all_goals
    rename_i heq
    rw [heq]
    exact congrArg Data.toStore (Server.push_data _ _)

omit [PyFloat F] in
/-- The frame of a keyspace program, by how the program ended. -/
theorem decoratedFrame_liftK (m : K F Reply) (r : Env × Clock) (s : Server F) :
    decoratedFrame (liftK m r s).1 = decoratedFrame ((m (s.ctx r.1 r.2) s.kstate).1.mapError Exc.toError) := by
  unfold liftK
  cases m (s.ctx r.1 r.2) s.kstate with
  | mk out k => cases out <;> rfl

/-- An invariant of the store that an empty one has and every keyspace command keeps is kept by every command. -/
theorem kept_store {Q : Request → Prop} {I : Store F → Prop} (hempty : I ⟨∅, ∅⟩)
    (hkeeps : ∀ {q c method} ctx, Q q → Cmd.ofName q.name = some c → (handler c : Handler F) = .keyspace method →
      Prog.Keeps ctx (fun k : KState F => I k.store) (method q.args) fun _ => True) (state : Option SessionId) :
    Kept Q (fun s : Server F => I s.data.toStore) state where
  update _ _ _ _ h := h
  run {q c} r s hq hc h := by
    have hcalm : Calm fun s t : Server F => I s.data.toStore → I t.data.toStore :=
      { toIsPreorder := isPreorder_keeps _, draws := fun _ _ => id, deliver := fun _ _ _ => id }
    refine hcalm.runHandler (fun method hm r s hs => ?_) (fun _ _ _ _ _ _ _ => id) (fun _ _ _ _ _ => id)
      (fun _ s => ⟨fun _ => hempty, id⟩) (fun _ _ _ => id) r s h
    rw [liftK_store]
    have hend := hkeeps (s.ctx r.1 r.2) hq hc hm s.kstate hs
    revert hend
    cases method q.args (s.ctx r.1 r.2) s.kstate with
    | mk out k =>
      cases out with
      | ok _ => exact And.left
      | error _ => exact id

/-- The input is a request that satisfies `Q`, or none. -/
def Input.Requests (Q : Request → Prop) : Input → Prop
  | .request _ _ message => message.Requests Q
  | .lost _ => True

/-- An invariant of the store that every command keeps holds after every run. -/
theorem store_run {Q : Request → Prop} {I : Store F → Prop} (h : ∀ state, Kept Q (fun s : Server F => I s.data.toStore) state)
    (env : Env) (inputs : List Input) (hinputs : ∀ i ∈ inputs, i.Requests Q) {s : Server F} (hI : I s.data.toStore)
    (hQ : s.Queued Q) : I (s.run env inputs).data.toStore := by
  induction inputs generalizing s with
  | nil => exact hI
  | cons i inputs ih =>
    have hi := hinputs i (by simp)
    have hrest : ∀ i ∈ inputs, i.Requests Q := fun i hi => hinputs i (by simp [hi])
    cases i with
    | request clock state message =>
      have hstep := (h state).dispatch hi (env, clock) hI hQ
      exact ih hrest hstep.1 hstep.2
    | lost session =>
      exact ih hrest hI (queued_update (f := fun st => { st with sender := none }) hQ session (hQ session))

end Kagni
