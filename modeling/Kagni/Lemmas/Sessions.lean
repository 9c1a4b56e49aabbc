import Kagni.Lemmas.Subscriptions

/-!
# What a method leaves of the sessions

No method opens or closes a transaction, queues a request or changes a sender; only the caller's subscriptions change, and
only WATCH makes a session watch a key.
-/

namespace Kagni

open Lib Lib.Prog

variable {F : Type}

/-- Every session keeps its mode, its queue and its sender. -/
def SameMode (s t : Server F) : Prop :=
  ∀ j, (t.sessions j).in_multi = (s.sessions j).in_multi ∧ (t.sessions j).queue = (s.sessions j).queue ∧
    (t.sessions j).sender = (s.sessions j).sender

/-- Every session but the calling one keeps its subscriptions. -/
def SameNames (state : Option SessionId) (s t : Server F) : Prop :=
  ∀ j, state ≠ some j → (t.sessions j).names = (s.sessions j).names

/-- A session that watches nothing goes on watching nothing. -/
def StaysUnwatched (i : SessionId) (s t : Server F) : Prop := (s.sessions i).watched = ∅ → (t.sessions i).watched = ∅

/-- An update of a session that keeps its mode, its queue and its sender. -/
theorem sameMode_update (s : Server F) (i : SessionId) {f : Session → Session}
    (hf : ∀ st, (f st).in_multi = st.in_multi ∧ (f st).queue = st.queue ∧ (f st).sender = st.sender) :
    SameMode s (s.update i f) := by
  intro j
  rw [Server.update_sessions]
  split
  · rename_i h
    rw [h]
    exact hf _
  · exact ⟨rfl, rfl, rfl⟩

theorem deliver_mode (st : Session) (frame : Bytes) :
    (st.deliver frame).in_multi = st.in_multi ∧ (st.deliver frame).queue = st.queue ∧
      (st.deliver frame).sender = st.sender ∧ (st.deliver frame).watched = st.watched := by
  unfold Session.deliver
  split
  · exact ⟨rfl, rfl, rfl, rfl⟩
  · exact ⟨rfl, rfl, rfl, rfl⟩
  · exact ⟨rfl, rfl, rfl, rfl⟩

theorem withNames_mode (st : Session) (f : OrdSet Value → OrdSet Value) (topic : Topic) :
    (st.withNames f topic).in_multi = st.in_multi ∧ (st.withNames f topic).queue = st.queue ∧
      (st.withNames f topic).sender = st.sender ∧ (st.withNames f topic).watched = st.watched := by
  cases topic <;> exact ⟨rfl, rfl, rfl, rfl⟩

theorem quiet_sameMode : Quiet (SameMode (F := F)) where
  refl _ _ := ⟨rfl, rfl, rfl⟩
  trans _ _ _ h h' j := ⟨(h' j).1.trans (h j).1, (h' j).2.1.trans (h j).2.1, (h' j).2.2.trans (h j).2.2⟩
  store _ _ _ := ⟨rfl, rfl, rfl⟩
  deliver s i frame := sameMode_update s i fun st => ⟨(deliver_mode st frame).1, (deliver_mode st frame).2.1,
    (deliver_mode st frame).2.2.1⟩
  flags _ _ _ := ⟨rfl, rfl, rfl⟩

theorem quiet_sameNames (state : Option SessionId) : Quiet (SameNames (F := F) state) where
  refl _ _ _ := rfl
  trans _ _ _ h h' j hj := (h' j hj).trans (h j hj)
  store _ _ _ _ := rfl
  deliver s i frame j _ := by
    rw [Server.update_sessions]
    split
    · rename_i h
      rw [h, deliver_names]
    · rfl
  flags _ _ _ _ := rfl

theorem quiet_staysUnwatched (i : SessionId) : Quiet (StaysUnwatched (F := F) i) where
  refl _ h := h
  trans _ _ _ h h' hs := h' (h hs)
  store _ _ h := h
  deliver s j frame h := by
    rw [Server.update_sessions]
    split
    · rename_i hij
      subst hij
      rw [(deliver_mode _ frame).2.2.2, h]
    · exact h
  flags _ _ h := h

/-- An update of the calling session alone. -/
theorem sameNames_update (s : Server F) (i : SessionId) (f : Session → Session) : SameNames (some i) s (s.update i f) := by
  intro j hj
  have hij : j ≠ i := fun h => hj (congrArg some h.symm)
  rw [Server.update_sessions, if_neg hij]

section Methods

variable [PyFloat F]

theorem sameMode_runHandler (c : Cmd) (state : Option SessionId) (args : List Value) :
    Respects SameMode (runHandler (handler c : Handler F) state args) := by
  refine quiet_sameMode.runHandler (fun _ => ?_) (fun _ => ?_) (fun _ => ?_) args
  · rintro s i topic f hub -
    exact sameMode_update s i fun st => ⟨(withNames_mode st f topic).1, (withNames_mode st f topic).2.1,
      (withNames_mode st f topic).2.2.1⟩
  · rintro s i f -
    exact sameMode_update s i fun _ => ⟨rfl, rfl, rfl⟩
  · intro s
    exact ⟨fun _ => ⟨rfl, rfl, rfl⟩, fun _ => ⟨rfl, rfl, rfl⟩⟩

theorem sameNames_runHandler (c : Cmd) (state : Option SessionId) (args : List Value) :
    Respects (SameNames state) (runHandler (handler c : Handler F) state args) := by
  refine (quiet_sameNames state).runHandler (fun _ => ?_) (fun _ => ?_) (fun _ => ?_) args
  · rintro s i topic f hub rfl
    exact sameNames_update s i (·.withNames f topic)
  · rintro s i f rfl
    exact sameNames_update s i _
  · intro s
    exact ⟨fun _ _ => rfl, fun _ _ => rfl⟩

/-- Only WATCH watches. -/
theorem staysUnwatched_runHandler {c : Cmd} (hc : c ≠ .WATCH) (i : SessionId) (args : List Value) :
    Respects (StaysUnwatched i) (runHandler (handler c : Handler F) (some i) args) := by
  by_cases hu : c = .UNWATCH
  · subst hu
    intro r s h
    have hstate : (runHandler (handler .UNWATCH : Handler F) (some i) args r s).2 = (UNWATCH (some i) args r s).2 :=
      runSession_state ..
    rw [hstate]
    unfold UNWATCH
    by_cases ha : args ≠ []
    · rw [if_pos ha]
      exact h
    · rw [if_neg ha]
      change ((s.update i fun st => { st with watched := ∅ }).sessions i).watched = ∅
      rw [Server.update_sessions_self]
  · refine (quiet_staysUnwatched i).runHandler (fun _ => ?_) (fun h => absurd h (by simp [hc, hu])) (fun _ => ?_) args
    · rintro s j topic f hub - h
      change ((s.update j (·.withNames f topic)).sessions i).watched = ∅
      rw [Server.update_sessions]
      split
      · rename_i hij
        subst hij
        rw [(withNames_mode _ f topic).2.2.2, h]
      · exact h
    · intro s
      exact ⟨fun h => h, fun h => h⟩

/-- What a request leaves of the sessions when it opens no transaction. -/
theorem direct_sameMode {q : Request} (state : Option SessionId) (bypass_gate : Bool) (r : Env × Clock) (s : Server F)
    (h : ∀ i, directRoute q state (s.subscribed state) bypass_gate ≠ .multi i) :
    SameMode s (_dispatch_direct q state bypass_gate r s).2 ∧ SameNames state s (_dispatch_direct q state bypass_gate r s).2 := by
  rw [_dispatch_direct_eq]
  cases hroute : directRoute q state (s.subscribed state) bypass_gate with
  | answer frame =>
    cases frame
    all_goals exact ⟨quiet_sameMode.toIsPreorder.refl s, (quiet_sameNames state).toIsPreorder.refl s⟩
  | multi i => exact absurd hroute (h i)
  | run c => exact ⟨sameMode_runHandler c state q.args r s, sameNames_runHandler c state q.args r s⟩

end Methods

end Kagni
