import Kagni.Lemmas.Outcome
import Kagni.Subscriptions

/-!
# What the dispatcher does to the subscriptions

One command of a transaction changes the subscriptions of its session as `Subs.after` says. A method of the subscribe family that
ends without an exception has pushed a frame to its session.
-/

namespace Kagni

open Lib Lib.Prog

variable {F : Type}

theorem liftK_needHash (v : Value) (r : Env × Clock) (s : Server F) :
    liftK (needHash v) r s = (if v.hashable then .ok () else .error .other, s) := by
  unfold liftK needHash
  cases v.hashable <;> rfl

/-- The confirmation of a name cannot be encoded exactly when the name cannot. -/
theorem protocolBuilder_confirm_eq_none_iff (kind : Bytes) (name : Reply) (count : Int) :
    protocolBuilder (.list [.bytes kind, name, .int count]) = none ↔ protocolBuilder name = none := by
  rw [protocolBuilder_list_eq_none_iff]
  simp

theorem confirm_eq (i : SessionId) (kind : Bytes) (name : Reply) (r : Env × Clock) (s : Server F) :
    confirm i kind name r s = match protocolBuilder (.list [.bytes kind, name, .int (s.sessions i).subscription_count]) with
      | some frame => (.ok (), s.update i (·.deliver frame))
      | none => (.error .other, s) := by
  unfold confirm
  rw [bind_ok r s (get_run r s)]
  cases protocolBuilder (.list [.bytes kind, name, .int (s.sessions i).subscription_count]) <;> rfl

/-- `confirm` pushes one frame or raises. -/
theorem confirm_run (i : SessionId) (kind : Bytes) (name : Reply) (r : Env × Clock) (s : Server F) :
    (protocolBuilder name = none ∧ confirm i kind name r s = (.error .other, s)) ∨
      protocolBuilder name ≠ none ∧ ∃ frame, confirm i kind name r s = (.ok (), s.update i (·.deliver frame)) := by
  rw [confirm_eq]
  cases hb : protocolBuilder (.list [.bytes kind, name, .int (s.sessions i).subscription_count]) with
  | none => exact .inl ⟨(protocolBuilder_confirm_eq_none_iff ..).1 hb, rfl⟩
  | some frame =>
    refine .inr ⟨fun hn => ?_, frame, rfl⟩
    rw [(protocolBuilder_confirm_eq_none_iff ..).2 hn] at hb
    cases hb

/-! ## The loop over the names -/

/-- The loop of the subscribe family. -/
def namesLoop (change : Value → Server F → Server F) (kind : Bytes) (i : SessionId) (names : List Value) : M F Unit :=
  Prog.each (fun name => do
    liftK (needHash name)
    Prog.modify (change name)
    confirm i kind (.ofValue name)) names

/-- One name: it has no hash, or it is changed and cannot be confirmed, or it is changed and confirmed. -/
theorem namesLoop_cons (change : Value → Server F → Server F) (kind : Bytes) (i : SessionId) (name : Value) (names : List Value)
    (r : Env × Clock) (s : Server F) :
    (name.hashable = false ∧ namesLoop change kind i (name :: names) r s = (.error .other, s)) ∨
    (name.hashable = true ∧ name.Unencodable ∧
      namesLoop change kind i (name :: names) r s = (.error .other, change name s)) ∨
    (name.hashable = true ∧ ¬name.Unencodable ∧ ∃ frame, namesLoop change kind i (name :: names) r s =
      namesLoop change kind i names r ((change name s).update i (·.deliver frame))) := by
  have hrun : namesLoop change kind i (name :: names) r s = (liftK (needHash name) >>= fun _ =>
      (Prog.modify (change name) >>= fun _ => confirm i kind (.ofValue name)) >>= fun _ => namesLoop change kind i names)
        r s := by
    unfold namesLoop
    rw [each_cons, bind_assoc]
  rw [hrun]
  cases hh : name.hashable with
  | false =>
    refine .inl ⟨rfl, bind_error r s ?_⟩
    rw [liftK_needHash, hh]
    rfl
  | true =>
    have hk : liftK (needHash name) r s = (.ok (), s) := by
      rw [liftK_needHash, hh]
      rfl
    rw [bind_ok r s hk]
    obtain ⟨hn, hc⟩ | ⟨hn, frame, hc⟩ := confirm_run i kind (.ofValue name) r (change name s)
    · exact .inr (.inl ⟨rfl, hn, bind_error r s hc⟩)
    · exact .inr (.inr ⟨rfl, hn, frame, bind_ok r s hc⟩)

@[simp] theorem deliver_names (st : Session) (frame : Bytes) : (st.deliver frame).names = st.names := by
  funext topic
  unfold Session.deliver
  split <;> rfl

theorem update_deliver_subs (s : Server F) (i j : SessionId) (frame : Bytes) :
    (s.update j (·.deliver frame)).subs i = s.subs i := by
  unfold Server.subs
  rw [Server.update_sessions]
  split
  · rename_i h
    simp [h]
  · rfl

theorem namesLoop_subs {change : Value → Server F → Server F} {i : SessionId} {f : Subs → Value → Subs}
    (hf : ∀ name s, (change name s).subs i = f (s.subs i) name) (kind : Bytes) (names : List Value) (r : Env × Clock)
    (s : Server F) : (namesLoop change kind i names r s).2.subs i = Subs.forNames f names (s.subs i) := by
  induction names generalizing s with
  | nil => rfl
  | cons name names ih =>
    rw [Subs.forNames]
    obtain ⟨hh, hrun⟩ | ⟨hh, hn, hrun⟩ | ⟨hh, hn, frame, hrun⟩ := namesLoop_cons change kind i name names r s
    · rw [hrun, hh]
      rfl
    · rw [hrun, hh, if_neg (by decide), if_pos hn]
      exact hf name s
    · rw [hrun, hh, if_neg (by decide), if_neg hn, ih, update_deliver_subs, hf]

/-! ## The subscriptions after a command -/

theorem session_names_withNames (st : Session) (f : OrdSet Value → OrdSet Value) (topic : Topic) :
    (st.withNames f topic).names = Function.update st.names topic (f (st.names topic)) := by
  funext topic'
  cases topic <;> cases topic' <;> rfl

theorem subs_withNames (s : Server F) (i : SessionId) (f : OrdSet Value → OrdSet Value) (topic : Topic) (hub : PubSubHub) :
    Server.subs { s.update i (·.withNames f topic) with hub := hub } i = { (s.subs i).withNames f topic with hub := hub } := by
  unfold Server.subs Subs.withNames
  simp only [Server.update_sessions_self, session_names_withNames]

theorem subscribed_subs (s : Server F) (i : SessionId) : (s.subs i).subscribed = s.subscribed (some i) := rfl

theorem subscribeAll_eq (topic : Topic) (kind : Bytes) (i : SessionId) (names : List Value) :
    (subscribeAll topic kind (some i) names : M F _) =
      (namesLoop (subscribeOne topic i) kind i names >>= fun _ => pure none) := rfl

theorem subscribeOne_subs (topic : Topic) (i : SessionId) (name : Value) (s : Server F) :
    (subscribeOne topic i name s).subs i = Subs.add topic i (s.subs i) name := subs_withNames s i _ topic _

theorem unsubscribeOne_subs (topic : Topic) (i : SessionId) (name : Value) (s : Server F) :
    (unsubscribeOne topic i name s).subs i = Subs.drop topic i (s.subs i) name := subs_withNames s i _ topic _

/-- The names UNSUBSCRIBE and PUNSUBSCRIBE give up; `none` is the `TypeError` of the sort. -/
def wantedNames (held : OrdSet Value) : List Value → Option (List Value)
  | [] => sorted held.elems
  | names => some names

theorem unsubscribeAll_eq (topic : Topic) (kind : Bytes) (i : SessionId) (names : List Value) (r : Env × Clock) (s : Server F) :
    unsubscribeAll topic kind (some i) names r s = match wantedNames ((s.sessions i).names topic) names with
      | none => (.error .other, s)
      | some wanted => (namesLoop (unsubscribeOne topic i) kind i wanted >>= fun _ =>
          if names = [] ∧ ((s.sessions i).names topic).elems = [] then confirm i kind .NIL >>= fun _ => pure none
          else pure none) r s := by
  cases names with
  | nil =>
    unfold unsubscribeAll wantedNames
    rw [bind_ok r s (show _session (some i) r s = (.ok i, s) from rfl), bind_ok r s (get_run r s)]
    cases sorted ((s.sessions i).names topic).elems <;> rfl
  | cons name names => rfl

theorem subscribeAll_subs (topic : Topic) (kind : Bytes) (i : SessionId) (names : List Value) (r : Env × Clock) (s : Server F) :
    (subscribeAll topic kind (some i) names r s).2.subs i = Subs.forNames (Subs.add topic i) names (s.subs i) := by
  rw [subscribeAll_eq, ← namesLoop_subs (subscribeOne_subs topic i) kind names r s, bind_run]
  cases namesLoop (subscribeOne topic i) kind i names r s with
  | mk out s' => cases out <;> rfl

theorem unsubscribeAll_subs (topic : Topic) (kind : Bytes) (i : SessionId) (names : List Value) (r : Env × Clock) (s : Server F) :
    (unsubscribeAll topic kind (some i) names r s).2.subs i =
      Subs.forNames (Subs.drop topic i) (Subs.wanted topic names (s.subs i)) (s.subs i) := by
  have hwanted : Subs.wanted topic names (s.subs i) = (wantedNames ((s.sessions i).names topic) names).getD [] := by
    cases names <;> rfl
  rw [unsubscribeAll_eq, hwanted]
  cases wantedNames ((s.sessions i).names topic) names with
  | none => rfl
  | some wanted =>
    rw [Option.getD_some, ← namesLoop_subs (unsubscribeOne_subs topic i) kind wanted r s]
    dsimp only
    rw [bind_run]
    cases namesLoop (unsubscribeOne topic i) kind i wanted r s with
    | mk out s' =>
      cases out with
      | error e => rfl
      | ok _ =>
        dsimp only
        split
        · obtain ⟨-, hrun⟩ | ⟨-, frame, hrun⟩ := confirm_run i kind .NIL r s'
          · rw [bind_error r s' hrun]
          · rw [bind_ok r s' hrun]
            exact update_deliver_subs s' i i frame
        · rfl

theorem quiet_subs (i : SessionId) : Quiet fun s t : Server F => t.subs i = s.subs i where
  refl _ := rfl
  trans _ _ _ h h' := h'.trans h
  store _ _ := rfl
  deliver s j frame := update_deliver_subs s i j frame
  flags _ _ := rfl

theorem runDecorated_state (m : M F Reply) (r : Env × Clock) (s : Server F) : (runDecorated m r s).2 = (m r s).2 := by
  rw [runDecorated_run]

theorem runSession_state (m : M F (Option Reply)) (r : Env × Clock) (s : Server F) : (runSession m r s).2 = (m r s).2 := by
  rw [runSession_run]

/-- An update that touches neither the names nor the hub. -/
theorem update_subs (s : Server F) (i : SessionId) {f : Session → Session} (hf : ∀ st, (f st).names = st.names) :
    (s.update i f).subs i = s.subs i := by
  unfold Server.subs
  rw [Server.update_sessions_self, hf]
  rfl

/-! ## The frames pushed meanwhile -/

/-- The frames of a session are collected, and none of those collected is lost. -/
def Collecting (i : SessionId) (s t : Server F) : Prop :=
  (s.sessions i).sender = some .collector →
    (t.sessions i).sender = some .collector ∧ (s.sessions i).collected.length ≤ (t.sessions i).collected.length

/-- An update of a session that keeps its sender and loses none of the collected frames. -/
theorem Collecting.update (i : SessionId) (s : Server F) (j : SessionId) (f : Session → Session)
    (hf : ∀ st, st.sender = some .collector → (f st).sender = some .collector ∧ st.collected.length ≤ (f st).collected.length) :
    Collecting i s (s.update j f) := by
  intro h
  rw [Server.update_sessions]
  split
  · rename_i hj
    subst hj
    exact hf _ h
  · exact ⟨h, le_refl _⟩

theorem deliver_collector {st : Session} (h : st.sender = some .collector) (frame : Bytes) :
    st.deliver frame = { st with collected := st.collected ++ [frame] } := by
  unfold Session.deliver
  split
  · simp_all
  · simp_all
  · rfl

theorem collecting_deliver (i : SessionId) (s : Server F) (j : SessionId) (frame : Bytes) :
    Collecting i s (s.update j (·.deliver frame)) := by
  refine .update i s j _ ?_
  intro st h
  rw [deliver_collector h]
  exact ⟨h, by simp⟩

theorem quiet_collecting (i : SessionId) : Quiet fun s t : Server F => Collecting i s t where
  refl _ h := ⟨h, le_refl _⟩
  trans _ _ _ h h' hs := ⟨(h' (h hs).1).1, (h hs).2.trans (h' (h hs).1).2⟩
  store _ _ h := ⟨h, le_refl _⟩
  deliver := collecting_deliver i
  flags _ _ h := ⟨h, le_refl _⟩

theorem collecting_names (i : SessionId) (s : Server F) (j : SessionId) (f : OrdSet Value → OrdSet Value) (topic : Topic)
    (hub : PubSubHub) : Collecting i s { s.update j (·.withNames f topic) with hub := hub } := by
  refine Collecting.update i s j (·.withNames f topic) ?_
  intro st h
  cases topic <;> exact ⟨h, le_refl _⟩

/-- A loop over at least one name that ends normally has pushed a frame. -/
theorem namesLoop_collected {change : Value → Server F → Server F} {i : SessionId}
    (hchange : ∀ name s, Collecting i s (change name s)) {kind : Bytes} {names : List Value} (hne : names ≠ []) {r : Env × Clock}
    {s s' : Server F} (hs : (s.sessions i).sender = some .collector) (h : namesLoop change kind i names r s = (.ok (), s')) :
    (s'.sessions i).sender = some .collector ∧ (s'.sessions i).collected ≠ [] := by
  cases names with
  | nil => exact absurd rfl hne
  | cons name names =>
    obtain ⟨-, hrun⟩ | ⟨-, -, hrun⟩ | ⟨-, -, frame, hrun⟩ := namesLoop_cons change kind i name names r s
    · rw [hrun] at h
      cases h
    · rw [hrun] at h
      cases h
    · have := (quiet_collecting (F := F) i).toIsPreorder
      have hkeep : Respects (Collecting i) (namesLoop change kind i names : M F Unit) :=
        .each fun name _ => .bind ((quiet_collecting i).liftK _) fun _ => .bind (.modify (hchange name)) fun _ =>
          (quiet_collecting i).calm.confirm i kind _
      have hchanged := (hchange name s hs).1
      have hdeliver : ((change name s).update i (·.deliver frame)).sessions i =
          { (change name s).sessions i with collected := ((change name s).sessions i).collected ++ [frame] } := by
        rw [Server.update_sessions_self, deliver_collector hchanged]
      have hlast := hkeep r ((change name s).update i (·.deliver frame)) (by rw [hdeliver]; exact hchanged)
      rw [← hrun, h, hdeliver, List.length_append] at hlast
      exact ⟨hlast.1, List.ne_nil_of_length_pos (by have := hlast.2; simp at this; omega)⟩

theorem subscribeAll_collected {topic : Topic} {kind : Bytes} {i : SessionId} {names : List Value} (hne : names ≠ [])
    {r : Env × Clock} {s s' : Server F} {out : Option Reply} (hs : (s.sessions i).sender = some .collector)
    (h : subscribeAll topic kind (some i) names r s = (.ok out, s')) : (s'.sessions i).collected ≠ [] := by
  rw [subscribeAll_eq] at h
  cases hl : namesLoop (subscribeOne topic i) kind i names r s with
  | mk out' t =>
    cases out' with
    | error e =>
      rw [bind_error r s hl] at h
      cases h
    | ok _ =>
      rw [bind_ok r s hl] at h
      cases h
      exact (namesLoop_collected (fun name s => collecting_names i s i _ topic _) hne hs hl).2

theorem sorted_eq_nil {values : List Value} (h : sorted values = some []) : values = [] := by
  unfold sorted at h
  split at h
  · exact Option.some.inj h
  · split at h
    · have hlen := congrArg List.length (Option.some.inj h)
      rw [List.length_insertionSort] at hlen
      exact List.length_eq_zero_iff.1 hlen
    · cases h

theorem unsubscribeAll_collected {topic : Topic} {kind : Bytes} {i : SessionId} {names : List Value} {r : Env × Clock}
    {s s' : Server F} {out : Option Reply} (hs : (s.sessions i).sender = some .collector)
    (h : unsubscribeAll topic kind (some i) names r s = (.ok out, s')) : (s'.sessions i).collected ≠ [] := by
  rw [unsubscribeAll_eq] at h
  cases hw : wantedNames ((s.sessions i).names topic) names with
  | none =>
    rw [hw] at h
    cases h
  | some wanted =>
    rw [hw] at h
    dsimp only at h
    cases hl : namesLoop (unsubscribeOne topic i) kind i wanted r s with
    | mk out' t =>
      cases out' with
      | error e =>
        rw [bind_error r s hl] at h
        cases h
      | ok _ =>
        rw [bind_ok r s hl] at h
        by_cases hne : wanted = []
        · -- nothing to give up: the frame is the one for no name
          subst hne
          cases hl
          have hnone : names = [] ∧ ((s.sessions i).names topic).elems = [] := by
            cases names with
            | nil => exact ⟨rfl, sorted_eq_nil hw⟩
            | cons name names => cases hw
          rw [if_pos hnone] at h
          obtain ⟨hn, -⟩ | ⟨-, frame, hrun⟩ := confirm_run i kind .NIL r s
          · cases hn
          · rw [bind_ok r s hrun] at h
            cases h
            rw [Server.update_sessions_self, deliver_collector hs]
            simp
        · have hcollected := namesLoop_collected (fun name s => collecting_names i s i _ topic _) hne hs hl
          split at h
          · obtain ⟨hn, -⟩ | ⟨-, frame, hrun⟩ := confirm_run i kind .NIL r t
            · cases hn
            · rw [bind_ok r t hrun] at h
              cases h
              rw [Server.update_sessions_self, deliver_collector hcollected.1]
              simp
          · cases h
            exact hcollected.2

/-- PUBSUB never leaves its reply to a pushed frame. -/
theorem PUBSUB_ne_none (args : List Value) : Ends (· ≠ none) (fun _ => True) (PUBSUB args : M F _) := by
  have hk : ∀ {α : Type} (m : K F α), Ends (fun _ => True) (fun _ => True) (liftK m) := fun m r s => by
    cases liftK m r s with
    | mk out s' => cases out <;> trivial
  unfold PUBSUB
  split
  · exact .raise trivial
  · refine .bind (hk _) ?_
    intro raw _
    refine .ite (fun _ => ?_) fun _ => .ite (fun _ => ?_) fun _ => .ite (fun _ => ?_) fun _ => .raise trivial
    · split
      · exact .bind (hk _) fun _ _ => .pure (Option.some_ne_none _)
      · exact .bind (hk _) fun _ _ => .pure (Option.some_ne_none _)
      · intro r s
        have hthrow : (liftK (throw_ .SYNTAX) : M F (Option Reply)) r s = (.error (.error Errors.SYNTAX.error), s) := rfl
        rw [hthrow]
        trivial
    · exact .bind (hk _) fun _ _ => .pure (Option.some_ne_none _)
    · exact .bind .get fun _ _ => .pure (Option.some_ne_none _)

variable [PyFloat F]

/-- A command changes the subscriptions of its session only when it is of the subscribe family. -/
theorem runHandler_subs {q : Request} {c : Cmd} (hc : Cmd.ofName q.name = some c) (i : SessionId)
    (r : Env × Clock) (s : Server F) :
    (runHandler (handler c) (some i) q.args r s).2.subs i = Subs.after i q (s.subs i) := by
  unfold Subs.after
  rw [hc]
  by_cases hs : c ∈ subscribeCommands
  · simp only [subscribeCommands, List.mem_cons, List.not_mem_nil, or_false] at hs
    rcases hs with rfl | rfl | rfl | rfl
    · exact (congrArg (Server.subs · i) (runSession_state ..)).trans (subscribeAll_subs .channels _ i q.args r s)
    · exact (congrArg (Server.subs · i) (runSession_state ..)).trans (unsubscribeAll_subs .channels _ i q.args r s)
    · exact (congrArg (Server.subs · i) (runSession_state ..)).trans (subscribeAll_subs .patterns _ i q.args r s)
    · exact (congrArg (Server.subs · i) (runSession_state ..)).trans (unsubscribeAll_subs .patterns _ i q.args r s)
  · have hkeep := ((quiet_subs i).runHandler (fun h => absurd h hs) (fun _ => ?_) (fun _ => fun s => ⟨rfl, rfl⟩) q.args :
      Respects _ (runHandler (handler c) (some i) q.args : D F _)) r s
    · rw [hkeep]
      revert hs
      cases c <;> first | exact fun _ => rfl | exact fun h => absurd (by decide) h
    · intro s j f hj
      cases hj
      unfold Server.subs
      rw [Server.update_sessions_self]
      rfl

/-- A command that is not run, or not of the subscribe family, leaves the subscriptions as they are. -/
theorem Subs.after_eq_self {q : Request} (i : SessionId) (p : Subs)
    (h : ∀ c, Cmd.ofName q.name = some c → ¬c.Accepts q.args.length ∨ c ∉ subscribeCommands) : Subs.after i q p = p := by
  unfold Subs.after
  cases hc : Cmd.ofName q.name with
  | none => rfl
  | some c =>
    obtain hacc | hs := h c hc
    · cases c
      case SUBSCRIBE | PSUBSCRIBE =>
        cases hargs : q.args with
        | nil => rfl
        | cons arg args =>
          rw [hargs] at hacc
          exact absurd ⟨Nat.le_add_left .., nofun⟩ hacc
      case UNSUBSCRIBE | PUNSUBSCRIBE => exact absurd ⟨Nat.zero_le _, nofun⟩ hacc
      all_goals rfl
    · revert hs
      cases c <;> first | exact fun _ => rfl | exact fun h => absurd (by decide) h

/-- What a replayed command leaves of the subscriptions. -/
theorem direct_subs (q : Request) (i : SessionId) (r : Env × Clock) (s : Server F) :
    (_dispatch_direct q (some i) true r s).2.subs i = Subs.after i q (s.subs i) := by
  rw [_dispatch_direct_eq]
  cases hroute : directRoute q (some i) (s.subscribed (some i)) true with
  | run c => exact runHandler_subs (run_of_directRoute hroute).1 i r s
  | multi j =>
    obtain ⟨hname, hj⟩ := multi_of_directRoute hroute
    cases hj
    rw [Subs.after_eq_self i _ fun c hc => by rw [ofName_words (.inl hname)] at hc; cases hc]
    dsimp only [openMulti]
    unfold Server.subs
    simp only [bind_run, modify_run, pure_run, Server.update_sessions_self]
    rfl
  | answer frame =>
    rw [Subs.after_eq_self i _ fun c hc => ?_]
    · cases frame <;> rfl
    · obtain hacc | ⟨hb, -⟩ | ⟨-, rfl⟩ := answer_of_directRoute hroute hc
      · exact .inl hacc
      · cases hb
      · exact .inr (by decide)

/-- A replayed command that has no reply has pushed a frame to its session. -/
theorem direct_none_collected {q : Request} {i : SessionId} {r : Env × Clock} {s s' : Server F}
    (hs : (s.sessions i).sender = some .collector) (h : _dispatch_direct q (some i) true r s = (.ok none, s')) :
    (s'.sessions i).collected ≠ [] := by
  rw [_dispatch_direct_eq] at h
  have hanswer : ∀ frame : Option Bytes, answer frame r s ≠ (.ok none, s') := by
    intro frame
    cases frame <;> nofun
  have hdecorated : ∀ m : M F Reply, runDecorated m r s ≠ (.ok none, s') := by
    intro m
    rw [runDecorated_run]
    nofun
  -- a session method that has no reply has returned none
  have hsession : ∀ {m : M F (Option Reply)}, runSession m r s = (.ok none, s') → m r s = (.ok none, s') := by
    intro m h
    rw [runSession_run] at h
    cases hm : m r s with
    | mk out t =>
      rw [hm] at h
      obtain ⟨hout, rfl⟩ := Prod.mk.inj h
      unfold sessionFrame at hout
      split at hout
      · rename_i e
        rw [show out = .ok none from e]
      · split at hout <;> cases hout
      · cases hout
  cases hroute : directRoute q (some i) (s.subscribed (some i)) true with
  | answer frame =>
    rw [hroute] at h
    exact absurd h (hanswer frame)
  | multi j =>
    rw [hroute] at h
    cases h
  | run c =>
    rw [hroute] at h
    dsimp only at h
    have hacc := (run_of_directRoute hroute).2
    obtain ⟨method, hm⟩ | hserver := handler_cases (F := F) c
    · rw [hm] at h
      exact absurd h (hdecorated _)
    · simp only [serverCommands, List.mem_cons, List.not_mem_nil, or_false] at hserver
      have hne : c.minArgs = 1 → q.args ≠ [] := by
        intro hmin e
        have := hacc.1
        rw [hmin, e] at this
        exact absurd this (by decide)
      rcases hserver with rfl | rfl | rfl | rfl | rfl | rfl | rfl | rfl | rfl | rfl | rfl | rfl | rfl
      · cases (ends_WATCH (some i) q.args).ok (hsession h)
      · cases (ends_UNWATCH (some i) q.args).ok (hsession h)
      · exact absurd h (hdecorated _)
      · exact absurd h (hdecorated _)
      · exact absurd h (hdecorated _)
      · exact absurd h (hdecorated _)
      · exact absurd h (hdecorated _)
      · exact subscribeAll_collected (hne rfl) hs (hsession h)
      · exact unsubscribeAll_collected hs (hsession h)
      · exact subscribeAll_collected (hne rfl) hs (hsession h)
      · exact unsubscribeAll_collected hs (hsession h)
      · obtain ⟨n, hn⟩ := (ends_PUBLISH q.args).ok (hsession h)
        cases hn
      · exact absurd rfl ((PUBSUB_ne_none q.args).ok (hsession h))

/-! ## EXEC -/

/-- One replayed command, run with the collector as sender. -/
theorem replayOne_run (i : SessionId) (q : Request) (r : Env × Clock) (s : Server F) :
    replayOne i q r s =
      let start := s.update i fun st => { st with sender := some .collector, collected := [] }
      let stop := (_dispatch_direct q (some i) true r start).2
      let back := stop.update i fun st => { st with sender := (s.sessions i).sender, collected := [] }
      match (_dispatch_direct q (some i) true r start).1 with
      | .ok frame => (.ok (frame, (stop.sessions i).collected), back)
      | .error _ => (.error (), back) := by
  unfold replayOne
  simp only [bind_run, get_run, modify_run, attempt]
  cases (_dispatch_direct q (some i) true r (s.update i fun st => { st with sender := some .collector, collected := [] })).1
    <;> rfl

theorem replayOne_subs (i : SessionId) (q : Request) (r : Env × Clock) (s : Server F) :
    (replayOne i q r s).2.subs i = Subs.after i q (s.subs i) := by
  have hstart := update_subs s i (f := fun st => { st with sender := some .collector, collected := [] }) fun _ => rfl
  rw [← hstart, ← direct_subs q i r, replayOne_run]
  have hback := update_subs (_dispatch_direct q (some i) true r
    (s.update i fun st => { st with sender := some .collector, collected := [] })).2 i
    (f := fun st => { st with sender := (s.sessions i).sender, collected := [] }) fun _ => rfl
  rw [← hback]
  dsimp only
  cases (_dispatch_direct q (some i) true r (s.update i fun st => { st with sender := some .collector, collected := [] })).1
    <;> rfl

/-- A replay respects what the replay of each command respects. -/
theorem respects_replay {R : Server F → Server F → Prop} [IsPreorder (Server F) R] {i : SessionId} {queue : List Request}
    (h : ∀ q ∈ queue, Respects R (replayOne i q)) : Respects R (replay i queue) := by
  induction queue with
  | nil => exact .pure
  | cons q queue ih =>
    refine .bind (h q (by simp)) fun p => .bind (ih fun q hq => h q (by simp [hq])) fun rest => ?_
    dsimp only
    split
    · exact .pure
    · exact .pure

/-- EXEC closes the transaction, and replays the queue unless a watched key was changed or nothing was queued. -/
theorem exec_run (i : SessionId) (r : Env × Clock) (s : Server F) :
    exec i r s =
      let closed := s.update i fun st => { st with queue := [], in_multi := false, watched := ∅ }
      if (s.sessions i).dirty s.data.toStore r.2.mono then (.ok (protocolBuilder .NIL_ARRAY), closed)
      else if (s.sessions i).queue = [] then (.ok (protocolBuilder (.list [])), closed)
      else (replay i (s.sessions i).queue >>= fun rest => orEscape (joinParts rest.1) >>= fun body =>
        pure (some (42 :: decimalNat (s.sessions i).queue.length ++ SYM_CRLF ++ body ++ rest.2.flatten))) r closed := by
  unfold exec
  rw [bind_ok r s (ask_run r s), bind_ok r s (get_run r s)]
  dsimp only
  rw [bind_ok r s (modify_run r s _)]
  split
  · rfl
  · split <;> rfl

/-- The server with the transaction of a session closed. -/
def Server.close (s : Server F) (i : SessionId) : Server F :=
  s.update i fun st => { st with queue := [], in_multi := false, watched := ∅ }

/-- EXEC leaves the server as it closed the transaction, or as the replay of the queue leaves it then. -/
theorem exec_state (i : SessionId) (r : Env × Clock) (s : Server F) :
    (exec i r s).2 = s.close i ∨ (exec i r s).2 = (replay i (s.sessions i).queue r (s.close i)).2 := by
  rw [exec_run]
  dsimp only
  split
  · exact .inl rfl
  · split
    · exact .inl rfl
    · right
      rw [bind_run]
      unfold Server.close
      cases replay i (s.sessions i).queue r (s.update i fun st => { st with queue := [], in_multi := false, watched := ∅ }) with
      | mk out t =>
        cases out with
        | error e => rfl
        | ok rest =>
          dsimp only
          cases joinParts rest.1 <;> rfl

end Kagni
