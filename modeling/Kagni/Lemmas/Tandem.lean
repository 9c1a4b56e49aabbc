import Kagni.Lemmas.Computes
import Kagni.Lib.Alike
import Kagni.Lemmas.Server

/-!
# The commands of the server run alike

What a command reads of the server must be the same for two servers on which it is to run alike, and what it changes must keep
them related. Every command but a keyspace program reads and changes little.
-/

namespace Kagni

open Lib Lib.Prog

variable {F : Type} {α β : Type}

/-- What a program computes does not depend on the state, nor on the subscribers. -/
theorem Computes.same {m : K F α} {Q : α → Prop} (h : Computes m Q) (ctx ctx' : Ctx) (henv : ctx.env = ctx'.env)
    (hclock : ctx.clock = ctx'.clock) (hport : ctx.tcp_port = ctx'.tcp_port) (k k' : KState F) :
    (m ctx k).1 = (m ctx' k').1 ∧ (m ctx k).2 = k ∧ (m ctx' k').2 = k' := by
  obtain ⟨out, hrun, -⟩ := h.run ctx
  obtain ⟨out', hrun', -⟩ := h.run ctx'
  replace h : Built Asking (∅ : Set Value) m Q := h
  have hleaf : ∀ {S S' : Set Value} {α : Type} {m : K F α} {Q : α → Prop}, Asking S α m Q S' → ∀ k k' : KState F,
      (m ctx k).1 = (m ctx' k').1 ∧ True ∧ ∀ a, (m ctx k).1 = .ok a → Q a ∧ True := by
    rintro S S' α m Q ⟨f⟩ k k'
    refine ⟨?_, trivial, fun a ha => ⟨⟨_, _, _, (Except.ok.inj ha).symm⟩, trivial⟩⟩
    dsimp only
    rw [henv, hclock, hport]
  have hend : Built.Lockstep (fun _ _ => True) Q (m ctx k) (m ctx' k') :=
    Built.lockstep (R := fun _ _ _ => True) (fun _ _ _ => id) (fun h _ s s' _ => hleaf h s s') h trivial
  exact ⟨hend.1, by rw [hrun], by rw [hrun']⟩

/-- What WATCH does with one key. -/
def watchOne (i : SessionId) (key : Value) (now : Int) (s : Server F) : Server F :=
  s.update i fun st => { st with watched := st.watched.set key (s.data.generation key, s.data.is_live key now) }

section Server

variable {r : Env × Clock} {R : Server F → Server F → Prop} {state : Option SessionId}

/-! ## Parts of a method -/

theorem alike_liftK {m : K F α} (h : ∀ s s', R s s' → (m (s.ctx r.1 r.2) s.kstate).1 = (m (s'.ctx r.1 r.2) s'.kstate).1 ∧
    R (s.absorb (m (s.ctx r.1 r.2) s.kstate).2) (s'.absorb (m (s'.ctx r.1 r.2) s'.kstate).2)) : Alike r R (liftK m) := by
  intro s s' hs
  obtain ⟨hout, hend⟩ := h s s' hs
  unfold liftK
  revert hout hend
  cases m (s.ctx r.1 r.2) s.kstate with
  | mk out k =>
    cases m (s'.ctx r.1 r.2) s'.kstate with
    | mk out' k' =>
      rintro ⟨⟩ hend
      cases out
      all_goals exact ⟨rfl, hend⟩

theorem alike_computes (hport : ∀ s s', R s s' → s.tcp_port = s'.tcp_port) {m : K F α} {Q : α → Prop} (h : Computes m Q) :
    Alike r R (liftK m) := by
  refine alike_liftK ?_
  intro s s' hs
  obtain ⟨hout, hk, hk'⟩ := h.same (s.ctx r.1 r.2) (s'.ctx r.1 r.2) rfl rfl (hport s s' hs) s.kstate s'.kstate
  rw [hk, hk']
  exact ⟨hout, hs⟩

theorem alike_session {f : SessionId → M F α} (h : ∀ i, state = some i → Alike r R (f i)) : Alike r R (_session state >>= f) := by
  cases state with
  | none => exact .raise
  | some i => exact h i rfl

theorem alike_confirm {i : SessionId}
    (hcount : ∀ s s', R s s' → (s.sessions i).subscription_count = (s'.sessions i).subscription_count)
    (hdeliver : ∀ s s' frame, R s s' → R (s.update i (·.deliver frame)) (s'.update i (·.deliver frame)))
    (kind : Bytes) (name : Reply) :
    Alike r R (confirm i kind name) := by
  refine .get_bind (fun s s' hs => ?_) fun s => ?_
  · rw [hcount s s' hs]
  · dsimp only
    split
    · exact .modify fun s s' hs => hdeliver s s' _ hs
    · exact .raise

theorem alike_runDecorated {m : M F Reply} (hm : Alike r R m) : Alike r R (runDecorated m) := by
  refine .bind (.attempt (.bind hm fun reply => ?_)) fun out => ?_
  · split
    · exact .pure
    · exact .raise
  · split
    · exact .pure
    · exact .pure

theorem alike_runSession {m : M F (Option Reply)} (hm : Alike r R m) : Alike r R (runSession m) := by
  refine .bind (.attempt hm) ?_
  intro out
  split
  · exact .pure
  · refine .bind ?_ fun _ => .pure
    unfold orEscape
    split
    · exact .pure
    · exact .raise
  · exact .pure

/-! ## The methods -/

/-- What a command of the caller `state` asks of two related servers. -/
structure Tandem (r : Env × Clock) (R : Server F → Server F → Prop) (state : Option SessionId) (c : Cmd) : Prop where
  port : ∀ s s', R s s' → s.tcp_port = s'.tcp_port
  watch : c = .WATCH → ∀ i, state = some i → ∀ key s s', R s s' → R (watchOne i key r.2.mono s) (watchOne i key r.2.mono s')
  unwatch : c = .UNWATCH → ∀ i, state = some i → ∀ s s', R s s' →
    R (s.update i fun st => { st with watched := ∅ }) (s'.update i fun st => { st with watched := ∅ })
  flags : c = .CONFIG → ∀ s s', R s s' → s.notify_keyspace_events = s'.notify_keyspace_events ∧
    ∀ flags, R { s with notify_keyspace_events := flags } { s' with notify_keyspace_events := flags }
  flush : c = .FLUSHDB ∨ c = .FLUSHALL → ∀ s s', R s s' → R { s with data := s.data.clear } { s' with data := s'.data.clear } ∧
    R { s with table := s.table.map DB.flush } { s' with table := s'.table.map DB.flush }
  names : c ∈ subscribeCommands → ∀ i, state = some i → ∀ s s', R s s' → (s.sessions i).names = (s'.sessions i).names ∧
    (∀ topic name, R (subscribeOne topic i name s) (subscribeOne topic i name s')) ∧
    (∀ topic name, R (unsubscribeOne topic i name s) (unsubscribeOne topic i name s')) ∧
    ∀ frame, R (s.update i (·.deliver frame)) (s'.update i (·.deliver frame))
  publish : c = .PUBLISH → ∀ channel message, Alike r R (liftK (publish channel message))
  hub : c = .PUBSUB → ∀ s s', R s s' → s.hub = s'.hub

namespace Tandem

theorem alike_WATCH (h : Tandem r R state .WATCH) (keys : List Value) : Alike r R (WATCH state keys) := by
  refine alike_session ?_
  intro i hi
  refine .bind (.each fun key _ => ?_) fun _ => .pure
  refine .bind (alike_computes h.port (computes_needHash key)) ?_
  intro _ s s' hs
  exact ⟨rfl, h.watch rfl i hi key s s' hs⟩

theorem alike_UNWATCH (h : Tandem r R state .UNWATCH) (args : List Value) : Alike r R (UNWATCH state args) := by
  refine .ite (fun _ => .bind .raise fun _ => ?_) fun _ => ?_
  all_goals exact alike_session fun i hi => .bind (.modify (h.unwatch rfl i hi)) fun _ => .pure

theorem alike_COMMAND (h : Tandem r R state .COMMAND) (args : List Value) : Alike r R (COMMAND args) := by
  unfold COMMAND
  split
  · exact .pure
  · refine .bind (alike_computes h.port (computes_asBytes _)) ?_
    intro raw
    refine .ite (fun _ => .pure) ?_
    intro _
    refine .ite (fun _ => .ite (fun _ => .pure) fun _ => ?_) fun _ => .raise
    have hmap : ∀ xs : List Value, Computes (mapM_ upperArg xs : K F _) fun _ => True := fun xs =>
      (built_mapM fun x _ => (computes_upperArg x).weaken fun _ _ => trivial).weaken fun _ _ => trivial
    exact .bind (alike_computes h.port (hmap _)) fun _ => .pure

theorem alike_CLIENT (h : Tandem r R state .CLIENT) (args : List Value) : Alike r R (CLIENT args) := by
  unfold CLIENT
  split
  · exact .raise
  · refine .bind (alike_computes h.port (computes_asBytes _)) ?_
    intro raw
    refine .ite (fun _ => .pure) ?_
    intro _
    refine .ite (fun _ => .pure) ?_
    intro _
    refine .ite (fun _ => .pure) ?_
    intro _
    exact .ite (fun _ => .pure) fun _ => .raise

theorem alike_CONFIG (h : Tandem r R state .CONFIG) (args : List Value) : Alike r R (CONFIG args) := by
  unfold CONFIG
  split
  · exact .raise
  · refine .bind (alike_computes h.port (computes_asBytes _)) ?_
    intro raw
    refine .ite (fun _ => ?_) fun _ => .ite (fun _ => ?_) fun _ => .raise
    · split
      · refine .bind (alike_computes h.port (computes_compile_glob _)) ?_
        intro _
        refine .get_bind (fun s s' hs => ?_) fun _ => .pure
        dsimp only
        rw [(h.flags rfl s s' hs).1]
      · exact .raise
    · split
      · refine .bind (alike_computes h.port (computes_asBytes _)) ?_
        intro param
        refine .ite (fun _ => ?_) fun _ => .raise
        refine .bind (alike_computes h.port (computes_asBytes _)) ?_
        intro value
        refine .ite (fun _ => ?_) fun _ => .raise
        exact .bind (.modify fun s s' hs => (h.flags rfl s s' hs).2 value) fun _ => .pure
      · exact .raise

theorem alike_flush {c : Cmd} (h : Tandem r R state c) (hc : c = .FLUSHDB ∨ c = .FLUSHALL) :
    Alike r R (_flush_all : M F Reply) := by
  refine .bind (.modify fun s s' hs => (h.flush hc s s' hs).1) ?_
  intro _
  exact .bind (.modify fun s s' hs => (h.flush hc s s' hs).2) fun _ => .pure

theorem alike_confirmed {c : Cmd} (h : Tandem r R state c) (hc : c ∈ subscribeCommands) {i : SessionId}
    (hi : state = some i) (kind : Bytes)
    (name : Reply) : Alike r R (confirm i kind name) := by
  refine alike_confirm (fun s s' hs => ?_) (fun s s' frame hs => (h.names hc i hi s s' hs).2.2.2 frame) kind name
  have hnames := (h.names hc i hi s s' hs).1
  have hchannels : (s.sessions i).channels = (s'.sessions i).channels := congrFun hnames .channels
  have hpatterns : (s.sessions i).patterns = (s'.sessions i).patterns := congrFun hnames .patterns
  unfold Session.subscription_count
  rw [hchannels, hpatterns]

theorem alike_subscribeAll {c : Cmd} (h : Tandem r R state c) (hc : c ∈ subscribeCommands) (topic : Topic) (kind : Bytes)
    (names : List Value) :
    Alike r R (subscribeAll topic kind state names) := by
  refine alike_session ?_
  intro i hi
  refine .bind (.each fun name _ => ?_) fun _ => .pure
  refine .bind (alike_computes h.port (computes_needHash name)) ?_
  intro _
  exact .bind (.modify fun s s' hs => (h.names hc i hi s s' hs).2.1 topic name) fun _ => h.alike_confirmed hc hi kind _

theorem alike_unsubscribeAll {c : Cmd} (h : Tandem r R state c) (hc : c ∈ subscribeCommands) (topic : Topic) (kind : Bytes)
    (names : List Value) : Alike r R (unsubscribeAll topic kind state names) := by
  refine alike_session ?_
  intro i hi
  refine .get_bind (fun s s' hs => ?_) fun s => ?_
  · dsimp only
    rw [(h.names hc i hi s s' hs).1]
  have hwanted : ∀ wanted, Alike r R (do
      Prog.each (fun name => do
        liftK (needHash name)
        Prog.modify (unsubscribeOne topic i name)
        confirm i kind (.ofValue name)) wanted
      if names = [] ∧ ((s.sessions i).names topic).elems = [] then confirm i kind .NIL
      return none : M F (Option Reply)) := by
    intro wanted
    refine .bind (.each fun name _ => ?_) fun _ => ?_
    · refine .bind (alike_computes h.port (computes_needHash name)) ?_
      intro _
      exact .bind (.modify fun s s' hs => (h.names hc i hi s s' hs).2.2.1 topic name) fun _ => h.alike_confirmed hc hi kind _
    · exact .ite (fun _ => .bind (h.alike_confirmed hc hi kind _) fun _ => .pure) fun _ => .pure
  dsimp only
  cases names with
  | nil =>
    dsimp only
    split
    · exact hwanted _
    · exact .raise
  | cons name names => exact hwanted _

theorem alike_PUBLISH (h : Tandem r R state .PUBLISH) (args : List Value) : Alike r R (PUBLISH args) := by
  unfold PUBLISH
  split
  · exact .bind (h.publish rfl _ _) fun _ => .pure
  · exact .raise

/-- What is computed from the subscriptions. -/
theorem alike_of_hub (hport : ∀ s s', R s s' → s.tcp_port = s'.tcp_port) (hhub : ∀ s s', R s s' → s.hub = s'.hub) {m : K F α}
    {f : PubSubHub → K F α} {Q : α → Prop} (hm : ∀ ctx k, m ctx k = f ctx.hub ctx k) (h : ∀ hub, Computes (f hub) Q) :
    Alike r R (liftK m) := by
  refine alike_liftK ?_
  intro s s' hs
  obtain ⟨hout, hk, hk'⟩ := Computes.same (h s.hub) (s.ctx r.1 r.2) (s'.ctx r.1 r.2) rfl rfl (hport s s' hs) s.kstate s'.kstate
  rw [hm, hm]
  change (f s.hub _ _).1 = (f s'.hub _ _).1 ∧ R (s.absorb (f s.hub _ _).2) (s'.absorb (f s'.hub _ _).2)
  rw [← hhub s s' hs, hk, hk']
  exact ⟨hout, hs⟩

theorem alike_active_channels (h : Tandem r R state .PUBSUB) (pattern : Option Value) :
    Alike r R (liftK (active_channels pattern : K F _)) := by
  let f : PubSubHub → Option (Bytes → Bool) → K F (List Value) := fun hub rgx =>
    rgx.elim (pure hub.active_channels) fun matcher => filterM_ (matches_ matcher) hub.active_channels
  refine alike_of_hub h.port (h.hub rfl) (Q := fun _ => True) (f := fun hub => compilePattern pattern >>= f hub)
    (fun ctx k => ?_) fun hub {_} =>
    (computes_compilePattern pattern).bind fun rgx _ => ?_
  · refine congrFun (congrFun (congrArg (compilePattern pattern >>= ·) (funext fun rgx => ?_)) ctx) k
    cases rgx <;> rfl
  · cases rgx with
    | none => exact .pure trivial
    | some matcher => exact (built_filterM fun x _ => computes_matches matcher x).weaken fun _ _ => trivial

theorem alike_numsubs (h : Tandem r R state .PUBSUB) (channels : List Value) : Alike r R (liftK (numsubs channels : K F Reply)) :=
  alike_of_hub h.port (h.hub rfl) (Q := fun _ => True) (f := fun hub => do
    Prog.each needHash channels
    return .list (channels.flatMap fun c => [.ofValue c, .int (hub.numsub c)])) (fun _ _ => rfl) fun _ {_} =>
      (Built.each fun c _ => computes_needHash c).bind fun _ _ => .pure trivial

theorem alike_PUBSUB (h : Tandem r R state .PUBSUB) (args : List Value) : Alike r R (PUBSUB args) := by
  unfold PUBSUB
  split
  · exact .raise
  · refine .bind (alike_computes h.port (computes_asBytes _)) ?_
    intro raw
    refine .ite (fun _ => ?_) fun _ => .ite (fun _ => ?_) fun _ => .ite (fun _ => ?_) fun _ => .raise
    · split
      · exact .bind (h.alike_active_channels _) fun _ => .pure
      · exact .bind (h.alike_active_channels _) fun _ => .pure
      · exact alike_computes h.port (Q := fun _ => True) fun {_} => .raise _
    · exact .bind (h.alike_numsubs _) fun _ => .pure
    · refine .get_bind (fun s s' hs => ?_) fun _ => .pure
      rw [h.hub rfl s s' hs]

variable [PyFloat F]

/-- A command runs alike if its method does, where it is a keyspace program. -/
theorem runHandler {c : Cmd} (h : Tandem r R state c) {args : List Value}
    (hk : ∀ method, (handler c : Handler F) = .keyspace method → Alike r R (liftK (method args))) :
    Alike r R (runHandler (handler c) state args) := by
  obtain ⟨method, hm⟩ | hs := handler_cases (F := F) c
  · rw [hm]
    exact alike_runDecorated (hk method hm)
  · simp only [serverCommands, List.mem_cons, List.not_mem_nil, or_false] at hs
    rcases hs with rfl | rfl | rfl | rfl | rfl | rfl | rfl | rfl | rfl | rfl | rfl | rfl | rfl
    · exact alike_runSession (h.alike_WATCH args)
    · exact alike_runSession (h.alike_UNWATCH args)
    · exact alike_runDecorated (h.alike_COMMAND args)
    · exact alike_runDecorated (h.alike_CLIENT args)
    · exact alike_runDecorated (h.alike_CONFIG args)
    · refine alike_runDecorated ?_
      dsimp only
      split
      · exact h.alike_flush (.inl rfl)
      · exact .raise
    · refine alike_runDecorated ?_
      dsimp only
      split
      · exact h.alike_flush (.inr rfl)
      · exact .raise
    · exact alike_runSession (h.alike_subscribeAll (by decide) _ _ _)
    · exact alike_runSession (h.alike_unsubscribeAll (by decide) _ _ _)
    · exact alike_runSession (h.alike_subscribeAll (by decide) _ _ _)
    · exact alike_runSession (h.alike_unsubscribeAll (by decide) _ _ _)
    · exact alike_runSession (h.alike_PUBLISH args)
    · exact alike_runSession (h.alike_PUBSUB args)

end Tandem

end Server

end Kagni
