import Kagni.Dispatch
import Kagni.Lemmas.Expiry

/-!
# What a command may do to the server

Below the dispatcher the server changes in six ways: a keyspace command ends, a frame is delivered, the notification flags change,
the subscriptions of the calling session change, its watched keys do, or everything is flushed. A relation that survives the
changes a command makes is respected by the command; that is proved here once for all commands.
-/

namespace Kagni

open Lib Lib.Prog

variable {F : Type}

/-! ## The primitive changes -/

namespace Server

@[simp] theorem update_data (s : Server F) (i : SessionId) (f : Session → Session) : (s.update i f).data = s.data := rfl

@[simp] theorem update_table (s : Server F) (i : SessionId) (f : Session → Session) : (s.update i f).table = s.table := rfl

@[simp] theorem update_hub (s : Server F) (i : SessionId) (f : Session → Session) : (s.update i f).hub = s.hub := rfl

theorem update_sessions (s : Server F) (i j : SessionId) (f : Session → Session) :
    (s.update i f).sessions j = if j = i then f (s.sessions i) else s.sessions j := by
  by_cases h : j = i
  · subst h
    simp [update]
  · simp [update, h]

@[simp] theorem update_sessions_self (s : Server F) (i : SessionId) (f : Session → Session) :
    (s.update i f).sessions i = f (s.sessions i) := by rw [update_sessions, if_pos rfl]

end Server

/-- A relation between two states of the server that survives what any command does: the end of a keyspace command, a delivered
frame, and a change of the notification flags. -/
structure Quiet (R : Server F → Server F → Prop) : Prop extends IsPreorder (Server F) R where
  /-- The store, the random draws and the frames of a keyspace command. -/
  store : ∀ (s : Server F) (k : KState F), R s { s with data := { s.data with toStore := k.store }, draws := k.draws }
  deliver : ∀ (s : Server F) i frame, R s (s.update i (·.deliver frame))
  flags : ∀ (s : Server F) flags, R s { s with notify_keyspace_events := flags }

/-- A relation that survives what most commands do when they leave the store alone: a random draw and a delivered frame. -/
structure Calm (R : Server F → Server F → Prop) : Prop extends IsPreorder (Server F) R where
  draws : ∀ (s : Server F) draws, R s { s with draws := draws }
  deliver : ∀ (s : Server F) i frame, R s (s.update i (·.deliver frame))

/-- The relation survives a change of the notification flags. -/
def ChangesFlags (R : Server F → Server F → Prop) : Prop := ∀ (s : Server F) flags, R s { s with notify_keyspace_events := flags }

/-- The relation survives a change of the caller's subscriptions. -/
def ChangesNames (R : Server F → Server F → Prop) (state : Option SessionId) : Prop :=
  ∀ (s : Server F) i topic f hub, state = some i → R s { s.update i (·.withNames f topic) with hub := hub }

/-- What SUBSCRIBE and PSUBSCRIBE do with one name. -/
def subscribeOne (topic : Topic) (i : SessionId) (name : Value) (s : Server F) : Server F :=
  { s.update i (·.withNames (·.insert name) topic) with hub := s.hub.subscribe topic i name }

/-- What UNSUBSCRIBE and PUNSUBSCRIBE do with one name. -/
def unsubscribeOne (topic : Topic) (i : SessionId) (name : Value) (s : Server F) : Server F :=
  { s.update i (·.withNames (·.erase name) topic) with hub := s.hub.unsubscribe topic i name }

/-- The relation survives a change of the caller's watched keys. -/
def ChangesWatched (R : Server F → Server F → Prop) (state : Option SessionId) : Prop :=
  ∀ (s : Server F) (i : SessionId) (f : Session → Dict Value (Nat × Bool)), state = some i →
    R s (s.update i fun st => { st with watched := f st })

/-- The relation survives a flush. -/
def SurvivesFlush (R : Server F → Server F → Prop) : Prop :=
  ∀ s : Server F, R s { s with data := s.data.clear } ∧ R s { s with table := s.table.map DB.flush }

/-! ## Programs that leave the store alone -/

theorem sameStore_asBytes (v : Value) : Respects SameStore (asBytes v : K F Bytes) := by
  cases v with
  | bytes b => exact .pure
  | _ => exact .raise

theorem sameStore_upperArg (v : Value) : Respects SameStore (upperArg v : K F Bytes) :=
  .bind (sameStore_asBytes v) fun _ => .pure

theorem sameStore_mapM {α β : Type} {f : α → K F β} (h : ∀ x, Respects SameStore (f x)) (xs : List α) :
    Respects SameStore (mapM_ f xs) := by
  induction xs with
  | nil => exact .pure
  | cons x xs ih =>
    refine .bind (h x) ?_
    intro _
    exact .bind ih fun _ => .pure

theorem sameStore_filterM {α : Type} {p : α → K F Bool} (h : ∀ x, Respects SameStore (p x)) (xs : List α) :
    Respects SameStore (filterM_ p xs) := by
  induction xs with
  | nil => exact .pure
  | cons x xs ih =>
    refine .bind (h x) ?_
    intro _
    exact .bind ih fun _ => .pure

theorem sameStore_active_channels (pattern : Option Value) : Respects SameStore (active_channels pattern : K F _) := by
  refine .bind .ask ?_
  intro ctx
  refine .bind (?_ : Respects SameStore (compilePattern pattern : K F _)) fun matcher => ?_
  · unfold compilePattern
    split
    · exact .pure
    · exact .pure
    · exact .bind (sameStore_compile_glob _) fun _ => .pure
  · cases matcher with
    | none => exact .pure
    | some matcher => exact sameStore_filterM (sameStore_matches matcher) _

theorem sameStore_numsubs (channels : List Value) : Respects SameStore (numsubs channels : K F Reply) := by
  refine .bind (.each fun c _ => sameStore_needHash c) ?_
  intro _
  exact .bind .ask fun _ => .pure

namespace Calm

variable {R : Server F → Server F → Prop} {state : Option SessionId} {α : Type}

theorem push (h : Calm R) (s : Server F) (frames : List (SessionId × Bytes)) : R s (s.push frames) := by
  have := h.toIsPreorder
  induction frames generalizing s with
  | nil => exact refl_of R s
  | cons p frames ih => exact trans_of R (h.deliver s p.1 p.2) (ih _)

/-- A keyspace program that leaves the store alone. -/
theorem liftK (h : Calm R) {m : K F α} (hm : Respects SameStore m) : Respects R (liftK m) := by
  intro r s
  have := h.toIsPreorder
  have hstore : ∀ k : KState F, k.store = s.data.toStore → R s (s.absorb k) := by
    intro k hk
    unfold Server.absorb
    rw [hk]
    exact trans_of R (h.draws s k.draws) (h.push _ k.pushed)
  have hsame := hm (s.ctx r.1 r.2) s.kstate
  unfold Kagni.liftK
  revert hsame
  cases m (s.ctx r.1 r.2) s.kstate with
  | mk out k => cases out <;> exact hstore k

theorem confirm (h : Calm R) (i : SessionId) (kind : Bytes) (name : Reply) : Respects R (confirm i kind name) := by
  have := h.toIsPreorder
  refine .bind .get ?_
  intro s
  dsimp only
  split
  · exact .modify fun s => h.deliver s i _
  · exact .raise

/-- `_session` returns the session it is given. -/
theorem session_bind (h : Calm R) {f : SessionId → M F α} (hf : ∀ i, state = some i → Respects R (f i)) :
    Respects R (_session state >>= f) := by
  have := h.toIsPreorder
  cases state with
  | none => exact .raise
  | some i => exact hf i rfl

theorem subscribeAll (h : Calm R) {topic : Topic} {names : List Value}
    (hn : ∀ i, state = some i → ∀ name ∈ names, ∀ s, R s (subscribeOne topic i name s)) (kind : Bytes) :
    Respects R (subscribeAll topic kind state names : M F _) := by
  have := h.toIsPreorder
  refine h.session_bind ?_
  intro i hi
  refine .bind (.each fun name hname => ?_) fun _ => .pure
  refine .bind (h.liftK (sameStore_needHash name)) ?_
  intro _
  exact .bind (.modify (hn i hi name hname)) fun _ => h.confirm i kind _

theorem unsubscribeAll (h : Calm R) {topic : Topic} (hn : ∀ i, state = some i → ∀ name s, R s (unsubscribeOne topic i name s))
    (kind : Bytes) (names : List Value) : Respects R (unsubscribeAll topic kind state names : M F _) := by
  have := h.toIsPreorder
  refine h.session_bind ?_
  intro i hi
  refine .bind .get ?_
  intro s
  have hwanted : ∀ wanted, Respects R (do
      Prog.each (fun name => do
        Kagni.liftK (needHash name)
        Prog.modify (unsubscribeOne topic i name)
        Kagni.confirm i kind (.ofValue name)) wanted
      if names = [] ∧ ((s.sessions i).names topic).elems = [] then Kagni.confirm i kind .NIL
      return none : M F (Option Reply)) := by
    intro wanted
    refine .bind (.each fun name _ => ?_) fun _ => ?_
    · refine .bind (h.liftK (sameStore_needHash name)) ?_
      intro _
      exact .bind (.modify (hn i hi name)) fun _ => h.confirm i kind _
    · exact .ite (fun _ => .bind (h.confirm i kind _) fun _ => .pure) fun _ => .pure
  dsimp only
  cases names with
  | nil =>
    dsimp only
    split
    · exact hwanted _
    · exact .raise
  | cons name names => exact hwanted _

theorem WATCH (h : Calm R) (hw : ChangesWatched R state)
    (keys : List Value) : Respects R (WATCH state keys : M F _) := by
  have := h.toIsPreorder
  refine h.session_bind ?_
  intro i hi
  refine .bind (.each fun key _ => ?_) fun _ => .pure
  refine .bind (h.liftK (sameStore_needHash key)) ?_
  intro _
  refine .bind .ask ?_
  intro r
  exact .modify fun s => hw s i _ hi

theorem UNWATCH (h : Calm R) (hw : ChangesWatched R state)
    (args : List Value) : Respects R (UNWATCH state args : M F _) := by
  have := h.toIsPreorder
  refine .ite (fun _ => .bind .raise fun _ => ?_) fun _ => ?_
  all_goals exact h.session_bind fun i hi => .bind (.modify fun s => hw s i _ hi) fun _ => .pure

theorem PUBLISH (h : Calm R) (args : List Value) : Respects R (PUBLISH args : M F _) := by
  have := h.toIsPreorder
  unfold Kagni.PUBLISH
  split
  · exact .bind (h.liftK (sameStore_publish _ _)) fun _ => .pure
  · exact .raise

theorem PUBSUB (h : Calm R) (args : List Value) : Respects R (PUBSUB args : M F _) := by
  have := h.toIsPreorder
  unfold Kagni.PUBSUB
  split
  · exact .raise
  · refine .bind (h.liftK (sameStore_asBytes _)) ?_
    intro raw
    refine .ite (fun _ => ?_) fun _ => .ite (fun _ => ?_) fun _ => .ite (fun _ => ?_) fun _ => ?_
    · split
      · exact .bind (h.liftK (sameStore_active_channels _)) fun _ => .pure
      · exact .bind (h.liftK (sameStore_active_channels _)) fun _ => .pure
      · exact h.liftK .raise
    · exact .bind (h.liftK (sameStore_numsubs _)) fun _ => .pure
    · exact .bind .get fun _ => .pure
    · exact .raise

theorem COMMAND (h : Calm R) (args : List Value) : Respects R (COMMAND args : M F _) := by
  have := h.toIsPreorder
  unfold Kagni.COMMAND
  split
  · exact .pure
  · refine .bind (h.liftK (sameStore_asBytes _)) ?_
    intro raw
    refine .ite (fun _ => .pure) ?_
    intro _
    refine .ite (fun _ => .ite (fun _ => .pure) fun _ => ?_) fun _ => .raise
    exact .bind (h.liftK (sameStore_mapM sameStore_upperArg _)) fun _ => .pure

theorem CLIENT (h : Calm R) (args : List Value) : Respects R (CLIENT args : M F _) := by
  have := h.toIsPreorder
  unfold Kagni.CLIENT
  split
  · exact .raise
  · refine .bind (h.liftK (sameStore_asBytes _)) ?_
    intro raw
    refine .ite (fun _ => .pure) ?_
    intro _
    refine .ite (fun _ => .pure) ?_
    intro _
    refine .ite (fun _ => .pure) ?_
    intro _
    exact .ite (fun _ => .pure) fun _ => .raise

theorem configSet (h : Calm R) (hc : ChangesFlags R) (param value : Value) : Respects R (configSet param value : M F _) := by
  have := h.toIsPreorder
  refine .bind (h.liftK (sameStore_asBytes param)) ?_
  intro param
  refine .ite (fun _ => ?_) fun _ => .raise
  refine .bind (h.liftK (sameStore_asBytes value)) ?_
  intro value
  refine .ite (fun _ => ?_) fun _ => .raise
  exact .bind (.modify fun s => hc s _) fun _ => .pure

theorem CONFIG (h : Calm R) (hc : ChangesFlags R) (args : List Value) : Respects R (CONFIG args : M F _) := by
  have := h.toIsPreorder
  unfold Kagni.CONFIG
  split
  · exact .raise
  · refine .bind (h.liftK (sameStore_asBytes _)) ?_
    intro raw
    refine .ite (fun _ => ?_) fun _ => .ite (fun _ => ?_) fun _ => .raise
    · split
      · refine .bind (h.liftK (sameStore_compile_glob _)) ?_
        intro _
        exact .bind .get fun _ => .pure
      · exact .raise
    · split
      · exact h.configSet hc _ _
      · exact .raise

theorem flush (h : Calm R) (hf : SurvivesFlush R) (args : List Value) :
    Respects R (match args with
      | [] => _flush_all
      | _ => crash : M F Reply) := by
  have := h.toIsPreorder
  split
  · refine .bind (.modify fun s => (hf s).1) ?_
    intro _
    exact .bind (.modify fun s => (hf s).2) fun _ => .pure
  · exact .raise

theorem runDecorated (h : Calm R) {m : M F Reply} (hm : Respects R m) : Respects R (runDecorated m) := by
  have := h.toIsPreorder
  refine .bind (.attempt (.bind hm fun reply => ?_)) fun out => ?_
  · split
    · exact .pure
    · exact .raise
  · split
    · exact .pure
    · exact .pure

theorem runSession (h : Calm R) {m : M F (Option Reply)} (hm : Respects R m) : Respects R (runSession m) := by
  have := h.toIsPreorder
  refine .bind (.attempt hm) ?_
  intro out
  split
  · exact .pure
  · refine .bind ?_ fun _ => .pure
    unfold orEscape
    split
    · exact .pure
    · exact .raise
  · exact .pure

end Calm

namespace Quiet

variable {R : Server F → Server F → Prop} {α : Type}

theorem calm (h : Quiet R) : Calm R where
  toIsPreorder := h.toIsPreorder
  draws s draws := h.store s { s.kstate with draws := draws }
  deliver := h.deliver

theorem absorb (h : Quiet R) (s : Server F) (k : KState F) : R s (s.absorb k) :=
  have := h.toIsPreorder
  trans_of R (h.store s k) (h.calm.push _ k.pushed)

theorem liftK (h : Quiet R) (m : K F α) : Respects R (liftK m) := by
  intro r s
  unfold Kagni.liftK
  split
  · exact h.absorb s _
  · exact h.absorb s _

end Quiet

/-- The commands whose method is not a keyspace program. -/
def serverCommands : List Cmd :=
  [.WATCH, .UNWATCH, .COMMAND, .CLIENT, .CONFIG, .FLUSHDB, .FLUSHALL, .SUBSCRIBE, .UNSUBSCRIBE, .PSUBSCRIBE, .PUNSUBSCRIBE,
    .PUBLISH, .PUBSUB]

/-- The commands that change the subscriptions of their caller. -/
def subscribeCommands : List Cmd := [.SUBSCRIBE, .UNSUBSCRIBE, .PSUBSCRIBE, .PUNSUBSCRIBE]

section Handler

variable [PyFloat F] {R : Server F → Server F → Prop} {state : Option SessionId}

theorem handler_cases (c : Cmd) : (∃ method, (handler c : Handler F) = .keyspace method) ∨ c ∈ serverCommands := by
  cases c
  all_goals first
    | exact .inl ⟨_, rfl⟩
    | exact .inr (by decide)

/-- A command respects a calm relation that its method respects, if it is a keyspace program, and that survives what only some
commands do, if it is one of those. -/
theorem Calm.runHandler (h : Calm R) {c : Cmd} {args : List Value}
    (hk : ∀ method, (handler c : Handler F) = .keyspace method → Respects R (Kagni.liftK (method args)))
    (hn : c ∈ subscribeCommands → ChangesNames R state) (hw : c = .WATCH ∨ c = .UNWATCH → ChangesWatched R state)
    (hf : c = .FLUSHDB ∨ c = .FLUSHALL → SurvivesFlush R) (hc : c = .CONFIG → ChangesFlags R) :
    Respects R (runHandler (handler c) state args) := by
  obtain ⟨method, hm⟩ | hs := handler_cases (F := F) c
  · rw [hm]
    exact h.runDecorated (hk method hm)
  · simp only [serverCommands, List.mem_cons, List.not_mem_nil, or_false] at hs
    rcases hs with rfl | rfl | rfl | rfl | rfl | rfl | rfl | rfl | rfl | rfl | rfl | rfl | rfl
    · exact h.runSession (h.WATCH (hw (.inl rfl)) args)
    · exact h.runSession (h.UNWATCH (hw (.inr rfl)) args)
    · exact h.runDecorated (h.COMMAND args)
    · exact h.runDecorated (h.CLIENT args)
    · exact h.runDecorated (h.CONFIG (hc rfl) args)
    · exact h.runDecorated (h.flush (hf (.inl rfl)) args)
    · exact h.runDecorated (h.flush (hf (.inr rfl)) args)
    · exact h.runSession (h.subscribeAll (fun i hi name _ s => hn (by decide) s i .channels _ _ hi) _)
    · exact h.runSession (h.unsubscribeAll (fun i hi name s => hn (by decide) s i .channels _ _ hi) _ args)
    · exact h.runSession (h.subscribeAll (fun i hi name _ s => hn (by decide) s i .patterns _ _ hi) _)
    · exact h.runSession (h.unsubscribeAll (fun i hi name s => hn (by decide) s i .patterns _ _ hi) _ args)
    · exact h.runSession (h.PUBLISH args)
    · exact h.runSession (h.PUBSUB args)

/-- A command respects a quiet relation that survives what only some commands do, if it is one of those. -/
theorem Quiet.runHandler (h : Quiet R) {c : Cmd} (hn : c ∈ subscribeCommands → ChangesNames R state)
    (hw : c = .WATCH ∨ c = .UNWATCH → ChangesWatched R state) (hf : c = .FLUSHDB ∨ c = .FLUSHALL → SurvivesFlush R)
    (args : List Value) : Respects R (runHandler (handler c) state args) :=
  h.calm.runHandler (fun _ _ => h.liftK _) hn hw hf fun _ => h.flags

end Handler

/-! ## Invariants as relations -/

/-- Keeping an invariant is a preorder. -/
theorem isPreorder_keeps {σ : Type} (I : σ → Prop) : IsPreorder σ fun s t => I s → I t where
  refl _ := id
  trans _ _ _ h h' := h' ∘ h

end Kagni
