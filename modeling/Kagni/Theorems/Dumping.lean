import Kagni.Lemmas.Clients

/-!
# The dumper goes unnoticed

A snapshot removes the expired entries on its way, and a commit changes the persisted table. Without notifications no client
notices either: every command that does not look at the keyspace as a whole answers as it would without a dumper.
-/

namespace Kagni

open Lib Lib.Prog

variable {F : Type} {now : Int} {s s' : Server F} {i : SessionId} {r : Env × Clock} {state : Option SessionId}

/-- Two servers that differ in expired entries, in how often a store was emptied and in the persisted table only. -/
structure SameLive (now : Int) (s s' : Server F) : Prop where
  off : s.notify_keyspace_events = []
  off' : s'.notify_keyspace_events = []
  port : s.tcp_port = s'.tcp_port
  hub : s.hub = s'.hub
  sessions : s.sessions = s'.sessions
  content : s.data.toStore.content now = s'.data.toStore.content now
  generation : ∀ key, s.data.generation key = s'.data.generation key
  queued : s.Queued Request.Pointed

theorem push_draws (s : Server F) (frames : List (SessionId × Bytes)) : (s.push frames).draws = s.draws := by
  induction frames generalizing s with
  | nil => rfl
  | cons p frames ih => exact ih _

theorem liftK_state {α : Type} (m : K F α) (r : Env × Clock) (s : Server F) :
    (liftK m r s).2 = s.absorb (m (s.ctx r.1 r.2) s.kstate).2 := by
  unfold liftK
  cases m (s.ctx r.1 r.2) s.kstate with
  | mk out k => cases out <;> rfl

namespace SameLive

theorem wait {now' : Int} (hle : now ≤ now') (h : SameLive now s s') : SameLive now' s s' :=
  { h with content := Finmap.ext_lookup fun key => by rw [Store.lookup_later _ hle, Store.lookup_later _ hle, h.content] }

theorem withDraws (h : SameLive now s s') (n n' : Nat) : SameLive now { s with draws := n } { s' with draws := n' } := { h with }

theorem update (h : SameLive now s s') {f f' : Session → Session} (hf : f (s.sessions i) = f' (s.sessions i))
    (hqueue : ∀ q ∈ (f (s.sessions i)).queue, q.Pointed) : SameLive now (s.update i f) (s'.update i f') :=
  { h with
    sessions := by
      unfold Server.update
      dsimp only
      rw [← h.sessions, hf]
    queued := queued_update h.queued i hqueue }

/-- A change that leaves the queue alone. -/
theorem update_queue (h : SameLive now s s') {f f' : Session → Session} (hf : f (s.sessions i) = f' (s.sessions i))
    (hqueue : (f (s.sessions i)).queue = (s.sessions i).queue) : SameLive now (s.update i f) (s'.update i f') :=
  h.update hf fun q hq => h.queued i q (hqueue ▸ hq)

theorem deliver (h : SameLive now s s') (frame : Bytes) :
    SameLive now (s.update i (·.deliver frame)) (s'.update i (·.deliver frame)) :=
  h.update_queue rfl (deliver_mode _ frame).2.1

theorem push (h : SameLive now s s') (frames : List (SessionId × Bytes)) : SameLive now (s.push frames) (s'.push frames) := by
  induction frames generalizing s s' with
  | nil => exact h
  | cons p frames ih => exact ih (h.deliver p.2)

theorem withHub (h : SameLive now s s') (f : PubSubHub → PubSubHub) :
    SameLive now { s with hub := f s.hub } { s' with hub := f s'.hub } :=
  { h with hub := congrArg f h.hub }

/-- A key is live for both or for neither. -/
theorem is_live (h : SameLive now s s') (key : Value) : s.data.is_live key now = s'.data.is_live key now := by
  rw [Store.is_live_eq, Store.is_live_eq, h.content]

theorem dirty (h : SameLive now s s') (st : Session) : st.dirty s.data.toStore now = st.dirty s'.data.toStore now :=
  st.dirty_congr h.content h.generation

theorem watch (h : SameLive now s s') (key : Value) : SameLive now (watchOne i key now s) (watchOne i key now s') := by
  refine h.update_queue ?_ rfl
  rw [h.generation, h.is_live]

theorem changeNames (h : SameLive now s s') (f : OrdSet Value → OrdSet Value) (topic : Topic) :
    SameLive now (s.update i (·.withNames f topic)) (s'.update i (·.withNames f topic)) :=
  h.update_queue rfl (withNames_mode _ f topic).2.1

theorem ctx_eq (h : SameLive r.2.mono s s') : s.ctx r.1 r.2 = s'.ctx r.1 r.2 := by
  unfold Server.ctx
  rw [h.hub, h.off, h.off', h.port]

/-- Publishing does not look at the store. -/
theorem alike_publish (channel message : Value) :
    Alike r (fun s s' : Server F => SameLive r.2.mono s s' ∧ s.draws = s'.draws) (liftK (publish channel message)) := by
  refine alike_liftK ?_
  intro s s' h
  rw [← h.1.ctx_eq]
  let R : KState F → KState F → Prop :=
    fun k k' => k.store = s.data.toStore ∧ k'.store = s'.data.toStore ∧ k.draws = k'.draws ∧ k.pushed = k'.pushed
  have hdeliver : ∀ i frame, Alike (s.ctx r.1 r.2) R (Kagni.deliver i frame : K F Unit) := fun i frame =>
    .modify fun k k' hk => ⟨hk.1, hk.2.1, hk.2.2.1, congrArg (· ++ [(i, frame)]) hk.2.2.2⟩
  have hcomputes : ∀ {α : Type} {m : K F α} {Q : α → Prop}, Computes m Q → Alike (s.ctx r.1 r.2) R m :=
    fun {_ m _} hm k k' hk => by
    obtain ⟨hout, hend, hend'⟩ := hm.same (s.ctx r.1 r.2) (s.ctx r.1 r.2) rfl rfl rfl k k'
    exact ⟨hout, by rwa [hend, hend']⟩
  have hpublish : Alike (s.ctx r.1 r.2) R (publish channel message : K F Nat) := by
    refine .bind (hcomputes (computes_needHash channel)) ?_
    intro _
    refine .bind .ask ?_
    intro ctx
    refine .bind (.each fun i _ => ?_) fun _ => .fold fun receivers p _ => ?_
    · exact .bind (hcomputes (computes_orFail _)) fun frame => hdeliver i frame
    · refine .bind (hcomputes (computes_compile_glob p.1)) ?_
      intro matcher
      refine .bind (hcomputes (computes_matches matcher channel)) ?_
      intro b
      refine .ite (fun _ => ?_) fun _ => .pure
      refine .bind (hcomputes (computes_orFail _)) ?_
      intro frame
      exact .bind (.each fun i _ => hdeliver i frame) fun _ => .pure
  obtain ⟨hout, hstore, hstore', hdraws, hpushed⟩ := hpublish s.kstate s'.kstate ⟨rfl, rfl, h.2, rfl⟩
  refine ⟨hout, ?_⟩
  unfold Server.absorb
  rw [hstore, hstore', hdraws, hpushed]
  refine ⟨(h.1.withDraws _ _).push _, ?_⟩
  rw [push_draws, push_draws]

variable [PyFloat F]

theorem alike_keyspace {c : Cmd} {args : List Value} {method : List Value → K F Reply}
    (hm : (handler c : Handler F) = .keyspace method)
    (hscan : c.scans = false) : Alike r (fun s s' => SameLive r.2.mono s s' ∧ s.draws = s'.draws) (liftK (method args)) := by
  refine alike_command hm (fun s s' h => ⟨h.1.off, h.1.off'⟩) ?_
  intro s s' h
  have hin : InStep Set.univ Set.univ r.2.mono ∅ s.kstate s'.kstate :=
    ⟨fun key _ => congrArg (Finmap.lookup key) h.1.content, fun key _ => h.1.generation key, fun _ h => h.elim,
      Set.empty_subset _, h.2, rfl⟩
  have hallows : (Discipline.within Set.univ r.2).Allows c args := Cmd.allows_within r.2 hscan fun _ _ => trivial
  obtain ⟨hout, hend⟩ := (hallows.disciplined hm).inStep (Server.beside h.1.off h.1.off' h.1.port) hin
  refine ⟨hout, { h.1 with content := ?_, generation := fun key => hend.generation key trivial }, hend.draws⟩
  exact Finmap.ext_lookup fun key => hend.content key trivial

theorem abreast : Abreast r Request.Pointed (fun s s' : Server F => SameLive r.2.mono s s' ∧ s.draws = s'.draws) state where
  session _ h := congrFun h.1.sessions _
  queued _ h := h.1.queued _
  update _ hf h := ⟨h.1.update rfl fun q hq => ((hf _).queue q hq).elim (h.1.queued _ q) id, h.2⟩
  dirty _ h := h.1.dirty _
  run {q c} hq hc := by
    obtain ⟨hscan, hconfig⟩ := hq c hc
    refine Tandem.runHandler ?_ fun method hm => alike_keyspace hm hscan
    exact {
      port := fun s s' h => h.1.port
      watch := fun _ i _ key s s' h => ⟨h.1.watch key, h.2⟩
      unwatch := fun _ i _ s s' h => ⟨h.1.update_queue rfl rfl, h.2⟩
      flags := fun h => absurd h hconfig
      flush := fun _ s s' h => ⟨⟨{ h.1 with content := rfl, generation := fun _ => rfl }, h.2⟩, ⟨{ h.1 with }, h.2⟩⟩
      names := fun _ i _ s s' h => by
        refine ⟨congrArg Session.names (congrFun h.1.sessions i), fun topic name => ⟨?_, h.2⟩, fun topic name => ⟨?_, h.2⟩,
          fun frame => ⟨h.1.deliver frame, h.2⟩⟩
        · exact (h.1.changeNames (·.insert name) topic).withHub (·.subscribe topic i name)
        · exact (h.1.changeNames (·.erase name) topic).withHub (·.unsubscribe topic i name)
      publish := fun _ => alike_publish
      hub := fun _ s s' h => h.1.hub }

theorem lost (h : SameLive now s s') (env : Env) : SameLive now (s.step env (.lost i)) (s'.step env (.lost i)) := by
  have hsender : SameLive now (s.update i fun st => { st with sender := none })
    (s'.update i fun st => { st with sender := none }) := h.update_queue rfl rfl
  exact hsender.withHub (·.remove_session i)

omit [PyFloat F] in
/-- The dumper takes its snapshot. -/
theorem wake {clock : Clock} (h : SameLive clock.mono s s') (env : Env) :
    SameLive clock.mono (liftK snapshot (env, clock) s).2 s' := by
  have hoff : (s.ctx env clock).flags = [] := h.off
  obtain ⟨k, hrun, hstore, -, hpushed⟩ := sweep_off hoff s.kstate
  have hsnapshot : (snapshot (s.ctx env clock) s.kstate).2 = k := by
    have hend : snapshot (s.ctx env clock) s.kstate =
        (_sweep >>= fun _ => pure (s.data.toStore.snapshot clock) : K F (Snapshot F)) (s.ctx env clock) s.kstate := rfl
    rw [hend, bind_ok _ _ hrun]
    rfl
  rw [liftK_state, hsnapshot, absorb_unheard hpushed, hstore]
  have hcontent := Store.content_filter s.data.toStore clock.mono
  exact { h with content := hcontent.trans h.content }

/-- What a client sends is answered alike, and a dumper leaves the server as good as it was. -/
theorem unwinding (env : Env) :
    Unwinding (Server.undergo (F := F) env) Happening.time Happening.fromClient (·.Requests Request.Pointed) SameLive where
  wait := wait
  same {x s s'} hclient hok h := by
    cases x with
    | arrival a =>
      cases a with
      | message clock seed state message =>
        obtain ⟨hout, hend⟩ := (abreast (r := (env, clock))).dispatch hok { s with draws := seed } { s' with draws := seed }
          ⟨h.withDraws seed seed, rfl⟩
        exact ⟨hout, hend.1⟩
      | lost clock i => exact ⟨rfl, h.lost env⟩
    | wake _ => cases hclient
    | commit _ _ _ => cases hclient
  other {x s s'} hclient _ h := by
    cases x with
    | arrival _ => cases hclient
    | wake clock => exact h.wake env
    | commit clock rows epoch => exact { h with }

omit [PyFloat F] in
theorem init (port : Nat) (table : Option (Table F)) (storage : Dict Value (Entry F)) (wired : SessionId → Bool) (now : Int) :
    SameLive now (.init port table storage wired) (.init port table storage wired) :=
  ⟨rfl, rfl, rfl, rfl, rfl, rfl, fun _ => rfl, queued_init _ _ _ _ _⟩

end SameLive

variable [PyFloat F]

/-- Clients that do not look at the keyspace as a whole get the answers, find in their sessions and leave the live entries
they would if the dumper never ran. -/
theorem dumper_unnoticed (env : Env) (port : Nat) (table : Option (Table F)) (storage : Dict Value (Entry F))
    (wired : SessionId → Bool)
    {happenings : List (Happening F)} (horder : InOrder Happening.time happenings)
    (hrequests : ∀ x ∈ happenings, x.Requests Request.Pointed) :
    let s : Server F := .init port table storage wired
    let quiet := happenings.filter Happening.fromClient
    answers (Server.undergo env) Happening.fromClient s happenings = answers (Server.undergo env) Happening.fromClient s quiet ∧
      (final (Server.undergo env) s happenings).sessions = (final (Server.undergo env) s quiet).sessions ∧
      ∀ now, (∀ x ∈ happenings, x.time ≤ now) →
        (final (Server.undergo env) s happenings).data.toStore.content now =
          (final (Server.undergo env) s quiet).data.toStore.content now := by
  intro s quiet
  obtain ⟨hanswers, hfinal⟩ := (SameLive.unwinding env).noninterference hrequests horder (SameLive.init port table storage wired)
  obtain ⟨t, ht⟩ := (happenings.map Happening.time).toFinset.exists_le
  refine ⟨hanswers, (hfinal t fun x hx => ht _ ?_).sessions, fun now hnow => (hfinal now hnow).content⟩
  exact List.mem_toFinset.2 (List.mem_map_of_mem hx)

/-- A key expires, the dumper runs, and the key is asked for. -/
def expiresAndDumps : List (Happening Int) :=
  [.arrival (.message ⟨0, 0⟩ 0 (some 0) (.array [.bytes (bs "SETEX"), .bytes (bs "k"), .bytes (bs "1"), .bytes (bs "v")])),
    .wake ⟨2 * 10 ^ 9, 2 * 10 ^ 9⟩,
    .arrival (.message ⟨2 * 10 ^ 9, 2 * 10 ^ 9⟩ 0 (some 0) (.array [.bytes (bs "GET"), .bytes (bs "k")]))]

/-- The answers are those without the dumper. -/
theorem dumper_unnoticed_expired :
    answers (Server.undergo .plain) Happening.fromClient (.init 0 none ∅ fun _ => true) expiresAndDumps =
    answers (Server.undergo .plain) Happening.fromClient (.init 0 none ∅ fun _ => true)
      (expiresAndDumps.filter Happening.fromClient) := by
  refine (dumper_unnoticed .plain 0 none ∅ (fun _ => true)
    (by simp [InOrder, expiresAndDumps, Happening.time, Arrival.time]) ?_).1
  intro x hx
  simp only [expiresAndDumps, List.mem_cons, List.not_mem_nil, or_false] at hx
  rcases hx with rfl | rfl | rfl
  · exact Happening.requests_of (Arrival.requests_of (Request.runs_of (c := .SETEX) (by decide) ⟨rfl, by decide⟩))
  · trivial
  · exact Happening.requests_of (Arrival.requests_of (Request.runs_of (c := .GET) (by decide) ⟨rfl, by decide⟩))

end Kagni
