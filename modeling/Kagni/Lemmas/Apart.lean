import Kagni.Lemmas.Clients
import Kagni.Lemmas.Hub

/-!
# Two groups of clients

The clients are divided into an observer's and the others. Two servers without notifications are apart when they have the same
sessions of the observer's clients, none of which is subscribed to anything, and agree on what these see of the data. What the
observer's clients send keeps them apart if it runs alike; what the others send to one of them does if it leaves alone what
the observer's see.
-/

namespace Kagni

open Lib Lib.Prog

variable {F : Type}

/-- A division of the clients: which are the observer's, what these and the others may send, whether the observer's watch
nothing, and when two servers agree at an instant, with their data and tables, on what the observer's see. -/
structure Division (F : Type) where
  mine : Option SessionId → Bool
  own : Request → Prop
  others : Request → Prop
  watchless : Prop
  agree : Int → Data F × Option (Table F) → Data F × Option (Table F) → Prop
  refl : ∀ now x, agree now x x
  later : ∀ {now now' x x'}, now ≤ now' → agree now x x' → agree now' x x'

/-- Two servers whose difference the observer's clients do not see. -/
structure Apart (d : Division F) (now : Int) (s s' : Server F) : Prop where
  off : s.notify_keyspace_events = []
  off' : s'.notify_keyspace_events = []
  port : s.tcp_port = s'.tcp_port
  agree : d.agree now (s.data, s.table) (s'.data, s'.table)
  sessions : ∀ i, d.mine (some i) = true → s.sessions i = s'.sessions i
  unwatched : d.watchless → ∀ i, d.mine (some i) = true → (s.sessions i).watched = ∅
  queued : ∀ i, d.mine (some i) = true → ∀ q ∈ (s.sessions i).queue, d.own q
  others : ∀ i, d.mine (some i) = false → ∀ q ∈ (s.sessions i).queue, d.others q
  deaf : ∀ i, d.mine (some i) = true → ∀ topic name, i ∉ s.hub.subscribers topic name

namespace Apart

variable {d : Division F} {now : Int} {s s' : Server F} {i : SessionId}

/-- The choices that are made for a message may be any. -/
theorem withDraws (h : Apart d now s s') (n n' : Nat) : Apart d now { s with draws := n } { s' with draws := n' } := { h with }

theorem withStore (h : Apart d now s s') {store store' : Store F} (n n' : Nat)
    (hagree : d.agree now ({ s.data with toStore := store }, s.table) ({ s'.data with toStore := store' }, s'.table)) :
    Apart d now (s.withStore store n) (s'.withStore store' n') := { h with agree := hagree }

/-- A client of the observer's changes its session. -/
theorem update (h : Apart d now s s') (hi : d.mine (some i) = true) {f : Session → Session}
    (hf : ∀ st : Session, st.Retouched d.own (f st)) :
    Apart d now (s.update i f) (s'.update i f) where
  off := h.off
  off' := h.off'
  port := h.port
  agree := h.agree
  sessions j hj := by rw [Server.update_sessions, Server.update_sessions, h.sessions i hi, h.sessions j hj]
  unwatched hw j hj := by
    rw [Server.update_sessions]
    split
    · rcases (hf (s.sessions i)).watched with heq | heq
      · rw [heq, h.unwatched hw i hi]
      · exact heq
    · exact h.unwatched hw j hj
  queued j hj q hq := by
    rw [Server.update_sessions] at hq
    split at hq
    · exact ((hf _).queue q hq).elim (h.queued i hi q) id
    · exact h.queued j hj q hq
  others j hj q hq := by
    rw [Server.update_sessions, if_neg] at hq
    · exact h.others j hj q hq
    · rintro rfl
      rw [hi] at hj
      cases hj
  deaf := h.deaf

/-- A client of the observer's watches a key. -/
theorem watch (h : Apart d now s s') (hi : d.mine (some i) = true) (hw : ¬d.watchless) {f f' : Session → Session}
    (hf : ∀ st, (f st).queue = st.queue) (hsame : f (s.sessions i) = f' (s.sessions i)) :
    Apart d now (s.update i f) (s'.update i f') where
  off := h.off
  off' := h.off'
  port := h.port
  agree := h.agree
  sessions j hj := by rw [Server.update_sessions, Server.update_sessions, hsame, h.sessions i hi, h.sessions j hj]
  unwatched hw' := absurd hw' hw
  queued j hj q hq := by
    rw [Server.update_sessions] at hq
    split at hq
    · exact h.queued i hi q (hf _ ▸ hq)
    · exact h.queued j hj q hq
  others j hj q hq := by
    rw [Server.update_sessions, if_neg] at hq
    · exact h.others j hj q hq
    · rintro rfl
      rw [hi] at hj
      cases hj
  deaf := h.deaf

/-- Another client changes its session. -/
theorem update_other (h : Apart d now s s') (hi : d.mine (some i) = false) {f : Session → Session}
    (hf : ∀ q ∈ (f (s.sessions i)).queue, q ∈ (s.sessions i).queue ∨ d.others q) : Apart d now (s.update i f) s' := by
  have hne : ∀ {j}, d.mine (some j) = true → (s.update i f).sessions j = s.sessions j := fun {j} hj => by
    rw [Server.update_sessions, if_neg]
    rintro rfl
    rw [hi] at hj
    cases hj
  exact { h with
    sessions := fun j hj => (hne hj).trans (h.sessions j hj)
    unwatched := fun hw j hj => (congrArg Session.watched (hne hj)).trans (h.unwatched hw j hj)
    queued := fun j hj q hq => h.queued j hj q (by rwa [hne hj] at hq)
    others := fun j hj q hq => by
      rw [Server.update_sessions] at hq
      split at hq
      · exact (hf q hq).elim (h.others i hi q) id
      · exact h.others j hj q hq }

theorem withHub (h : Apart d now s s') {hub : PubSubHub}
    (hhub : ∀ i, d.mine (some i) = true → ∀ topic name, i ∉ hub.subscribers topic name) :
    Apart d now { s with hub := hub } s' := { h with deaf := hhub }

/-- What is pushed to other clients. -/
theorem push (h : Apart d now s s') {frames : List (SessionId × Bytes)} (hframes : ∀ p ∈ frames, d.mine (some p.1) = false) :
    Apart d now (s.push frames) s' := by
  induction frames generalizing s with
  | nil => exact h
  | cons p frames ih =>
    refine ih (h.update_other (hframes p (by simp)) fun q hq => .inl ?_) fun p hp => hframes p (by simp [hp])
    rwa [(deliver_mode _ p.2).2.1] at hq

variable [PyFloat F] {r : Env × Clock} {c : Cmd} {state : Option SessionId}

theorem lost (h : Apart d now s s') (hi : d.mine (some i) = true) (env : Env) :
    Apart d now (s.step env (.lost i)) (s'.step env (.lost i)) := by
  have hend := h.update (f := fun st => { st with sender := none }) hi fun st => ⟨rfl, .inl rfl, fun _ => .inl⟩
  refine { hend with deaf := ?_ }
  intro j hj topic name hmem
  exact h.deaf j hj topic name ((PubSubHub.mem_subscribers_remove_session ..).1 hmem).2

theorem lost_other (h : Apart d now s s') (hi : d.mine (some i) = false) (env : Env) : Apart d now (s.step env (.lost i)) s' :=
  (h.update_other (f := fun st => { st with sender := none }) hi fun _ => .inl).withHub fun j hj topic name hmem =>
    h.deaf j hj topic name ((PubSubHub.mem_subscribers_remove_session ..).1 hmem).2

/-- Servers that are apart and make the same choices. -/
def Abeam (d : Division F) (now : Int) (s s' : Server F) : Prop := Apart d now s s' ∧ s.draws = s'.draws

/-- What the observer's clients send runs alike, if the methods do. -/
theorem abreast (hstate : d.mine state = true)
    (hdirty : d.watchless ∨ ∀ x x' : Data F × Option (Table F), d.agree r.2.mono x x' → ∀ st : Session,
      st.dirty x.1.toStore r.2.mono = st.dirty x'.1.toStore r.2.mono)
    (hrun : ∀ {q c}, d.own q → Cmd.ofName q.name = some c → Alike r (Abeam d r.2.mono) (runHandler (handler c) state q.args)) :
    Abreast r d.own (Abeam d r.2.mono) state where
  session hi h := h.1.sessions _ (hi ▸ hstate)
  queued hi h := h.1.queued _ (hi ▸ hstate)
  update hi hf h := ⟨h.1.update (hi ▸ hstate) hf, h.2⟩
  dirty {s s' i} hi h := by
    rcases hdirty with hw | hsame
    · unfold Session.dirty
      rw [h.1.unwatched hw _ (hi ▸ hstate)]
      rfl
    · exact hsame _ _ h.1.agree _
  run := hrun

/-- What the other clients send, short of configuring and flushing, keeps the servers apart, if the keyspace commands among it
leave alone what the observer's see. -/
theorem abreast_other (hstate : d.mine state = false) (s' : Server F)
    (hsends : ∀ {q c}, d.others q → Cmd.ofName q.name = some c → c ∉ [.CONFIG, .FLUSHDB, .FLUSHALL])
    (hkeyspace : ∀ {q c method}, d.others q → Cmd.ofName q.name = some c → (handler c : Handler F) = .keyspace method →
      ∀ t, Apart d r.2.mono t s' →
      d.agree r.2.mono ({ t.data with toStore := (method q.args (t.ctx r.1 r.2) t.kstate).2.store }, t.table)
        (s'.data, s'.table)) :
    Abreast r d.others (fun t t' : Server F => t = t' ∧ Apart d r.2.mono t s') state := by
  refine .of_invariant (fun hi h => h.others _ (hi ▸ hstate)) (fun hi hf h => h.update_other (hi ▸ hstate) (hf _).queue)
    fun {q c} hq hc s h => ?_
  have hserver := hsends hq hc
  simp only [List.mem_cons, List.not_mem_nil, or_false, not_or] at hserver
  have hrun : Alike r (fun t t' : Server F => t = t' ∧ Apart d r.2.mono t s') (runHandler (handler c) state q.args) := by
    refine Tandem.runHandler ?_ fun method hm => alike_liftK fun t t' ht => ?_
    · exact {
        port := fun t t' h => by rw [h.1]
        watch := fun _ i hi key t t' h => ⟨by rw [h.1], h.2.update_other (hi ▸ hstate) fun _ => .inl⟩
        unwatch := fun _ i hi t t' h => ⟨by rw [h.1], h.2.update_other (hi ▸ hstate) fun _ => .inl⟩
        flags := fun h => absurd h hserver.1
        flush := fun h => absurd h (by simp [hserver.2])
        names := fun _ i hi t t' h => by
          obtain ⟨rfl, h⟩ := h
          have hother : d.mine (some i) = false := hi ▸ hstate
          have hne : ∀ {j}, d.mine (some j) = true → j ≠ i := fun hj heq => by
            rw [heq, hother] at hj
            cases hj
          have hnames : ∀ (f : OrdSet Value → OrdSet Value) topic, Apart d r.2.mono (t.update i (·.withNames f topic)) s' :=
            fun f topic =>
            h.update_other hother fun q hq => .inl (by rwa [(withNames_mode _ f topic).2.1] at hq)
          refine ⟨rfl, fun topic name => ⟨rfl, (hnames _ topic).withHub fun j hj topic' name' hmem => ?_⟩,
            fun topic name => ⟨rfl, (hnames _ topic).withHub fun j hj topic' name' hmem => ?_⟩, fun frame => ⟨rfl, ?_⟩⟩
          · rcases (PubSubHub.mem_subscribers_subscribe ..).1 hmem with ⟨rfl, -⟩ | hmem
            · exact hne hj rfl
            · exact h.deaf j hj topic' name' hmem
          · exact h.deaf j hj topic' name' ((PubSubHub.mem_subscribers_unsubscribe ..).1 hmem).1
          · exact h.update_other hother fun q hq => .inl (by rwa [(deliver_mode _ frame).2.1] at hq)
        publish := fun _ channel message => alike_liftK fun t t' ht => by
          obtain ⟨rfl, ht⟩ := ht
          refine ⟨rfl, rfl, ?_⟩
          obtain ⟨hstore, -, hpushed⟩ := publish_reaches channel message (t.ctx r.1 r.2) t.kstate
          unfold Server.absorb
          rw [hstore]
          refine (ht.withDraws _ s'.draws).push ?_
          intro p hp
          obtain hp | ⟨topic, name, hmem⟩ := hpushed p hp
          · cases hp
          · rw [← Bool.not_eq_true]
            exact fun hmine => ht.deaf p.1 hmine topic name hmem
        hub := fun _ t t' h => by rw [h.1] }
    · obtain ⟨rfl, ht⟩ := ht
      refine ⟨rfl, rfl, ?_⟩
      rw [absorb_command hm ht.off]
      have hend : ∀ n, Apart d r.2.mono (t.withStore _ n) (s'.withStore s'.data.toStore s'.draws) :=
        fun n => ht.withStore n _ (hkeyspace hq hc hm t ht)
      exact hend _
  exact (hrun s s ⟨rfl, h⟩).2.2

/-- The unwinding conditions. -/
theorem unwinding (env : Env) (d : Division F)
    (hmine : ∀ {state} clock, d.mine state = true → Abreast (env, clock) d.own (Abeam d clock.mono) state)
    (hother : ∀ {state} clock, d.mine state = false →
      ∀ s', Abreast (env, clock) d.others (fun t t' : Server F => t = t' ∧ Apart d clock.mono t s') state) :
    Unwinding (Server.receive (F := F) env) Arrival.time (fun a => d.mine a.state)
      (fun a => (d.mine a.state = true → a.Requests d.own) ∧ (d.mine a.state = false → a.Requests d.others)) (Apart d) where
  wait hle h := { h with agree := d.later hle h.agree }
  same {a s s'} hm hok h := by
    cases a with
    | message clock seed state message =>
      obtain ⟨hout, hend⟩ := (hmine clock hm).dispatch (hok.1 hm) { s with draws := seed } { s' with draws := seed }
        ⟨h.withDraws seed seed, rfl⟩
      exact ⟨hout, hend.1⟩
    | lost clock i => exact ⟨rfl, h.lost hm env⟩
  other {a s s'} hm hok h := by
    cases a with
    | message clock seed state message =>
      have hend := (hother clock hm s').dispatch (hok.2 hm) { s with draws := seed } _ ⟨rfl, h.withDraws seed s'.draws⟩
      exact hend.2.2
    | lost clock i => exact h.lost_other hm env

omit [PyFloat F] in
/-- A fresh server, beside itself. -/
theorem init (port : Nat) (table : Option (Table F)) (storage : Dict Value (Entry F)) (wired : SessionId → Bool) :
    Apart d now (.init port table storage wired) (.init port table storage wired) where
  off := rfl
  off' := rfl
  port := rfl
  agree := d.refl now _
  sessions _ _ := rfl
  unwatched _ _ _ := rfl
  queued _ _ _ hq := absurd hq List.not_mem_nil
  others _ _ _ hq := absurd hq List.not_mem_nil
  deaf _ _ topic name hmem := by
    cases topic
    all_goals cases hmem

/-- What the observer's clients see of a run is what they see of the run without the others. -/
theorem noninterference {env : Env}
    (h : Unwinding (Server.receive (F := F) env) Arrival.time (fun a => d.mine a.state)
      (fun a => (d.mine a.state = true → a.Requests d.own) ∧ (d.mine a.state = false → a.Requests d.others)) (Apart d))
    (port : Nat) (table : Option (Table F)) (storage : Dict Value (Entry F)) (wired : SessionId → Bool) {arrivals : List Arrival}
    (horder : InOrder Arrival.time arrivals) (hmine : ∀ a ∈ arrivals, d.mine a.state = true → a.Requests d.own)
    (hothers : ∀ a ∈ arrivals, d.mine a.state = false → a.Requests d.others) :
    let s : Server F := .init port table storage wired
    let alone := arrivals.filter fun a => d.mine a.state
    answers (Server.receive env) (fun a => d.mine a.state) s arrivals = answers (Server.receive env)
      (fun a => d.mine a.state) s alone ∧
      (∀ i, d.mine (some i) = true → (final (Server.receive env) s arrivals).sessions i =
        (final (Server.receive env) s alone).sessions i) ∧
      ∀ now, (∀ a ∈ arrivals, a.time ≤ now) → Apart d now (final (Server.receive env) s arrivals)
        (final (Server.receive env) s alone) := by
  intro s alone
  obtain ⟨hanswers, hfinal⟩ :=
    h.noninterference (fun a ha => ⟨hmine a ha, hothers a ha⟩) horder fun _ => init port table storage wired
  obtain ⟨t, ht⟩ := (arrivals.map Arrival.time).toFinset.exists_le
  refine ⟨hanswers, (hfinal t fun a ha => ht _ ?_).sessions, hfinal⟩
  exact List.mem_toFinset.2 (List.mem_map_of_mem ha)

end Apart

end Kagni
