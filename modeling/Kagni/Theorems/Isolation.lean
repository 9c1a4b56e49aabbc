import Kagni.Lemmas.Apart

/-!
# Clients that do not disturb each other

Without notifications, a client that works on keys of its own gets the answers it would get if it were alone with them,
whatever the other clients do with the other keys and the channels; and a client that has nothing to do with the channels gets
the answers it would get if nobody were subscribed to anything.
-/

namespace Kagni

open Lib Lib.Prog

variable {F : Type} {mine : Option SessionId → Bool} {A : Set Value} {r : Env × Clock} {state : Option SessionId}
  {s s' : Server F}

/-! ## Keys of one's own -/

/-- The observer's clients work on the keys `A`, the others on the other ones. -/
def Division.byKeys (mine : Option SessionId → Bool) (A : Set Value) : Division F where
  mine
  own := Request.Within A
  others := Request.Beyond A
  watchless := True
  agree now x x' := ∀ key ∈ A, (x.1.toStore.content now).lookup key = (x'.1.toStore.content now).lookup key
  refl _ _ _ _ := rfl
  later hle h key hkey := by rw [Store.lookup_later _ hle, Store.lookup_later _ hle, h key hkey]

section ByKeys

variable [PyFloat F]

/-- A command about the keys runs alike. -/
theorem alike_within {c : Cmd} {args : List Value} {method : List Value → K F Reply}
    (hm : (handler c : Handler F) = .keyspace method)
    (hscan : c.scans = false) (hkeys : ∀ key ∈ c.keys args, key ∈ A) :
    Alike r (Apart.Abeam (.byKeys mine A) r.2.mono) (liftK (method args)) := by
  refine alike_command hm (fun s s' h => ⟨h.1.off, h.1.off'⟩) ?_
  intro s s' h
  have hin : InStep A ∅ r.2.mono ∅ s.kstate s'.kstate :=
    ⟨h.1.agree, fun _ h => h.elim, fun _ h => h.elim, Set.empty_subset A, h.2, rfl⟩
  obtain ⟨hout, hend⟩ := ((Cmd.allows_within r.2 hscan hkeys).disciplined hm).inStep (Server.beside h.1.off h.1.off' h.1.port) hin
  exact ⟨hout, h.1.withStore _ _ hend.content, hend.draws⟩

theorem abreast_byKeys (hstate : mine state = true) :
    Abreast r (Request.Within A) (Apart.Abeam (F := F) (.byKeys mine A) r.2.mono) state := by
  refine Apart.abreast (d := .byKeys mine A) hstate (.inl trivial) fun {q c} hq hc => ?_
  obtain ⟨hscan, hserver, hpubsub, hkeys⟩ := hq c hc
  simp only [pubSubCommands, List.mem_cons, List.not_mem_nil, or_false, not_or] at hserver hpubsub
  refine Tandem.runHandler ?_ fun method hm => alike_within hm hscan hkeys
  exact {
    port := fun s s' h => h.1.port
    watch := fun h => absurd h hserver.1
    unwatch := fun _ i hi s s' h => ⟨h.1.update (hi ▸ hstate) fun _ => ⟨rfl, .inr rfl, fun _ => .inl⟩, h.2⟩
    flags := fun h => absurd h hserver.2.1
    flush := fun h => absurd h (by simp [hserver.2.2])
    names := fun h => absurd h (by simp [subscribeCommands, hpubsub])
    publish := fun h => absurd h hpubsub.2.2.2.2.1
    hub := fun h => absurd h hpubsub.2.2.2.2.2 }

theorem unwinding_byKeys (env : Env) (mine : Option SessionId → Bool) (A : Set Value) :
    Unwinding (Server.receive (F := F) env) Arrival.time (fun a => mine a.state)
      (fun a => (mine a.state = true → a.Requests (Request.Within A)) ∧ (mine a.state = false → a.Requests (Request.Beyond A)))
      (Apart (.byKeys mine A)) := by
  refine Apart.unwinding env (.byKeys mine A) (fun clock hm => abreast_byKeys hm) fun clock hm s' => Apart.abreast_other hm s'
    (fun hq hc => (hq _ hc).1) ?_
  intro q c method hq hc hm t ht key hkey
  exact (lookup_of_command hm (fun hmem => (hq c hc).2 key hmem hkey) t.kstate).trans (ht.agree key hkey)

/-- Clients that work on keys of their own get the answers, and find in their sessions and under their keys what they would if
the others had never sent anything. -/
theorem isolated (env : Env) (port : Nat) (table : Option (Table F)) (storage : Dict Value (Entry F)) (wired : SessionId → Bool)
    (mine : Option SessionId → Bool) (A : Set Value) {arrivals : List Arrival} (horder : InOrder Arrival.time arrivals)
    (hmine : ∀ a ∈ arrivals, mine a.state = true → a.Requests (Request.Within A))
    (hothers : ∀ a ∈ arrivals, mine a.state = false → a.Requests (Request.Beyond A)) :
    let s : Server F := .init port table storage wired
    let alone := arrivals.filter fun a => mine a.state
    answers (Server.receive env) (fun a => mine a.state) s arrivals = answers (Server.receive env)
      (fun a => mine a.state) s alone ∧
      (∀ i, mine (some i) = true → (final (Server.receive env) s arrivals).sessions i =
        (final (Server.receive env) s alone).sessions i) ∧
      ∀ now, (∀ a ∈ arrivals, a.time ≤ now) →
        ∀ key ∈ A, ((final (Server.receive env) s arrivals).data.toStore.content now).lookup key =
        ((final (Server.receive env) s alone).data.toStore.content now).lookup key := by
  intro s alone
  obtain ⟨hanswers, hsessions, hfinal⟩ :=
    Apart.noninterference (d := .byKeys mine A) (unwinding_byKeys env mine A) port table storage wired horder hmine hothers
  exact ⟨hanswers, hsessions, fun now hnow => (hfinal now hnow).agree⟩

/-- Two clients, each with a key of its own. -/
def twoClients : List Arrival :=
  [.message ⟨0, 0⟩ 0 (some 0) (.array [.bytes (bs "SET"), .bytes (bs "a"), .bytes (bs "1")]),
    .message ⟨1, 1⟩ 0 (some 1) (.array [.bytes (bs "APPEND"), .bytes (bs "b"), .bytes (bs "2")]),
    .message ⟨2, 2⟩ 0 (some 0) (.array [.bytes (bs "GET"), .bytes (bs "a")])]

/-- The first client gets the same answers without the second. -/
theorem isolated_twoClients :
    answers (Server.receive (F := Int) .plain) (fun a => decide (a.state = some 0)) (.init 0 none ∅ fun _ => true) twoClients =
      answers (Server.receive (F := Int) .plain) (fun a => decide (a.state = some 0)) (.init 0 none ∅ fun _ => true)
        (twoClients.filter fun a => decide (a.state = some 0)) := by
  refine (isolated (F := Int) .plain 0 none ∅ (fun _ => true) (fun state => decide (state = some 0)) {.bytes (bs "a")}
    (by simp [InOrder, twoClients, Arrival.time]) ?_ ?_).1
  · intro a ha hmine
    simp only [twoClients, List.mem_cons, List.not_mem_nil, or_false] at ha
    rcases ha with rfl | rfl | rfl
    · exact Arrival.requests_of
        (Request.runs_of (c := .SET) (by decide) ⟨rfl, by decide, by decide, by simp only [Set.mem_singleton_iff]; decide⟩)
    · cases hmine
    · exact Arrival.requests_of
        (Request.runs_of (c := .GET) (by decide) ⟨rfl, by decide, by decide, by simp only [Set.mem_singleton_iff]; decide⟩)
  · intro a ha hmine
    simp only [twoClients, List.mem_cons, List.not_mem_nil, or_false] at ha
    rcases ha with rfl | rfl | rfl
    · cases hmine
    · exact Arrival.requests_of (Request.runs_of (c := .APPEND) (by decide) ⟨by decide, by decide⟩)
    · cases hmine

end ByKeys

/-! ## Channels -/

/-- The observer's clients have nothing to do with the channels, the others with nothing else. -/
def Division.byTopic (mine : Option SessionId → Bool) : Division F where
  mine
  own := Request.Aloof
  others := Request.Listens
  watchless := False
  agree _ x x' := x = x'
  refl _ _ := rfl
  later _ h := h

section ByTopic

variable [PyFloat F]

theorem alike_aloof {c : Cmd} {args : List Value} {method : List Value → K F Reply}
    (hm : (handler c : Handler F) = .keyspace method) :
    Alike r (Apart.Abeam (.byTopic mine) r.2.mono) (liftK (method args)) := by
  refine alike_command hm (fun s s' h => ⟨h.1.off, h.1.off'⟩) ?_
  intro s s' h
  have hdata : s.data = s'.data := congrArg Prod.fst h.1.agree
  have hk : s.kstate = s'.kstate := by
    unfold Server.kstate
    rw [hdata, h.2]
  have hctx : (s.ctx r.1 r.2).Beside (s.ctx r.1 r.2).clock (s'.ctx r.1 r.2) := Server.beside h.1.off h.1.off' h.1.port
  rw [(unheard_command hm hctx s.kstate).1, hk]
  refine ⟨rfl, h.1.withStore _ _ ?_, rfl⟩
  have htable : s.table = s'.table := congrArg Prod.snd h.1.agree
  change (_, s.table) = (_, s'.table)
  rw [hdata, htable]

theorem abreast_byTopic (hstate : mine state = true) :
    Abreast r Request.Aloof (Apart.Abeam (F := F) (.byTopic mine) r.2.mono) state := by
  refine Apart.abreast (d := .byTopic mine) hstate (.inr fun _ _ h st => congrArg (fun x => st.dirty x.1.toStore r.2.mono) h)
    fun {q c} hq hc => ?_
  obtain ⟨hpubsub, hconfig⟩ := hq c hc
  simp only [pubSubCommands, List.mem_cons, List.not_mem_nil, or_false, not_or] at hpubsub
  refine Tandem.runHandler ?_ fun method hm => alike_aloof hm
  exact {
    port := fun s s' h => h.1.port
    watch := fun _ i hi key s s' h => by
      refine ⟨h.1.watch (hi ▸ hstate) id (fun _ => rfl) ?_, h.2⟩
      have hdata : s.data = s'.data := congrArg Prod.fst h.1.agree
      rw [hdata]
    unwatch := fun _ i hi s s' h => ⟨h.1.update (hi ▸ hstate) fun _ => ⟨rfl, .inr rfl, fun _ => .inl⟩, h.2⟩
    flags := fun h => absurd h hconfig
    flush := fun _ s s' h => by
      have hdata : s.data = s'.data := congrArg Prod.fst h.1.agree
      have htable : s.table = s'.table := congrArg Prod.snd h.1.agree
      refine ⟨⟨{ h.1 with agree := ?_ }, h.2⟩, ⟨{ h.1 with agree := ?_ }, h.2⟩⟩
      · exact Prod.ext (congrArg Data.clear hdata) htable
      · exact Prod.ext hdata (congrArg (Option.map DB.flush) htable)
    names := fun h => absurd h (by simp [subscribeCommands, hpubsub])
    publish := fun h => absurd h hpubsub.2.2.2.2.1
    hub := fun h => absurd h hpubsub.2.2.2.2.2 }

/-- PING leaves the keyspace as it is. -/
theorem run_PING {method : List Value → K F Reply} (hm : (handler .PING : Handler F) = .keyspace method)
    (args : List Value) (ctx : Ctx)
    (k : KState F) : (method args ctx k).2 = k := by
  cases hm
  rcases args with _ | ⟨message, _ | ⟨_, _⟩⟩
  · rfl
  · cases message <;> rfl
  · rfl

theorem unwinding_byTopic (env : Env) (mine : Option SessionId → Bool) :
    Unwinding (Server.receive (F := F) env) Arrival.time (fun a => mine a.state)
      (fun a => (mine a.state = true → a.Requests Request.Aloof) ∧ (mine a.state = false → a.Requests Request.Listens))
      (Apart (.byTopic mine)) := by
  refine Apart.unwinding env (.byTopic mine) (fun clock hm => abreast_byTopic hm) fun clock hm s' => Apart.abreast_other hm s'
    (fun {q c} hq hc => ?_) ?_
  · rcases hq c hc with h | rfl
    · revert h
      cases c <;> decide
    · decide
  · intro q c method hq hc hm t ht
    obtain rfl : c = .PING := by
      refine (hq c hc).resolve_left ?_
      intro h
      simp only [pubSubCommands, List.mem_cons, List.not_mem_nil, or_false] at h
      rcases h with rfl | rfl | rfl | rfl | rfl | rfl
      all_goals cases hm
    rw [run_PING hm]
    exact ht.agree

/-- Clients that have nothing to do with subscriptions get the answers, and leave the store and the persisted table, as if the
listening clients had never sent anything. -/
theorem undisturbed (env : Env) (port : Nat) (table : Option (Table F)) (storage : Dict Value (Entry F))
    (wired : SessionId → Bool)
    (mine : Option SessionId → Bool) {arrivals : List Arrival} (horder : InOrder Arrival.time arrivals)
    (hmine : ∀ a ∈ arrivals, mine a.state = true → a.Requests Request.Aloof)
    (hothers : ∀ a ∈ arrivals, mine a.state = false → a.Requests Request.Listens) :
    let s : Server F := .init port table storage wired
    let alone := arrivals.filter fun a => mine a.state
    answers (Server.receive env) (fun a => mine a.state) s arrivals = answers (Server.receive env)
      (fun a => mine a.state) s alone ∧
      (∀ i, mine (some i) = true → (final (Server.receive env) s arrivals).sessions i =
        (final (Server.receive env) s alone).sessions i) ∧
      (final (Server.receive env) s arrivals).data = (final (Server.receive env) s alone).data ∧
      (final (Server.receive env) s arrivals).table = (final (Server.receive env) s alone).table := by
  intro s alone
  obtain ⟨hanswers, hsessions, hfinal⟩ :=
    Apart.noninterference (d := .byTopic mine) (unwinding_byTopic env mine) port table storage wired horder hmine hothers
  obtain ⟨t, ht⟩ := (arrivals.map Arrival.time).toFinset.exists_le
  have hagree := (hfinal t fun a ha => ht _ (List.mem_toFinset.2 (List.mem_map_of_mem ha))).agree
  exact ⟨hanswers, hsessions, congrArg Prod.fst hagree, congrArg Prod.snd hagree⟩

/-- A client at work, and a listener. -/
def workAndListen : List Arrival :=
  [.message ⟨0, 0⟩ 0 (some 1) (.array [.bytes (bs "SUBSCRIBE"), .bytes (bs "news")]),
    .message ⟨1, 1⟩ 0 (some 0) (.array [.bytes (bs "SET"), .bytes (bs "a"), .bytes (bs "1")]),
    .message ⟨2, 2⟩ 0 (some 1) (.array [.bytes (bs "PING")]),
    .message ⟨3, 3⟩ 0 (some 0) (.array [.bytes (bs "KEYS"), .bytes (bs "a")])]

/-- The client at work gets the same answers without the listener. -/
theorem undisturbed_workAndListen :
    answers (Server.receive (F := Int) .plain) (fun a => decide (a.state = some 0)) (.init 0 none ∅ fun _ => true) workAndListen =
      answers (Server.receive (F := Int) .plain) (fun a => decide (a.state = some 0)) (.init 0 none ∅ fun _ => true)
        (workAndListen.filter fun a => decide (a.state = some 0)) := by
  refine (undisturbed (F := Int) .plain 0 none ∅ (fun _ => true) (fun state => decide (state = some 0))
    (by simp [InOrder, workAndListen, Arrival.time]) ?_ ?_).1
  · intro a ha hmine
    simp only [workAndListen, List.mem_cons, List.not_mem_nil, or_false] at ha
    rcases ha with rfl | rfl | rfl | rfl
    · cases hmine
    · exact Arrival.requests_of (Request.runs_of (c := .SET) (by decide) ⟨by decide, by decide⟩)
    · cases hmine
    · exact Arrival.requests_of (Request.runs_of (c := .KEYS) (by decide) ⟨by decide, by decide⟩)
  · intro a ha hmine
    simp only [workAndListen, List.mem_cons, List.not_mem_nil, or_false] at ha
    rcases ha with rfl | rfl | rfl | rfl
    · exact Arrival.requests_of (Request.runs_of (c := .SUBSCRIBE) (by decide) (.inl (by decide)))
    · cases hmine
    · exact Arrival.requests_of (Request.runs_of (c := .PING) (by decide) (.inr rfl))
    · cases hmine

end ByTopic

end Kagni
