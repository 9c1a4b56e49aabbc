import Kagni.Lemmas.Apart
import Kagni.Lemmas.Happenings
import Kagni.Lemmas.Readers

/-!
# Clients that only read

COMMAND reports of each command whether it writes. Those that are not reported to write touch no key and, unless they look at
the fields of a hash, change nothing under any: so a client that sends no others does not show in what the rest are answered,
nor in what they watch.
-/

namespace Kagni

open Lib Lib.Prog

variable {F : Type} {mine : Option SessionId → Bool} {r : Env × Clock} {state : Option SessionId} {s s' : Server F}

/-- It is not reported to write. -/
def Request.Reads : Request → Prop := Runs fun c _ => bs "write" ∉ c.flags

/-- Nor does it look at the fields of a hash. -/
def Request.Looks : Request → Prop := Runs fun c _ => bs "write" ∉ c.flags ∧ c ∉ hashReaders

/-- What looks, reads. -/
theorem Happening.Requests.reads {x : Happening F} (h : x.Requests Request.Looks) : x.Requests Request.Reads := by
  have hq : ∀ q : Request, q.Looks → q.Reads := fun q hq c hc => (hq c hc).1
  cases x with
  | arrival a =>
    cases a with
    | message now seed state m =>
      change m.Requests Request.Reads
      replace h : m.Requests Request.Looks := h
      unfold Value.Requests at h ⊢
      split
      · exact hq _ h
      · trivial
    | lost now i => trivial
  | wake now => trivial
  | commit now rows epoch => trivial

theorem Cmd.accessFlag_ne {c : Cmd} (h : bs "write" ∉ c.flags) : c.accessFlag ≠ some (bs "write") := fun hflag =>
  h (List.mem_append_left _ (by simp [hflag]))

/-- The flushes are reported to write. -/
theorem Cmd.not_flush {c : Cmd} (h : bs "write" ∉ c.flags) : c ∉ [.FLUSHDB, .FLUSHALL] := by
  intro hmem
  simp only [List.mem_cons, List.not_mem_nil, or_false] at hmem
  rcases hmem with rfl | rfl
  · exact h (by decide)
  · exact h (by decide)

theorem untouching_snapshot : Untouching (snapshot : K F (Snapshot F)) := by
  refine .bind .get ?_
  intro _
  refine .bind untouching_clock ?_
  intro _
  exact .bind untouching_sweep fun _ => .pure

variable [PyFloat F]

/-- A command that is not reported to write touches no key. -/
theorem untouching_command {c : Cmd} {args : List Value} {method : List Value → K F Reply}
    (hm : (handler c : Handler F) = .keyspace method)
    (hread : bs "write" ∉ c.flags) : Untouching (method args) := by
  by_cases hhash : c ∈ hashReaders
  · exact untouching_hashReader hm hhash
  · exact (readsOnly_command hm (Cmd.accessFlag_ne hread) hhash).untouching

omit [PyFloat F] in
/-- A program that touches no key leaves the counters alone. -/
theorem generations_of_untouching {α : Type} {m : K F α} (h : Untouching m) (ctx : Ctx) (k : KState F) :
    (m ctx k).2.store.generations = k.store.generations := h ctx k

/-- Whatever clients do that send nothing that is reported to write, with notifications or without, and whenever the dumper
runs: no key is touched; and if they do not look at the fields of hashes, every key keeps its live value and its deadline. -/
theorem readers_change_nothing (env : Env) (s : Server F) {happenings : List (Happening F)}
    (horder : InOrder Happening.time happenings)
    (hqueued : s.Queued Request.Reads) (hreads : ∀ x ∈ happenings, x.Requests Request.Reads) :
    (∀ key, (final (Server.undergo env) s happenings).data.generation key = s.data.generation key) ∧
      (s.Queued Request.Looks → (∀ x ∈ happenings, x.Requests Request.Looks) → ∀ now, (∀ x ∈ happenings, x.time ≤ now) →
        (final (Server.undergo env) s happenings).data.toStore.content now = s.data.toStore.content now) := by
  constructor
  · obtain ⟨now, hnow⟩ := (happenings.map Happening.time).toFinset.exists_le
    have hlast : ∀ x ∈ happenings, x.time ≤ now := fun x hx => hnow _ (List.mem_toFinset.2 (List.mem_map_of_mem hx))
    have hend : (final (Server.undergo env) s happenings).data.generations = s.data.generations := by
      refine store_undergo (P := fun _ st => st.generations = s.data.generations) env (fun _ => id)
        (fun hq hc => Cmd.not_flush (hq _ hc))
        (fun hq hc hm ctx k hk => ?_) (fun ctx k hk => ?_) horder hreads (fun _ => rfl) hqueued hlast
      · exact (generations_of_untouching (untouching_command hm (hq _ hc)) ctx k).trans hk
      · exact (generations_of_untouching untouching_snapshot ctx k).trans hk
    intro key
    unfold Store.generation
    rw [hend]
  · intro hqueued hlooks now hnow
    refine store_undergo (P := fun now st => st.content now = s.data.toStore.content now) env (fun hle h => ?_)
      (fun hq hc => Cmd.not_flush (hq _ hc).1) (fun hq hc hm ctx k hk => ?_) (fun ctx k hk => ?_) horder hlooks
        (fun _ => rfl) hqueued hnow
    · exact Finmap.ext_lookup fun key => by rw [Store.lookup_later _ hle, Store.lookup_later _ hle, h]
    · exact ((readsOnly_command hm (Cmd.accessFlag_ne (hq _ hc).1) (hq _ hc).2).content ctx k).trans hk
    · exact (content_of_snapshot ctx k).trans hk

/-- A client that turns the notifications on, one that looks at what there is, and a dump. -/
def onlookers : List (Happening Int) :=
  [.arrival (.message ⟨0, 0⟩ 0 (some 0)
    (.array [.bytes (bs "CONFIG"), .bytes (bs "SET"), .bytes (bs "notify-keyspace-events"), .bytes (bs "KEA")])),
    .arrival (.message ⟨1, 1⟩ 0 (some 1) (.array [.bytes (bs "GET"), .bytes (bs "a")])),
    .wake ⟨2, 2⟩,
    .arrival (.message ⟨3, 3⟩ 0 (some 1) (.array [.bytes (bs "KEYS"), .bytes (bs "*")]))]

/-- A key that has expired meanwhile is as it was: gone for everybody. -/
theorem readers_change_nothing_onlookers :
    let s : Server Int := .init 0 none (Dict.set ∅ (.bytes (bs "a")) ⟨.raw (.bytes (bs "1")), some 1⟩) fun _ => true
    (final (Server.undergo .plain) s onlookers).data.toStore.content 4 = s.data.toStore.content 4 := by
  intro s
  have horder : InOrder Happening.time onlookers := by simp [InOrder, onlookers, Happening.time, Arrival.time]
  have hqueued : ∀ Q, s.Queued Q := fun Q => queued_init Q 0 none _ _
  have hlooks : ∀ x ∈ onlookers, x.Requests Request.Looks := by
    intro x hx
    simp only [onlookers, List.mem_cons, List.not_mem_nil, or_false] at hx
    rcases hx with rfl | rfl | rfl | rfl
    · exact Happening.requests_of (Arrival.requests_of (Request.runs_of (c := .CONFIG) (by decide) ⟨by decide, by decide⟩))
    · exact Happening.requests_of (Arrival.requests_of (Request.runs_of (c := .GET) (by decide) ⟨by decide, by decide⟩))
    · trivial
    · exact Happening.requests_of (Arrival.requests_of (Request.runs_of (c := .KEYS) (by decide) ⟨by decide, by decide⟩))
  exact (readers_change_nothing .plain s horder (hqueued _) fun x hx => (hlooks x hx).reads).2 (hqueued _) hlooks 4
    (by simp [onlookers, Happening.time, Arrival.time])

/-! ## Unnoticed -/

/-- It works on some keys: it does not look at the keyspace as a whole, nor has it to do with the subscriptions or the
configuration. -/
def Request.Works : Request → Prop := Runs fun c _ => c.scans = false ∧ c ∉ pubSubCommands ∧ c ≠ .CONFIG

/-- It looks, and does not configure. -/
def Request.Peeks : Request → Prop := Runs fun c _ => bs "write" ∉ c.flags ∧ c ∉ hashReaders ∧ c ≠ .CONFIG

omit [PyFloat F] in
/-- The observer's clients work, the others look on. -/
def Division.byWriting (mine : Option SessionId → Bool) : Division F where
  mine
  own := Request.Works
  others := Request.Peeks
  watchless := False
  agree now x x' := x.1.toStore.content now = x'.1.toStore.content now ∧ (∀ key, x.1.generation key = x'.1.generation key) ∧
    x.2 = x'.2
  refl _ _ := ⟨rfl, fun _ => rfl, rfl⟩
  later hle h := ⟨Finmap.ext_lookup fun key => by rw [Store.lookup_later _ hle, Store.lookup_later _ hle, h.1], h.2⟩

theorem alike_works {c : Cmd} {args : List Value} {method : List Value → K F Reply}
    (hm : (handler c : Handler F) = .keyspace method)
    (hscan : c.scans = false) : Alike r (Apart.Abeam (.byWriting mine) r.2.mono) (liftK (method args)) := by
  refine alike_command hm (fun s s' h => ⟨h.1.off, h.1.off'⟩) ?_
  intro s s' h
  have hin : InStep Set.univ Set.univ r.2.mono ∅ s.kstate s'.kstate :=
    ⟨fun key _ => congrArg (Finmap.lookup key) h.1.agree.1, fun key _ => h.1.agree.2.1 key, fun _ h => h.elim,
      Set.empty_subset _, h.2, rfl⟩
  have hallows : (Discipline.within Set.univ r.2).Allows c args := Cmd.allows_within r.2 hscan fun _ _ => trivial
  obtain ⟨hout, hend⟩ := (hallows.disciplined hm).inStep (Server.beside h.1.off h.1.off' h.1.port) hin
  refine ⟨hout, h.1.withStore _ _ ⟨?_, fun key => hend.generation key trivial, h.1.agree.2.2⟩, hend.draws⟩
  exact Finmap.ext_lookup fun key => hend.content key trivial

theorem abreast_byWriting (hstate : mine state = true) :
    Abreast r Request.Works (Apart.Abeam (F := F) (.byWriting mine) r.2.mono) state := by
  refine Apart.abreast (d := .byWriting mine) hstate (.inr fun _ _ h st => st.dirty_congr h.1 h.2.1) fun {q c} hq hc => ?_
  obtain ⟨hscan, hpubsub, hconfig⟩ := hq c hc
  simp only [pubSubCommands, List.mem_cons, List.not_mem_nil, or_false, not_or] at hpubsub
  refine Tandem.runHandler ?_ fun method hm => alike_works hm hscan
  exact {
    port := fun s s' h => h.1.port
    watch := fun _ i hi key s s' h => by
      refine ⟨h.1.watch (hi ▸ hstate) id (fun _ => rfl) ?_, h.2⟩
      rw [h.1.agree.2.1, Store.is_live_eq, Store.is_live_eq, h.1.agree.1]
    unwatch := fun _ i hi s s' h => ⟨h.1.update (hi ▸ hstate) fun _ => ⟨rfl, .inr rfl, fun _ => .inl⟩, h.2⟩
    flags := fun h => absurd h hconfig
    flush := fun _ s s' h => by
      refine ⟨⟨{ h.1 with agree := ?_ }, h.2⟩, ⟨{ h.1 with agree := ?_ }, h.2⟩⟩
      · exact ⟨rfl, fun _ => rfl, h.1.agree.2.2⟩
      · exact ⟨h.1.agree.1, h.1.agree.2.1, congrArg (Option.map DB.flush) h.1.agree.2.2⟩
    names := fun h => absurd h (by simp [subscribeCommands, hpubsub])
    publish := fun h => absurd h hpubsub.2.2.2.2.1
    hub := fun h => absurd h hpubsub.2.2.2.2.2 }

theorem unwinding_byWriting (env : Env) (mine : Option SessionId → Bool) :
    Unwinding (Server.receive (F := F) env) Arrival.time (fun a => mine a.state)
      (fun a => (mine a.state = true → a.Requests Request.Works) ∧ (mine a.state = false → a.Requests Request.Peeks))
      (Apart (.byWriting mine)) := by
  refine Apart.unwinding env (.byWriting mine) (fun clock hm => abreast_byWriting hm) fun clock hm s' =>
    Apart.abreast_other hm s' (fun {q c} hq hc => ?_) ?_
  · obtain ⟨hread, -, hconfig⟩ := hq c hc
    have hflush := Cmd.not_flush hread
    simp only [List.mem_cons, List.not_mem_nil, or_false, not_or] at hflush ⊢
    exact ⟨hconfig, hflush⟩
  · intro q c method hq hc hm t ht
    have honly : ReadsOnly (method q.args) := readsOnly_command hm (Cmd.accessFlag_ne (hq c hc).1) (hq c hc).2.1
    exact ⟨(honly.content _ t.kstate).trans ht.agree.1, fun key => (honly.generation _ t.kstate key).trans (ht.agree.2.1 key),
      ht.agree.2.2⟩

/-- Clients at work get the answers, find in their sessions, transactions that watch keys included, and leave in the keyspace
and the persisted table what they would if those who only look had never sent anything. -/
theorem readers_unnoticed (env : Env) (port : Nat) (table : Option (Table F)) (storage : Dict Value (Entry F))
    (wired : SessionId → Bool)
    (mine : Option SessionId → Bool) {arrivals : List Arrival} (horder : InOrder Arrival.time arrivals)
    (hmine : ∀ a ∈ arrivals, mine a.state = true → a.Requests Request.Works)
    (hothers : ∀ a ∈ arrivals, mine a.state = false → a.Requests Request.Peeks) :
    let s : Server F := .init port table storage wired
    let alone := arrivals.filter fun a => mine a.state
    answers (Server.receive env) (fun a => mine a.state) s arrivals = answers (Server.receive env)
      (fun a => mine a.state) s alone ∧
      (∀ i, mine (some i) = true → (final (Server.receive env) s arrivals).sessions i =
        (final (Server.receive env) s alone).sessions i) ∧
      (final (Server.receive env) s arrivals).table = (final (Server.receive env) s alone).table ∧
      ∀ now, (∀ a ∈ arrivals, a.time ≤ now) →
        (final (Server.receive env) s arrivals).data.toStore.content now =
          (final (Server.receive env) s alone).data.toStore.content now := by
  intro s alone
  obtain ⟨hanswers, hsessions, hfinal⟩ :=
    Apart.noninterference (d := .byWriting mine) (unwinding_byWriting env mine) port table storage wired horder hmine hothers
  obtain ⟨t, ht⟩ := (arrivals.map Arrival.time).toFinset.exists_le
  have hagree := (hfinal t fun a ha => ht _ (List.mem_toFinset.2 (List.mem_map_of_mem ha))).agree
  exact ⟨hanswers, hsessions, hagree.2.2, fun now hnow => (hfinal now hnow).agree.1⟩

/-- A client in a transaction on a key that it watches, and one that looks at the key meanwhile. -/
def watchAndLook : List Arrival :=
  [.message ⟨0, 0⟩ 0 (some 0) (.array [.bytes (bs "WATCH"), .bytes (bs "a")]),
    .message ⟨1, 1⟩ 0 (some 0) (.array [.bytes (bs "MULTI")]),
    .message ⟨2, 2⟩ 0 (some 1) (.array [.bytes (bs "GET"), .bytes (bs "a")]),
    .message ⟨3, 3⟩ 0 (some 0) (.array [.bytes (bs "APPEND"), .bytes (bs "a"), .bytes (bs "1")]),
    .message ⟨4, 4⟩ 0 (some 0) (.array [.bytes (bs "EXEC")])]

/-- The transaction is answered as if nobody had looked. -/
theorem readers_unnoticed_watchAndLook :
    answers (Server.receive (F := Int) .plain) (fun a => decide (a.state = some 0)) (.init 0 none ∅ fun _ => true) watchAndLook =
      answers (Server.receive (F := Int) .plain) (fun a => decide (a.state = some 0)) (.init 0 none ∅ fun _ => true)
        (watchAndLook.filter fun a => decide (a.state = some 0)) := by
  refine (readers_unnoticed (F := Int) .plain 0 none ∅ (fun _ => true) (fun state => decide (state = some 0))
    (by simp [InOrder, watchAndLook, Arrival.time]) ?_ ?_).1
  · intro a ha hmine
    simp only [watchAndLook, List.mem_cons, List.not_mem_nil, or_false] at ha
    rcases ha with rfl | rfl | rfl | rfl | rfl
    · exact Arrival.requests_of (Request.runs_of (c := .WATCH) (by decide) ⟨by decide, by decide, by decide⟩)
    · exact Arrival.requests_of (Request.runs_of_none (by decide))
    · cases hmine
    · exact Arrival.requests_of (Request.runs_of (c := .APPEND) (by decide) ⟨by decide, by decide, by decide⟩)
    · exact Arrival.requests_of (Request.runs_of_none (by decide))
  · intro a ha hmine
    simp only [watchAndLook, List.mem_cons, List.not_mem_nil, or_false] at ha
    rcases ha with rfl | rfl | rfl | rfl | rfl
    · cases hmine
    · cases hmine
    · exact Arrival.requests_of (Request.runs_of (c := .GET) (by decide) ⟨by decide, by decide, by decide⟩)
    · cases hmine
    · cases hmine

end Kagni
