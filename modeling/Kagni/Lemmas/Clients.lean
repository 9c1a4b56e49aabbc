import Kagni.Atomics.Basic
import Kagni.Clients
import Kagni.Lemmas.Lockstep
import Kagni.Lemmas.Sparing
import Kagni.Lemmas.Tandem
import Kagni.PubSub

/-!
# What a command leaves of the rest

A command leaves the keys it is not about as they are, runs alike where its keys are, and without notifications does nothing
to a session that is not subscribed to anything.
-/

namespace Kagni

open Lib Lib.Prog

variable {F : Type} {α : Type}

/-! ## Time -/

theorem alive_later {now now' : Int} (h : now ≤ now') (o : Option (Entry F)) : alive now' (alive now o) = alive now' o := by
  cases o with
  | none => rfl
  | some e =>
    cases he : e.live now with
    | true => rw [alive_of_live he]
    | false =>
      rw [alive_of_dead he, alive_of_dead]
      · rfl
      · cases ht : e.expires_at with
        | none =>
          rw [Entry.live_of_none ht] at he
          cases he
        | some t =>
          rw [Entry.live_of_some ht, decide_eq_false_iff_not] at he ⊢
          omega

/-- What is live at an instant is among what was live before. -/
theorem Store.lookup_later (s : Store F) {now now' : Int} (h : now ≤ now') (key : Value) :
    (s.content now').lookup key = alive now' ((s.content now).lookup key) := by
  rw [Store.content_alive, Store.content_alive, alive_later h]

/-- A key is live if the content has it. -/
theorem Store.is_live_eq (s : Store F) (key : Value) (now : Int) : s.is_live key now = ((s.content now).lookup key).isSome := by
  unfold Store.is_live
  rw [Store.content_lookup]
  cases s.storage.get key with
  | none => rfl
  | some e => cases he : e.live now <;> simp [Option.filter, he]

/-- Whether a session's keys have changed is read off the content and the counters. -/
theorem Session.dirty_congr (st : Session) {s s' : Store F} {now : Int} (hcontent : s.content now = s'.content now)
    (hgeneration : ∀ key, s.generation key = s'.generation key) : st.dirty s now = st.dirty s' now := by
  unfold Session.dirty
  congr 1
  funext p
  rw [hgeneration, Store.is_live_eq, Store.is_live_eq, hcontent]

/-! ## The keys of a command -/

namespace Cmd

variable {c : Cmd} {args : List Value} {key : Value}

theorem mem_keys : key ∈ c.keys args ↔ key ∈ c.looked args ∨ key ∈ c.opened args ∨ key ∈ c.replaced args ∨
    key ∈ c.created args := by
  simp [keys]

/-- A command that does not scan works within any keys that include its own. -/
theorem allows_within {A : Set Value} (clock : Clock) (hscan : c.scans = false) (h : ∀ key ∈ c.keys args, key ∈ A) :
    (Discipline.within A clock).Allows c args where
  look key hkey := h key (mem_keys.2 (.inl hkey))
  fields key hkey := h key (mem_keys.2 (.inr (.inl hkey)))
  replace key hkey := h key (mem_keys.2 (.inr (.inr (.inl hkey))))
  create key hkey _ := h key (mem_keys.2 (.inr (.inr (.inr hkey))))
  store _ _ := trivial
  value _ _ := trivial
  scan hs := by
    rw [hscan] at hs
    cases hs
  past _ := trivial
  empty _ := id

theorem allows_free (c : Cmd) (args : List Value) (clock : Clock) : (Discipline.free clock).Allows c args :=
  ⟨fun _ _ => trivial, fun _ _ => trivial, fun _ _ => trivial, fun _ _ _ => trivial, fun _ _ => trivial, fun _ _ => trivial,
    fun _ => trivial, fun _ => trivial, fun _ => id⟩

end Cmd

section Commands

variable [PyFloat F] {c : Cmd} {args : List Value} {method : List Value → K F Reply} {ctx ctx' : Ctx} {key : Value}

/-- A command that scans only reads. -/
theorem content_of_scans (hm : (handler c : Handler F) = .keyspace method) (hscan : c.scans = true) (k : KState F) :
    (method args ctx k).2.store.content ctx.clock.mono = k.store.content ctx.clock.mono := by
  refine content_of_reads (Q := fun _ => True) (fun w => ?_) ctx k
  have hc := of_decide_eq_true hscan
  rcases hc with rfl | rfl | rfl | rfl
  · exact method_args1 (C := fun m => w.Reads m fun _ => True) (P := fun _ => True)
      (fun _ => .raise) hm trivial fun pattern _ => w.reads_KEYS pattern
  · exact method_rest1 (C := fun m => w.Reads m fun _ => True) (P := fun _ => True)
      (fun _ => .raise) hm trivial fun cursor options _ => w.reads_SCAN cursor options
  · exact method_args0 (C := fun m => w.Reads m fun _ => True) (fun _ => .raise) hm w.reads_DBSIZE
  · cases hm
    exact w.reads_INFO args

/-- A command leaves the keys it is not about as they are, whoever listens. -/
theorem lookup_of_command (hm : (handler c : Handler F) = .keyspace method) (hkey : key ∉ c.keys args) (k : KState F) :
    ((method args ctx k).2.store.content ctx.clock.mono).lookup key = (k.store.content ctx.clock.mono).lookup key := by
  cases hscan : c.scans with
  | true => rw [content_of_scans hm hscan]
  | false =>
    have hallows := Cmd.allows_within (A := {key | key ∈ c.keys args}) ctx.clock hscan fun _ h => h
    have hend := (hallows.disciplined hm).sparing (o := (k.store.content ctx.clock.mono).lookup key) hkey k rfl
    revert hend
    cases method args ctx k with
    | mk out k' =>
      cases out with
      | ok _ => exact And.left
      | error _ => exact id

/-- Without notifications a command does not depend on the subscribers, and pushes nothing. -/
theorem unheard_command (hm : (handler c : Handler F) = .keyspace method) (hctx : ctx.Beside ctx.clock ctx') :
    Unheard ctx ctx' (method args) :=
  ((Cmd.allows_free c args ctx.clock).disciplined hm).unheard hctx

end Commands

/-! ## Keyspace commands on a server -/

section Server

variable {r : Env × Clock} {s s' : Server F}

/-- The server with another store, and the random choices made so far. -/
def Server.withStore (s : Server F) (store : Store F) (draws : Nat) : Server F :=
  { s with data := { s.data with toStore := store }, draws := draws }

theorem absorb_unheard {k : KState F} (h : k.pushed = []) : s.absorb k = s.withStore k.store k.draws := by
  unfold Server.absorb
  rw [h]
  rfl

/-- The contexts of the keyspace commands of two servers without notifications. -/
theorem Server.beside (hoff : s.notify_keyspace_events = []) (hoff' : s'.notify_keyspace_events = [])
    (hport : s.tcp_port = s'.tcp_port) :
    (s.ctx r.1 r.2).Beside r.2 (s'.ctx r.1 r.2) := ⟨hoff, hoff', rfl, rfl, rfl, hport⟩

variable [PyFloat F] {c : Cmd} {args : List Value} {method : List Value → K F Reply}

/-- Without notifications a keyspace command changes the store and nothing else. -/
theorem absorb_command (hm : (handler c : Handler F) = .keyspace method) (hoff : s.notify_keyspace_events = []) :
    s.absorb (method args (s.ctx r.1 r.2) s.kstate).2 =
      s.withStore (method args (s.ctx r.1 r.2) s.kstate).2.store (method args (s.ctx r.1 r.2) s.kstate).2.draws :=
  absorb_unheard ((unheard_command hm (Server.beside hoff hoff rfl)) s.kstate).2

/-- Two keyspace commands on two servers run alike when they answer alike and leave stores with which the servers are related. -/
theorem alike_command {R : Server F → Server F → Prop} (hm : (handler c : Handler F) = .keyspace method)
    (hoff : ∀ s s', R s s' → s.notify_keyspace_events = [] ∧ s'.notify_keyspace_events = [])
    (h : ∀ s s', R s s' → (method args (s.ctx r.1 r.2) s.kstate).1 = (method args (s'.ctx r.1 r.2) s'.kstate).1 ∧
      R (s.withStore (method args (s.ctx r.1 r.2) s.kstate).2.store (method args (s.ctx r.1 r.2) s.kstate).2.draws)
        (s'.withStore (method args (s'.ctx r.1 r.2) s'.kstate).2.store (method args (s'.ctx r.1 r.2) s'.kstate).2.draws)) :
    Alike r R (liftK (method args)) := by
  refine alike_liftK ?_
  intro s s' hs
  rw [absorb_command hm (hoff s s' hs).1, absorb_command hm (hoff s s' hs).2]
  exact h s s' hs

end Server

/-! ## Publishing -/

/-- What a program computes keeps every invariant. -/
theorem keeps_of_computes {m : K F α} {Q : α → Prop} (h : Computes m Q) (ctx : Ctx) (I : KState F → Prop) : Keeps ctx I m Q := by
  obtain ⟨out, hrun, hQ⟩ := h.run ctx
  intro k hk
  rw [hrun]
  cases out with
  | ok a => exact ⟨hk, hQ a rfl⟩
  | error e => exact hk

/-- What is published reaches subscribers only, and changes nothing else. -/
theorem publish_reaches (channel payload : Value) (ctx : Ctx) (k : KState F) :
    (publish channel payload ctx k).2.store = k.store ∧ (publish channel payload ctx k).2.draws = k.draws ∧
      ∀ p ∈ (publish channel payload ctx k).2.pushed, p ∈ k.pushed ∨ ∃ topic name, p.1 ∈ ctx.hub.subscribers topic name := by
  let I : KState F → Prop := fun k' => k'.store = k.store ∧ k'.draws = k.draws ∧
    ∀ p ∈ k'.pushed, p ∈ k.pushed ∨ ∃ topic name, p.1 ∈ ctx.hub.subscribers topic name
  have hdeliver : ∀ {i : SessionId}, (∃ topic name, i ∈ ctx.hub.subscribers topic name) → ∀ frame,
      Keeps ctx I (deliver i frame : K F Unit) fun _ => True := fun hi frame => .modify fun k' hk' => by
    refine ⟨hk'.1, hk'.2.1, fun p hp => ?_⟩
    rcases List.mem_append.1 hp with hp | hp
    · exact hk'.2.2 p hp
    · obtain rfl := List.mem_singleton.1 hp
      exact .inr hi
  have hpublish : Keeps ctx I (publish channel payload : K F Nat) fun _ => True := by
    refine (keeps_of_computes (computes_needHash channel) ctx I).bind ?_
    intro _ _
    refine Keeps.ask.bind ?_
    intro ctx' hctx
    subst hctx
    have hsubscribers : ∀ i ∈ ((ctx'.hub.channels.get channel).map OrdSet.elems).getD [], ∃ topic name,
        i ∈ ctx'.hub.subscribers topic name := by
      intro i hi
      refine ⟨.channels, channel, ?_⟩
      unfold PubSubHub.subscribers PubSubHub.table
      cases hget : ctx'.hub.channels.get channel with
      | none =>
        rw [hget] at hi
        cases hi
      | some subscribers =>
        rw [hget] at hi
        exact hi
    refine (Keeps.each fun i hi => ?_).bind fun _ _ => ?_
    · exact (keeps_of_computes (computes_orFail _) ctx' I).bind fun frame _ => hdeliver (hsubscribers i hi) frame
    · refine Triple.weaken (Triple.fold (I := fun (_ : Nat) => I) (E := fun _ => I) fun receivers p hp => ?_) fun _ _ h =>
        ⟨h, trivial⟩
      have hone : Keeps ctx' I (do
          let matcher ← compile_glob p.1
          if ← matches_ matcher channel then
            let frame ← orFail (build_pmessage p.1 channel payload)
            Prog.each (fun session => deliver session frame) p.2.elems
            return receivers + p.2.elems.length
          else return receivers : K F Nat) fun _ => True := by
        refine (keeps_of_computes (computes_compile_glob p.1) ctx' I).bind ?_
        intro matcher _
        refine (keeps_of_computes (computes_matches matcher channel) ctx' I).bind ?_
        intro b _
        refine .ite (fun _ => ?_) fun _ => .pure trivial
        refine (keeps_of_computes (computes_orFail _) ctx' I).bind ?_
        intro frame _
        refine (Keeps.each fun i hi => hdeliver ?_ frame).bind fun _ _ => .pure trivial
        refine ⟨.patterns, p.1, ?_⟩
        unfold PubSubHub.subscribers PubSubHub.table
        rw [(Dict.get_eq_some_iff ..).2 hp]
        exact hi
      exact Triple.weaken hone fun _ _ h => h.1
  have hend := hpublish k ⟨rfl, rfl, fun p hp => .inl hp⟩
  revert hend
  cases publish channel payload ctx k with
  | mk out k' =>
    cases out with
    | ok _ => exact And.left
    | error _ => exact id

end Kagni
