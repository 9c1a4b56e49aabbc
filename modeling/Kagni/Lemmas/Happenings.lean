import Kagni.Lemmas.Steady

/-!
# Invariants of the store as time goes by

Whatever the clients do, with notifications or without, and whenever the dumper runs: what holds of the store at an instant,
holds later if nothing happens, and is kept by the commands that are sent and by a snapshot, holds at the end. Nobody flushes.
-/

namespace Kagni

open Lib Lib.Prog

variable {F : Type} {P : Store F → Prop} {Q : Request → Prop} {r : Env × Clock} {state : Option SessionId} {s s' : Server F}

/-- The store satisfies `P`, the queued requests `Q`. -/
structure Server.Holds (P : Store F → Prop) (Q : Request → Prop) (s : Server F) : Prop where
  store : P s.data.toStore
  queued : s.Queued Q

namespace Server.Holds

theorem update (h : s.Holds P Q) {i : SessionId} {f : Session → Session} (hf : ∀ q ∈ (f (s.sessions i)).queue, Q q) :
    (s.update i f).Holds P Q :=
  ⟨h.store, queued_update h.queued i hf⟩

theorem update_queue (h : s.Holds P Q) {i : SessionId} {f : Session → Session}
    (hf : (f (s.sessions i)).queue = (s.sessions i).queue) :
    (s.update i f).Holds P Q := h.update fun q hq => h.queued i q (hf ▸ hq)

theorem absorb (h : s.Holds P Q) {k : KState F} (hk : P k.store) : (s.absorb k).Holds P Q := by
  refine ⟨?_, queued_of_sameMode h.queued (quiet_sameMode.absorb s k)⟩
  unfold Server.absorb
  rw [Server.push_data]
  exact hk

theorem liftK (h : s.Holds P Q) {α : Type} {m : K F α} (hm : P (m (s.ctx r.1 r.2) s.kstate).2.store) :
    (Kagni.liftK m r s).2.Holds P Q := by
  have hend := h.absorb hm
  unfold Kagni.liftK
  revert hend
  cases m (s.ctx r.1 r.2) s.kstate with
  | mk out k => cases out <;> exact id

theorem tandem {c : Cmd} (hc : c ∉ [.FLUSHDB, .FLUSHALL]) : Tandem r (fun s s' : Server F => s = s' ∧ s.Holds P Q) state c where
  port _ _ h := by rw [h.1]
  watch _ i _ key s s' h := ⟨by rw [h.1], h.2.update_queue rfl⟩
  unwatch _ i _ s s' h := ⟨by rw [h.1], h.2.update_queue rfl⟩
  flags _ s s' h := ⟨by rw [h.1], fun _ => ⟨by rw [h.1], h.2.store, h.2.queued⟩⟩
  flush hflush := absurd hflush (by simpa using hc)
  names _ i _ s s' h := by
    have hnames : ∀ (f : OrdSet Value → OrdSet Value) topic, (s.update i (·.withNames f topic)).Holds P Q := fun f topic =>
      h.2.update_queue (withNames_mode _ f topic).2.1
    refine ⟨by rw [h.1], fun topic name => ⟨by rw [h.1], ⟨h.2.store, (hnames _ topic).queued⟩⟩,
      fun topic name => ⟨by rw [h.1], ⟨h.2.store, (hnames _ topic).queued⟩⟩,
        fun frame => ⟨by rw [h.1], h.2.update_queue (deliver_mode _ frame).2.1⟩⟩
  publish _ channel message := .of_respects fun s h => h.liftK <| by
    rw [(publish_reaches channel message (s.ctx r.1 r.2) s.kstate).1]
    exact h.store
  hub _ s s' h := by rw [h.1]

variable [PyFloat F]

theorem abreast (hflush : ∀ {q c}, Q q → Cmd.ofName q.name = some c → c ∉ [.FLUSHDB, .FLUSHALL])
    (hcommand : ∀ {q c method}, Q q → Cmd.ofName q.name = some c → (handler c : Handler F) = .keyspace method →
      ∀ ctx k, ctx.clock = r.2 → P k.store → P (method q.args ctx k).2.store) :
    Abreast r Q (fun s s' : Server F => s = s' ∧ s.Holds P Q) state :=
  .of_invariant (fun _ h => h.queued _)
    (fun {_ i _} _ hf h => h.update fun q hq => ((hf _).queue q hq).elim (h.queued i q) id) fun hq hc s h =>
    ((tandem (hflush hq hc)).runHandler
      (fun _ hm => .of_respects fun s h => h.liftK (hcommand hq hc hm _ s.kstate rfl h.store)) s s ⟨rfl, h⟩).2.2

end Server.Holds

variable [PyFloat F]

/-- What holds of the store at the start, whenever that is, holds at the end. -/
theorem store_undergo {P : Int → Store F → Prop} (env : Env) (hwait : ∀ {now now' s}, now ≤ now' → P now s → P now' s)
    (hflush : ∀ {q c}, Q q → Cmd.ofName q.name = some c → c ∉ [.FLUSHDB, .FLUSHALL])
    (hcommand : ∀ {q c method}, Q q → Cmd.ofName q.name = some c → (handler c : Handler F) = .keyspace method →
      ∀ ctx k, P ctx.clock.mono k.store → P ctx.clock.mono (method q.args ctx k).2.store)
    (hsnapshot : ∀ ctx (k : KState F), P ctx.clock.mono k.store → P ctx.clock.mono (snapshot ctx k).2.store)
    {happenings : List (Happening F)} (horder : InOrder Happening.time happenings) (hrequests : ∀ x ∈ happenings, x.Requests Q)
    (hstart : ∀ now, P now s.data.toStore) (hqueued : s.Queued Q) {now : Int} (hnow : ∀ x ∈ happenings, x.time ≤ now) :
    P now (final (Server.undergo env) s happenings).data.toStore := by
  have hunwinding : Unwinding (Server.undergo (F := F) env) Happening.time (fun _ => false) (·.Requests Q) fun now s _ =>
    s.Holds (P now) Q := {
    wait := fun hle h => ⟨hwait hle h.store, h.queued⟩
    same := fun hmine => by cases hmine
    other := fun {x s _} _ hok h => by
      cases x with
      | arrival a =>
        cases a with
        | message clock seed state message =>
          have habreast : Abreast (env, clock) Q (fun s s' : Server F => s = s' ∧ s.Holds (P clock.mono) Q) state :=
            Server.Holds.abreast hflush fun hq hc hm ctx k hctx hk => by
              subst hctx
              exact hcommand hq hc hm ctx k hk
          exact (habreast.dispatch hok { s with draws := seed } _ ⟨rfl, h.store, h.queued⟩).2.2
        | lost clock i => exact ⟨h.store, (h.update_queue (i := i) (f := fun st => { st with sender := none }) rfl).queued⟩
      | wake clock => exact h.liftK (r := (env, clock)) (hsnapshot (s.ctx env clock) s.kstate h.store)
      | commit clock rows epoch => exact ⟨h.store, h.queued⟩ }
  have hend := (hunwinding.noninterference hrequests horder fun t => ⟨hstart t, hqueued⟩).2 now hnow
  exact hend.store

/-- A snapshot leaves the content as it is. -/
theorem content_of_snapshot (ctx : Ctx) (k : KState F) :
    (snapshot ctx k).2.store.content ctx.clock.mono = k.store.content ctx.clock.mono :=
  content_of_reads (Q := fun _ => True)
    (fun w => Keeps.get.bind fun _ _ => (Steady.clock).bind fun _ _ => w.reads_sweep.bind fun _ _ => .pure trivial) ctx k

end Kagni
