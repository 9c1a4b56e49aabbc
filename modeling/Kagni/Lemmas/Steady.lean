import Kagni.Lemmas.Clients

/-!
# What a keyspace program leaves alone

A keyspace program writes the store, makes random choices and publishes events. An invariant that survives these three
survives the program, whatever its keys are; so what it pushes reaches subscribers only.
-/

namespace Kagni

open Lib Lib.Prog

variable {F : Type} {α : Type} {ctx : Ctx} {I : KState F → Prop} {key : Value} {m : K F α}

/-- The invariant does not look at the store nor at the random choices, and survives an event. -/
structure Steady (ctx : Ctx) (I : KState F → Prop) : Prop where
  store : ∀ k store, I k → I { k with store := store }
  draws : ∀ k draws, I k → I { k with draws := draws }
  notify : ∀ key event, Keeps ctx I (_notify key event) fun _ => True

namespace Steady

theorem storage (h : Steady ctx I) (f : Dict Value (Entry F) → Dict Value (Entry F)) : Keeps ctx I (setStorage f) fun _ => True :=
  .modify fun k hk => h.store k _ hk

theorem clock : Keeps ctx I (Kagni.clock : K F Clock) fun _ => True := Keeps.ask.bind fun _ _ => .pure trivial

theorem entry (key : Value) : Keeps ctx I (Kagni.entry key) fun _ => True := by
  refine (keeps_of_computes (computes_needHash key) ctx I).bind ?_
  intro _ _
  exact Keeps.get.bind fun _ _ => .pure trivial

theorem purge (h : Steady ctx I) (key : Value) : Keeps ctx I (_purge_key key) fun _ => True :=
  (h.storage _).bind fun _ _ => h.notify key .expired

theorem get (h : Steady ctx I) (key : Value) : Keeps ctx I (data_get key) fun _ => True := by
  refine (entry key).bind ?_
  intro e _
  cases e with
  | none => exact .pure trivial
  | some e =>
    refine clock.bind ?_
    intro now _
    refine .ite (fun _ => ?_) fun _ => (h.purge key).bind fun _ _ => .pure trivial
    split
    · exact .pure trivial
    · exact .pure trivial

theorem is_live (key : Value) : Keeps ctx I (Kagni.is_live key) fun _ => True := by
  refine (entry key).bind ?_
  intro e _
  cases e with
  | none => exact .pure trivial
  | some e => exact clock.bind fun _ _ => .pure trivial

theorem sweep (h : Steady ctx I) : Keeps ctx I _sweep fun _ => True := by
  refine clock.bind ?_
  intro _ _
  refine Keeps.get.bind ?_
  intro _ _
  exact .each fun p _ => h.purge p.1

theorem data_set (h : Steady ctx I) (key : Value) (value : Obj F) (deadline : Option Int) (keep_ttl : Bool) :
    Keeps ctx I (Kagni.data_set key value deadline keep_ttl) fun _ => True := by
  refine clock.bind ?_
  intro _ _
  exact (entry key).bind fun _ _ => h.storage _

theorem setitem (h : Steady ctx I) (key : Value) (value : Obj F) : Keeps ctx I (Kagni.setitem key value) fun _ => True :=
  (keeps_of_computes (computes_needHash key) ctx I).bind fun _ _ => h.storage _

theorem remove (h : Steady ctx I) (key : Value) : Keeps ctx I (data_remove key) fun _ => True := by
  refine (entry key).bind ?_
  intro e _
  cases e with
  | none => exact .pure trivial
  | some e =>
    refine (h.storage _).bind ?_
    intro _ _
    exact clock.bind fun _ _ => .pure trivial

theorem expire (h : Steady ctx I) (key : Value) (secs : Int) : Keeps ctx I (data_expire key secs) fun _ => True := by
  refine (entry key).bind ?_
  intro e _
  cases e with
  | none => exact .pure trivial
  | some e =>
    refine clock.bind ?_
    intro now _
    refine .ite (fun _ => ?_) fun _ => .ite (fun _ => ?_) fun _ => ?_
    · exact (h.purge key).bind fun _ _ => .pure trivial
    · exact (h.storage _).bind fun _ _ => .pure trivial
    · exact (h.storage _).bind fun _ _ => .pure trivial

theorem expire_at (h : Steady ctx I) (key : Value) (wall_deadline_ns : Int) :
    Keeps ctx I (data_expire_at key wall_deadline_ns) fun _ => True := by
  refine (entry key).bind ?_
  intro e _
  cases e with
  | none => exact .pure trivial
  | some e =>
    refine clock.bind ?_
    intro now _
    refine .ite (fun _ => ?_) fun _ => .ite (fun _ => ?_) fun _ => ?_
    · exact (h.purge key).bind fun _ _ => .pure trivial
    · exact (h.storage _).bind fun _ _ => .pure trivial
    · exact (h.storage _).bind fun _ _ => .pure trivial

theorem wall_expiry (h : Steady ctx I) (key : Value) : Keeps ctx I (Kagni.wall_expiry key) fun _ => True := by
  refine (entry key).bind ?_
  intro e _
  cases e with
  | none => exact .pure trivial
  | some e =>
    refine clock.bind ?_
    intro now _
    split
    · exact .pure trivial
    · exact .ite (fun _ => (h.purge key).bind fun _ _ => .pure trivial) fun _ => .pure trivial

theorem ttl_ms (h : Steady ctx I) (key : Value) : Keeps ctx I (Kagni.ttl_ms key) fun _ => True := by
  refine (entry key).bind ?_
  intro e _
  cases e with
  | none => exact .pure trivial
  | some e =>
    dsimp only
    split
    · exact .pure trivial
    · refine clock.bind ?_
      intro _ _
      exact .ite (fun _ => (h.purge key).bind fun _ _ => .pure trivial) fun _ => .pure trivial

theorem persist (h : Steady ctx I) (key : Value) : Keeps ctx I (Kagni.persist key) fun _ => True := by
  refine (entry key).bind ?_
  intro e _
  cases e with
  | none => exact .pure trivial
  | some e =>
    refine clock.bind ?_
    intro now _
    refine .ite (fun _ => ?_) fun _ => .ite (fun _ => .pure trivial) fun _ => ?_
    · exact (h.storage _).bind fun _ _ => .pure trivial
    · exact (h.storage _).bind fun _ _ => .pure trivial

theorem draw (h : Steady ctx I) (n : Nat) : Keeps ctx I (Kagni.draw n) fun _ => True := by
  refine Keeps.get.bind ?_
  intro _ _
  refine Keeps.bind (Q := fun _ => True) (.modify fun k hk => h.draws k _ hk) ?_
  intro _ _
  exact Keeps.ask.bind fun _ _ => .pure trivial

/-- Every access keeps the invariant. -/
theorem access (h : Steady ctx I) {d : Discipline} {S S' : Set Value} {Q : α → Prop} (hm : Access d S α m Q S') :
    Keeps ctx I m fun _ => True := by
  cases hm with
  | ask f => exact fun k hk => ⟨hk, trivial⟩
  | draw n => exact h.draw n
  | get f _ _ => exact (h.get _).bind fun _ _ => .pure trivial
  | is_live _ => exact is_live _
  | sweep => exact h.sweep
  | index f _ => exact fun k hk => ⟨hk, trivial⟩
  | data_set _ _ _ _ _ => exact h.data_set _ _ _ _
  | setitem _ _ _ => exact h.setitem _ _
  | store_value _ _ _ => exact h.storage _
  | remove f _ _ => exact (h.remove _).bind fun _ _ => .pure trivial
  | expire secs _ => exact h.expire _ secs
  | expire_at wall_deadline_ns _ => exact h.expire_at _ wall_deadline_ns
  | wall_expiry _ => exact h.wall_expiry _
  | ttl_ms _ => exact h.ttl_ms _
  | persist _ _ => exact h.persist _
  | touch key => exact .modify fun k hk => h.store k _ hk
  | notify event _ => exact h.notify _ event

/-- Every keyspace program keeps the invariant. -/
theorem disciplined (h : Steady ctx I) {Q : α → Prop} (hm : Disciplined (.free ctx.clock) ∅ m Q) :
    Keeps ctx I m fun _ => True := by
  have hleaf : ∀ {S S' : Set Value} {α : Type} {m : K F α} {Q : α → Prop}, Access (.free ctx.clock) S α m Q S' →
      Triple ctx I m (fun a k => I k ∧ Q a) fun _ => I := by
    intro S S' α m Q hleaf k hk
    have hI := h.access hleaf k hk
    have hkeeps : Keeping (.free ctx.clock) ctx m Q := hleaf.keeps rfl
    have hQ := hkeeps k (holds_free _ _)
    revert hI hQ
    cases m ctx k with
    | mk out k' =>
      cases out with
      | ok a => exact fun hI hQ => ⟨hI.1, hQ.2⟩
      | error e => exact fun hI _ => hI
  have hend := Built.triple (I := fun _ => I) (fun _ _ hk => hk) hleaf hm
  exact Triple.weaken hend fun _ _ hk => ⟨hk.1, trivial⟩

end Steady

/-- What was pushed reaches subscribers only. -/
def Heard (hub : PubSubHub) (k : KState F) : Prop := ∀ p ∈ k.pushed, ∃ topic name, p.1 ∈ hub.subscribers topic name

theorem heard_publish (channel payload : Value) :
    Keeps ctx (Heard ctx.hub) (publish channel payload : K F Nat) fun _ => True := by
  intro k hk
  obtain ⟨-, -, hreach⟩ := publish_reaches channel payload ctx k
  have hend : Heard ctx.hub (publish channel payload ctx k).2 := fun p hp => (hreach p hp).elim (hk p) id
  revert hend
  cases publish channel payload ctx k with
  | mk out k' =>
    cases out with
    | ok n => exact fun hend => ⟨hend, trivial⟩
    | error e => exact id

theorem steady_heard (ctx : Ctx) : Steady ctx (Heard (F := F) ctx.hub) where
  store := fun _ _ hk => hk
  draws := fun _ _ hk => hk
  notify := fun key event => by
    refine Keeps.ask.bind ?_
    intro ctx' hctx
    subst hctx
    have hevent : Keeps ctx' (Heard ctx'.hub) (do
        if 69 ∈ ctx'.flags then let _ ← publish (.bytes (bs "__keyevent@0__:" ++ event.name)) key : K F Unit) fun _ => True :=
      .ite (fun _ => (heard_publish _ _).bind fun _ _ => .pure trivial) fun _ => .pure trivial
    refine .ite (fun _ => .pure trivial) ?_
    intro _
    refine .ite (fun _ => ?_) fun _ => hevent
    cases key with
    | bytes k => exact (heard_publish _ _).bind fun _ _ => hevent
    | _ => exact Keeps.bind (Q := fun _ => True) .raise fun _ _ => hevent

/-- What a keyspace command pushes reaches subscribers only. -/
theorem heard_command [PyFloat F] {c : Cmd} {args : List Value} {method : List Value → K F Reply}
    (hm : (handler c : Handler F) = .keyspace method)
    (k : KState F) (hk : Heard ctx.hub k) : Heard ctx.hub (method args ctx k).2 := by
  have hend := (steady_heard ctx).disciplined ((Cmd.allows_free c args ctx.clock).disciplined hm) k hk
  revert hend
  cases method args ctx k with
  | mk out k' =>
    cases out with
    | ok _ => exact And.left
    | error _ => exact id

end Kagni
