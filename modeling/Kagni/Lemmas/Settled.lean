import Kagni.Settled
import Kagni.Atomics.Commands
import Kagni.Theorems.Collections

/-!
# What the store holds without notifications

Every command keeps the store as the commands leave it, so it is that way in every state of a server whose notifications stay off.
-/

namespace Kagni

open Lib Lib.Prog

variable {F : Type}

theorem Server.push_flags (s : Server F) (frames : List (SessionId × Bytes)) :
    (s.push frames).notify_keyspace_events = s.notify_keyspace_events := by
  induction frames generalizing s with
  | nil => rfl
  | cons p frames ih => exact ih _

theorem liftK_flags {α : Type} (m : K F α) (r : Env × Clock) (s : Server F) :
    (liftK m r s).2.notify_keyspace_events = s.notify_keyspace_events := by
  unfold liftK
  split
  all_goals exact Server.push_flags _ _

/-- What is found under a key was stored there. -/
theorem Store.value_stored {s : Store F} {now : Int} {key : Value} {v : Obj F} (h : (s.content now).value key = some v) :
    ∃ e, s.storage.get key = some e ∧ e.value = v := by
  obtain ⟨e, he, hv⟩ := Option.bind_eq_some_iff.1 h
  rw [Store.content_lookup, Option.filter_eq_some_iff] at he
  refine ⟨e, he.1, ?_⟩
  split at hv
  · cases hv
  · exact Option.some.inj hv

variable [PyFloat F]

theorem inOrder_restore {s : Store F} (h : s.InOrder) (now now' : Clock) :
    (⟨restore (s.snapshot now) now', ∅⟩ : Store F).InOrder := by
  rintro ⟨key, e'⟩ hp
  obtain ⟨e, hold, hvalue⟩ := restore_snapshot ((Dict.get_eq_some_iff ..).2 hp)
  exact hvalue ▸ h (key, e) ((Dict.get_eq_some_iff ..).1 hold)

/-- The watch over a command of a settled server, which is calm. -/
def Server.Settled.watch {s : Server F} (h : s.Settled) (hsound : PyFloat.Sound F) (r : Env × Clock) : Watch F where
  ctx := s.ctx r.1 r.2
  start := s.data.toStore.content r.2.mono
  free := Set.univ
  calm := True
  events _ := Ctx.quiet_of_off h.off
  floats _ := hsound
  typed _ key v hv := by
    obtain ⟨e, he, rfl⟩ := Store.value_stored hv
    exact (h.holds.get he).2
  inOrder _ key v hv := by
    obtain ⟨e, he, rfl⟩ := Store.value_stored hv
    exact h.inOrder (key, e) ((Dict.get_eq_some_iff ..).1 he)

theorem Server.Settled.at_start {s : Server F} (h : s.Settled) (hsound : PyFloat.Sound F) (r : Env × Clock) :
    (h.watch hsound r).At s.kstate := ⟨rfl, fun _ => h.inOrder⟩

/-- A keyspace command keeps the store settled. -/
theorem settled_liftK {s : Server F} (h : s.Settled) (hsound : PyFloat.Sound F) {c : Cmd} {method : List Value → K F Reply}
    (hm : handler c = .keyspace method) {args : List Value} (hargs : AllBytes args) (r : Env × Clock) :
    (liftK (method args) r s).2.Settled := by
  have hquiet : (s.ctx r.1 r.2).Quiet := Ctx.quiet_of_off h.off
  have hholds := collects_command hquiet hm hargs s.kstate h.holds
  have hends := (h.watch hsound r).ends_command hm (fun _ => hargs) (fun _ _ => trivial) s.kstate (h.at_start hsound r)
  refine ⟨(liftK_flags _ r s).trans h.off, ?_, ?_⟩
  all_goals rw [liftK_store]
  · revert hholds
    cases method args (s.ctx r.1 r.2) s.kstate with
    | mk out k =>
      cases out with
      | ok _ => exact And.left
      | error _ => exact id
  · revert hends
    change Outcome _ _ (method args (s.ctx r.1 r.2) s.kstate) → _
    cases method args (s.ctx r.1 r.2) s.kstate with
    | mk out k =>
      cases out with
      | ok _ => exact fun hk => hk.2 trivial
      | error _ => exact fun hk => hk.2 trivial

theorem kept_settled (hsound : PyFloat.Sound F) (state : Option SessionId) :
    Kept (Request.Mute F) (Server.Settled (F := F)) state where
  update _ _ _ _ h := ⟨h.off, h.holds, h.inOrder⟩
  run {q c} r s hq hc h := by
    by_cases hconfig : c = .CONFIG
    · subst hconfig
      have hcalm : Calm fun s t : Server F => t.data = s.data :=
        { refl := fun _ => rfl
          trans := fun _ _ _ h h' => h'.trans h
          draws := fun _ _ => rfl
          deliver := fun _ _ _ => rfl }
      have hdata : (runDecorated (CONFIG q.args) r s).2.data = s.data :=
        hcalm.runDecorated (hcalm.CONFIG (fun _ _ => rfl) q.args) r s
      have hoff := hq.off hc r s h.off
      rw [← runDecorated_state] at hoff
      exact ⟨hoff, hdata ▸ h.holds, hdata ▸ h.inOrder⟩
    · have hcalm : Calm fun s t : Server F => s.Settled → t.Settled :=
        { toIsPreorder := isPreorder_keeps _
          draws := fun _ _ h => ⟨h.off, h.holds, h.inOrder⟩
          deliver := fun _ _ _ h => ⟨h.off, h.holds, h.inOrder⟩ }
      refine hcalm.runHandler (fun method hm r s hs => settled_liftK hs hsound hm hq.bytes r)
        (fun _ _ _ _ _ _ _ h => ⟨h.off, h.holds, h.inOrder⟩)
        (fun _ _ _ _ _ h => ⟨h.off, h.holds, h.inOrder⟩)
          (fun _ s => ⟨fun h => ⟨h.off, nofun, nofun⟩, fun h => ⟨h.off, h.holds, h.inOrder⟩⟩)
        (fun h => absurd h hconfig) r s h

/-- Whatever byte strings a server without notifications was sent, its store is settled. -/
theorem Server.Reached.settled (hsound : PyFloat.Sound F) {env : Env} {s : Server F} (h : s.Reached env (Request.Mute F)) :
    s.Settled := by
  suffices hs : s.Settled ∧ s.Queued (Request.Mute F) from hs.1
  induction h with
  | start port table wired => exact ⟨⟨rfl, nofun, nofun⟩, queued_init _ port table ∅ wired⟩
  | @step s i _ hi ih =>
    cases i with
    | request clock state message => exact (kept_settled hsound state).dispatch hi (env, clock) ih.1 ih.2
    | lost session =>
      exact ⟨⟨ih.1.off, ih.1.holds, ih.1.inOrder⟩, queued_update (f := fun st => { st with sender := none }) ih.2 session
        (ih.2 session)⟩
  | restart _ port table wired now now' ih =>
    exact ⟨⟨rfl, holds_restore ih.1.holds now now', inOrder_restore ih.1.inOrder now now'⟩, queued_init _ port table _ wired⟩

end Kagni
