import Kagni.Footprints.Drain
import Kagni.Lemmas.Runs
import Kagni.Theorems.Dumper

/-!
# No collection is empty

A key that holds a list, a set or a sorted set goes with the last element. That holds for a server nobody subscribed at: the
event of a removal is published between the removal and the end of the key, so a callback that raised there would leave an
empty collection behind.
-/

namespace Kagni

open Lib Lib.Prog

variable {F : Type}

namespace Obj

/-- A list, a set or a sorted set has an element. -/
def HasElement : Obj F → Prop
  | .deque items => items ≠ []
  | .raw (.array items) => items ≠ []
  | .set members => members.elems ≠ []
  | .zset z => z.size ≠ 0
  | _ => True

theorem hasElement_of_collections {now : Clock} {v : Obj F} (h : (Discipline.collections now).obj v) : v.HasElement := by
  cases v with
  | raw v =>
    cases v with
    | array items => exact absurd rfl (h.1 items)
    | _ => trivial
  | deque items => exact h.2 trivial
  | set members => exact h.2 trivial
  | zset z => exact fun hz => (h.2 trivial).1 (List.length_eq_zero_iff.1 hz)
  | _ => trivial

end Obj

/-- A request of byte strings that leaves the subscriptions alone. -/
def Request.Plain (q : Request) : Prop := AllBytes q.args ∧ ∀ c, Cmd.ofName q.name = some c → c ∉ subscribeCommands

/-- The store obeys the discipline of collections, and nobody is subscribed. -/
structure Server.Collected (s : Server F) : Prop where
  holds : (Discipline.collections ⟨0, 0⟩).Holds s.data.toStore
  alone : s.hub = .init

/-- What is restored was in the snapshot. -/
theorem restore_snapshot {s : Store F} {now now' : Clock} {key : Value} {e' : Entry F}
    (h : (restore (s.snapshot now) now').get key = some e') :
    ∃ e, s.storage.get key = some e ∧ e'.value = e.value := by
  rw [restore_get, Store.snapshot, Dict.get_mapValues, Dict.get_filter] at h
  obtain ⟨row, hrow, hentry⟩ := Option.bind_eq_some_iff.1 h
  obtain ⟨e, hlive, rfl⟩ := Option.map_eq_some_iff.1 hrow
  have hvalue : e'.value = e.value := by
    unfold restoreEntry at hentry
    split at hentry
    · rw [← Option.some.inj hentry]
    · dsimp only at hentry
      split at hentry
      · cases hentry
      · rw [← Option.some.inj hentry]
  obtain ⟨old, hold, hsome⟩ := Option.bind_eq_some_iff.1 hlive
  split at hsome
  · cases hsome
    exact ⟨e, hold, hvalue⟩
  · cases hsome

theorem holds_restore {d : Discipline} {s : Store F} (h : d.Holds s) (now now' : Clock) :
    d.Holds ⟨restore (s.snapshot now) now', ∅⟩ := by
  rintro ⟨key, e'⟩ hp
  obtain ⟨e, hold, hvalue⟩ := restore_snapshot ((Dict.get_eq_some_iff ..).2 hp)
  have hkey := h.get hold
  exact ⟨hkey.1, hvalue ▸ hkey.2⟩

variable [PyFloat F]

/-- The states of a server that started empty, or from the restored snapshot of such a server, after requests of byte strings. -/
inductive Server.Grown (env : Env) : Server F → Prop
  | start (port : Nat) (table : Option (Table F)) (wired : SessionId → Bool) : Grown env (.init port table ∅ wired)
  | step {s : Server F} {i : Input} (hs : Grown env s) (hi : i.Requests Request.Plain) : Grown env (s.step env i)
  | restart {s : Server F} (hs : Grown env s) (port : Nat) (table : Option (Table F)) (wired : SessionId → Bool)
    (now now' : Clock) :
    Grown env (.init port table (restore (s.data.toStore.snapshot now) now') wired)

theorem kept_collected (state : Option SessionId) : Kept Request.Plain (Server.Collected (F := F)) state where
  update _ _ _ _ h := ⟨h.holds, h.alone⟩
  run {q c} r s hq hc h := by
    have hcalm : Calm fun s t : Server F => s.Collected → t.Collected :=
      { toIsPreorder := isPreorder_keeps _
        draws := fun _ _ h => ⟨h.holds, h.alone⟩
        deliver := fun _ _ _ h => ⟨h.holds, h.alone⟩ }
    refine hcalm.runHandler (fun method hm r s hs => ?_) (fun hsub => absurd hsub (hq.2 c hc))
      (fun _ _ _ _ _ h => ⟨h.holds, h.alone⟩)
      (fun _ s => ⟨fun h => ⟨nofun, h.alone⟩, fun h => ⟨h.holds, h.alone⟩⟩) (fun _ _ _ h => ⟨h.holds, h.alone⟩) r s h
    refine ⟨?_, (liftK_hub _ r s).trans hs.alone⟩
    rw [liftK_store]
    have hhub : (s.ctx r.1 r.2).hub = .init := hs.alone
    have hend := collects_command (Ctx.quiet_of_alone hhub) hm hq.1 s.kstate hs.holds
    revert hend
    cases method q.args (s.ctx r.1 r.2) s.kstate with
    | mk out k =>
      cases out with
      | ok _ => exact And.left
      | error _ => exact id

/-- In every state of a server that started empty or from a snapshot, after requests of byte strings, a list, a set or a
sorted set has an element. -/
theorem collections_nonempty (env : Env) {s : Server F} (h : s.Grown env) :
    ∀ p ∈ s.data.storage.entries, p.2.value.HasElement := by
  suffices hs : s.Collected ∧ s.Queued Request.Plain from fun p hp => Obj.hasElement_of_collections (hs.1.holds p hp).2
  induction h with
  | start port table wired => exact ⟨⟨nofun, rfl⟩, queued_init _ port table ∅ wired⟩
  | @step s i _ hi ih =>
    cases i with
    | request clock state message => exact (kept_collected state).dispatch hi (env, clock) ih.1 ih.2
    | lost session =>
      refine ⟨⟨ih.1.holds, ?_⟩, queued_update (f := fun st => { st with sender := none }) ih.2 session (ih.2 session)⟩
      change s.hub.remove_session session = .init
      rw [ih.1.alone]
      rfl
  | restart _ port table wired now now' ih => exact ⟨⟨holds_restore ih.1.holds now now', rfl⟩, queued_init _ port table _ wired⟩

/-- RPUSH k v leaves a list with an item. -/
theorem collections_nonempty_rpush :
    let s := (Server.init 0 none ∅ fun _ => true : Server Int).step .plain (.send ⟨0, 0⟩ 0 [bs "RPUSH", bs "k", bs "v"])
    s.data.storage.size = 1 ∧ ∀ p ∈ s.data.storage.entries, p.2.value.HasElement := by
  refine ⟨by decide +kernel, collections_nonempty .plain (.step (.start 0 none fun _ => true) ⟨fun v hv => ?_, fun c hc => ?_⟩)⟩
  · obtain ⟨b, -, rfl⟩ := List.mem_map.1 hv
    trivial
  · obtain rfl : c = .RPUSH := by
      have : Cmd.ofName (Request.name ⟨bs "RPUSH", [bs "k", bs "v"].map .bytes⟩) = some .RPUSH := by decide
      exact Option.some.inj (hc.symm.trans this)
    decide

end Kagni
