import Kagni.Dumper
import Kagni.Lemmas.Runs

/-!
# Runs without a flush

As long as nobody sends FLUSHDB or FLUSHALL, no queue holds one, the epoch of the store stays what it is, and no request
touches the persisted table.
-/

namespace Kagni

open Lib Lib.Prog

variable {F : Type}

/-- FLUSHDB or FLUSHALL. -/
def Request.Flushes (q : Request) : Prop := Cmd.ofName q.name = some .FLUSHDB ∨ Cmd.ofName q.name = some .FLUSHALL

instance (q : Request) : Decidable q.Flushes := inferInstanceAs (Decidable (_ ∨ _))

/-- The input is no flush. -/
def Input.NoFlush : Input → Prop
  | .request _ _ (.array (.bytes command :: args)) => ¬Request.Flushes ⟨command, args⟩
  | _ => True

/-- The event is no flush. -/
def DumperEvent.NoFlush : DumperEvent → Prop
  | .input i => i.NoFlush
  | _ => True

/-- No queued command is a flush, the epoch is `epoch` and the persisted table `table`. -/
structure Unflushed (epoch : Nat) (table : Option (Table F)) (s : Server F) : Prop where
  queue : ∀ i, ∀ q ∈ (s.sessions i).queue, ¬q.Flushes
  epoch_eq : s.data.epoch = epoch
  table_eq : s.table = table

/-- Below the flushes nothing touches the epoch and the persisted table. -/
theorem quiet_unflushed : Quiet fun s t : Server F => t.data.epoch = s.data.epoch ∧ t.table = s.table where
  refl _ := ⟨rfl, rfl⟩
  trans _ _ _ h h' := ⟨h'.1.trans h.1, h'.2.trans h.2⟩
  store _ _ := ⟨rfl, rfl⟩
  deliver _ _ _ := ⟨rfl, rfl⟩
  flags _ _ := ⟨rfl, rfl⟩

namespace Unflushed

variable {epoch : Nat} {table : Option (Table F)}

theorem quiet (epoch : Nat) (table : Option (Table F)) :
    Quiet (fun s t : Server F => Unflushed epoch table s → Unflushed epoch table t) where
  toIsPreorder := isPreorder_keeps _
  store _ _ h := ⟨h.queue, h.epoch_eq, h.table_eq⟩
  deliver s i frame h := ⟨queued_of_sameMode h.queue (quiet_sameMode.deliver s i frame), h.epoch_eq, h.table_eq⟩
  flags _ _ h := ⟨h.queue, h.epoch_eq, h.table_eq⟩

theorem init (port : Nat) (table : Option (Table F)) (storage : Dict Value (Entry F)) (wired : SessionId → Bool) :
    Unflushed 0 table (Server.init port table storage wired) where
  queue := queued_init _ port table storage wired
  epoch_eq := rfl
  table_eq := rfl

variable [PyFloat F]

/-- Without a flush the epoch and the persisted table stay what they are. -/
theorem kept (epoch : Nat) (table : Option (Table F)) (state : Option SessionId) :
    Kept (fun q => ¬q.Flushes) (fun s : Server F => s.data.epoch = epoch ∧ s.table = table) state where
  update _ _ _ _ h := h
  run {q c} r s hq hc h := by
    have hrun : Respects (fun s t => t.data.epoch = s.data.epoch ∧ t.table = s.table)
        (runHandler (handler c) state q.args : D F _) := by
      refine quiet_unflushed.runHandler (fun _ => ?_) (fun _ => ?_) (fun hf => ?_) q.args
      · exact fun _ _ _ _ _ _ => ⟨rfl, rfl⟩
      · exact fun _ _ _ _ => ⟨rfl, rfl⟩
      · exact absurd (hf.imp (· ▸ hc) (· ▸ hc)) hq
    exact ⟨(hrun r s).1.trans h.1, (hrun r s).2.trans h.2⟩

theorem step (env : Env) {s : Server F} {i : Input} (hi : i.NoFlush) (h : Unflushed epoch table s) :
    Unflushed epoch table (s.step env i) := by
  cases i with
  | lost session =>
    exact ⟨queued_update (f := fun st => { st with sender := none }) h.queue session (h.queue session), h.epoch_eq, h.table_eq⟩
  | request clock state message =>
    have hm : message.Requests fun q => ¬q.Flushes := by
      unfold Value.Requests
      split
      · exact hi
      · trivial
    obtain ⟨⟨hepoch, htable⟩, hqueue⟩ := (kept epoch table state).dispatch hm (env, clock) ⟨h.epoch_eq, h.table_eq⟩ h.queue
    exact ⟨hqueue, hepoch, htable⟩

end Unflushed

end Kagni
