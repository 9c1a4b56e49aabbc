import Kagni.Atomic
import Kagni.Footprints.Drain
import Kagni.Lemmas.Runs

/-!
# Servers without notifications

A server that was sent byte strings only and whose notifications were never turned on. An event goes nowhere there, so that what a
command does next depends on nothing but the store.
-/

namespace Kagni

open Lib

variable {F : Type} [PyFloat F]

/-- A request of byte strings that does not turn the notifications on. -/
structure Request.Mute (F : Type) [PyFloat F] (q : Request) : Prop where
  bytes : AllBytes q.args
  off : Cmd.ofName q.name = some .CONFIG → ∀ (r : Env × Clock) (s : Server F), s.notify_keyspace_events = [] →
    (CONFIG q.args r s).2.notify_keyspace_events = []

/-- The states of a server that started empty, or from the restored snapshot of such a server, after requests that satisfy `Q`. -/
inductive Server.Reached (env : Env) (Q : Request → Prop) : Server F → Prop
  | start (port : Nat) (table : Option (Table F)) (wired : SessionId → Bool) : Reached env Q (.init port table ∅ wired)
  | step {s : Server F} {i : Input} (hs : Reached env Q s) (hi : i.Requests Q) : Reached env Q (s.step env i)
  | restart {s : Server F} (hs : Reached env Q s) (port : Nat) (table : Option (Table F)) (wired : SessionId → Bool)
    (now now' : Clock) :
    Reached env Q (.init port table (restore (s.data.toStore.snapshot now) now') wired)

/-- The notifications are off, and the store holds what the commands store. -/
structure Server.Settled (s : Server F) : Prop where
  off : s.notify_keyspace_events = []
  holds : (Discipline.collections ⟨0, 0⟩).Holds s.data.toStore
  inOrder : s.data.toStore.InOrder

/-- If the reply is an error, every live key has the value and the deadline it had. -/
def LeavesData (m : D F (Option Bytes)) (r : Env × Clock) (s : Server F) : Prop :=
  ∀ frame, (m r s).1 = .ok (some frame) → frame.head? = some 45 → (m r s).2.data.toStore.content r.2.mono =
    s.data.toStore.content r.2.mono

/-- A command of the keyspace other than BITFIELD leaves the data alone when its reply is an error: sent at any instant by any
session, or queued by one and run by EXEC. -/
def Server.ErrorsLeaveData (env : Env) (s : Server F) : Prop :=
  ∀ (c : Cmd) (method : List Value → K F Reply), handler c = .keyspace method → c ≠ .BITFIELD → c ≠ .BITFIELD_RO →
    ∀ q : Request, Cmd.ofName q.name = some c → AllBytes q.args → ∀ (clock : Clock) (state : Option SessionId),
      LeavesData (dispatch (.array (.bytes q.command :: q.args)) state) (env, clock) s ∧
        LeavesData (_dispatch_direct q state true) (env, clock) s

end Kagni
