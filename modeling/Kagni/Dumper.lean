import Kagni.Dispatch

/-!
# The dumper task

`dumper` of the two servers: it sleeps, takes a snapshot, and unless there is nothing to dump waits for a worker thread to
commit it. Between the snapshot and the commit the event loop goes on with requests. Only ticks that end without an exception
are steps here: an exception of `data.snapshot` ends the task, and one of `db.dump` leaves the table as it was.
-/

namespace Kagni

open Lib

variable {F : Type}

/-- A server and its dumper task: the snapshot and the epoch of the dump it awaits, if any. -/
structure Persisted (F : Type) where
  server : Server F
  awaited : Option (Snapshot F × Nat)

/-- An input of the server, the dumper waking up, or the end of the dump it awaits, with the plain lists that were changed in
place before they were pickled. -/
inductive DumperEvent where
  | input (i : Input)
  | wake (clock : Clock)
  | dumped (lists : Dict Value (List Value))

namespace Persisted

variable [PyFloat F]

/-- One event. -/
def step (env : Env) (s : Persisted F) : DumperEvent → Option (Persisted F)
  | .input i => some { s with server := s.server.step env i }
  | .wake clock =>
    match s.awaited with
    | some _ => none
    | none =>
      match liftK snapshot (env, clock) s.server with
      | (.ok snapshot, server) =>
        if snapshot.entries = [] then some ⟨server, none⟩ else some ⟨server, some (snapshot, server.data.epoch)⟩
      | (.error _, _) => none
  | .dumped lists =>
    match s.awaited with
    | none => none
    | some (snapshot, epoch) =>
      let rows := DB.pickles snapshot lists
      some ⟨{ s.server with table := s.server.table.map fun t => DB.dump t rows s.server.data.epoch epoch }, none⟩

/-- A completed tick at the instant `clock`, from the state in which the dumper wakes up to the one right after it. The inputs in
between arrive while the dump runs, and may change the plain lists `lists`. -/
inductive Tick (env : Env) (clock : Clock) (s : Persisted F) : List Input → Dict Value (List Value) → Persisted F → Prop
  | skipped {s'} (h : step env s (.wake clock) = some s') (ha : s'.awaited = none) : Tick env clock s [] ∅ s'
  | dumped {s' t} (inputs : List Input) (lists : Dict Value (List Value)) (h : step env s (.wake clock) = some s')
    (ha : s'.awaited ≠ none)
      (hr : trace (step env) s' (inputs.map .input ++ [.dumped lists]) = some t) : Tick env clock s inputs lists t

/-- A server after a restart: what `load` reads is restored. -/
def restart (s : Persisted F) (now : Clock) : Persisted F :=
  ⟨Server.init s.server.tcp_port s.server.table (restore (DB.load (s.server.table.getD [])) now) fun _ => true, none⟩

end Persisted

end Kagni
