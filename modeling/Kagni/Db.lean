import Kagni.Keyspace
import Kagni.Lib.Trace

/-!
# The sqlite backend

`db.DB`: one table that a dump replaces as a whole. `dump`, `load` and `flush` are first what they do to the table when
nothing runs beside them. A dump runs in a worker thread, so the second half is the system of all threads: the event loop,
which takes snapshots, clears the store and flushes the table, and any number of dumps, which meet at one lock. A step is what
happens between two points where another thread may get in.
-/

namespace Kagni

open Lib

variable {F : Type}

/-- The rows of the table: a key, its value and its deadline. A row is what was pickled of it. -/
abbrev Table (F : Type) := List (Value × Obj F × Option Int)

namespace DB

/-- `dump`: a snapshot taken in another epoch stands down. -/
def dump (table : Table F) (snapshot : Snapshot F) (data_epoch epoch : Nat) : Table F :=
  if data_epoch ≠ epoch then table else snapshot.entries

/-- The rows as the worker thread pickles them. A plain list is no copy: a snapshot shares it with the store, and by then it
may have been changed in place. `lists` holds the items of the lists that were. -/
def pickles (snapshot : Snapshot F) (lists : Dict Value (List Value)) : Snapshot F :=
  snapshot.mapValues fun key row =>
    match row.1, lists.get key with
    | .raw (.array _), some items => (.raw (.array items), row.2)
    | _, _ => row

/-- `load`. -/
def load (table : Table F) : Snapshot F := Dict.ofList table

/-- `flush`. -/
def flush (_ : Table F) : Table F := []

/-- What a dump wrote is read back as it was. -/
@[simp] theorem load_entries (snapshot : Snapshot F) : load snapshot.entries = snapshot := Dict.ofList_entries snapshot

/-- A table that reads back as the empty snapshot is empty. -/
theorem load_eq_empty_iff (table : Table F) : (∀ key, (load table).get key = none) ↔ table = [] := by
  constructor
  · intro h
    cases table with
    | nil => rfl
    | cons row table => exact absurd (h row.1) (Dict.get_ofList_of_mem (by simp))
  · rintro rfl key
    rfl

end DB

/-- No plain list of the snapshot was changed before it was pickled. -/
def ListsKept (snapshot : Snapshot F) (lists : Dict Value (List Value)) : Prop :=
  ∀ key items deadline items', snapshot.get key = some (.raw (.array items), deadline) → lists.get key = some items' →
    items' = items

/-- The rows of a table are those of a snapshot. -/
def Agrees (table : Table F) (snapshot : Snapshot F) : Prop := ∀ key, (DB.load table).get key = snapshot.get key

/-! ## Threads -/

/-- Where a call of `dump` stands: before `_connect`, before the lock, before the comparison of the epochs, before the commit,
before the release of the lock, or at its end. -/
inductive DumpPhase where
  | start
  | connected
  | locked
  | matched
  | leaving
  | done
  deriving DecidableEq, Repr

/-- Where `_flush_all` stands: not running, after `clear`, before the lock, before the delete, before the release, or about to
raise. -/
inductive FlushPhase where
  | idle
  | cleared
  | connected
  | locked
  | leaving
  | aborting
  deriving DecidableEq, Repr

/-- Who holds the lock. -/
inductive Owner where
  | dump (i : Nat)
  | flush
  deriving DecidableEq, Repr

/-- A call of `dump`: its arguments and where it stands. -/
structure Dump (F : Type) where
  snapshot : Snapshot F
  epoch : Nat
  phase : DumpPhase

/-- The store of the event loop, the committed table, the lock, every dump started so far, and the flush that runs, if any. -/
structure Threads (F : Type) where
  data : Data F
  table : Table F
  lock : Option Owner
  dumps : List (Dump F)
  flush : FlushPhase

/-- One step of one thread. -/
inductive Action (F : Type) where
  -- the event loop: a command that is no flush, a snapshot handed to a new dump, FLUSHDB or FLUSHALL and the steps of its flush
  | mutate (store : Store F)
  | snapshot (now : Clock)
  | clear
  | flush
  | flushFail
  -- a worker thread
  | dump (i : Nat)
  | dumpFail (i : Nat)

namespace Threads

/-- Move a dump to another phase. -/
def moveDump (s : Threads F) (i : Nat) (phase : DumpPhase) : Threads F :=
  { s with dumps := s.dumps.modify i fun d => { d with phase := phase } }

/-- `snapshot` sweeps the store. -/
def sweep (data : Data F) (now : Clock) : Data F :=
  { data with storage := data.storage.filter fun p => p.2.live now.mono }

/-- The event loop takes a snapshot and the epoch, and hands both to a new dump. -/
def takeSnapshot (s : Threads F) (now : Clock) : Threads F :=
  { s with
    data := sweep s.data now
    dumps := s.dumps ++ [⟨s.data.snapshot now, s.data.epoch, .start⟩] }

/-- The next step of `dump`. Leaving without a commit is the `return` of a stale snapshot. -/
def stepDump (s : Threads F) (i : Nat) (d : Dump F) : Option (Threads F) :=
  match d.phase with
  | .start => some (s.moveDump i .connected)
  | .connected => if s.lock = none then some ({ s with lock := some (.dump i) }.moveDump i .locked) else none
  | .locked => some (s.moveDump i (if s.data.epoch ≠ d.epoch then .leaving else .matched))
  | .matched => some ({ s with table := d.snapshot.entries }.moveDump i .leaving)
  | .leaving => some ({ s with lock := none }.moveDump i .done)
  | .done => none

/-- An exception in `dump`: the transaction is rolled back and the lock released. -/
def failDump (s : Threads F) (i : Nat) (d : Dump F) : Option (Threads F) :=
  match d.phase with
  | .start | .connected => some (s.moveDump i .done)
  | .locked | .matched => some (s.moveDump i .leaving)
  | .leaving | .done => none

/-- The next step of `_flush_all` after `clear`; the last one is its return, or its exception. -/
def stepFlush (s : Threads F) : Option (Threads F) :=
  match s.flush with
  | .idle => none
  | .cleared => some { s with flush := .connected }
  | .connected => if s.lock = none then some { s with lock := some .flush, flush := .locked } else none
  | .locked => some { s with table := DB.flush s.table, flush := .leaving }
  | .leaving | .aborting => some { s with lock := none, flush := .idle }

/-- An exception in `flush`. -/
def failFlush (s : Threads F) : Option (Threads F) :=
  match s.flush with
  | .cleared | .connected => some { s with flush := .idle }
  | .locked => some { s with flush := .aborting }
  | .idle | .leaving | .aborting => none

/-- One step. The event loop is one thread: while it is in a flush it does nothing else. -/
def step (s : Threads F) : Action F → Option (Threads F)
  | .mutate store => if s.flush = .idle then some { s with data := { s.data with toStore := store } } else none
  | .snapshot now => if s.flush = .idle then some (s.takeSnapshot now) else none
  | .clear => if s.flush = .idle then some { s with data := s.data.clear, flush := .cleared } else none
  | .flush => s.stepFlush
  | .flushFail => s.failFlush
  | .dump i => s.dumps[i]?.bind fun d => s.stepDump i d
  | .dumpFail i => s.dumps[i]?.bind fun d => s.failDump i d

/-- Before anything runs. -/
def init (store : Store F) (table : Table F) : Threads F := ⟨⟨store, 0⟩, table, none, [], .idle⟩

/-- A state some trace leads to. -/
def Reachable (s : Threads F) : Prop := ∃ store table actions, trace step (init store table) actions = some s

end Threads

end Kagni
