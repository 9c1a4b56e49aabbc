import Kagni.Keyspace
import Kagni.Lib.Finmap

/-!
# A map with deadlines

What `Data` is for, without laziness: a finite map from keys to values and deadlines that never holds an expired entry. An
operation at an instant reads the map and gives back another one; nothing is ever purged, because nothing expired is ever
there.
-/

namespace Kagni

open Lib

/-- A map that holds live entries only. -/
abbrev Content (F : Type) := Finmap fun _ : Value => Entry F

variable {F : Type}

/-- The logical content of a store: the entries without a deadline, or with one after `now`. -/
def Store.content (s : Store F) (now : Int) : Content F := (s.storage.filter fun p => p.2.live now).toFinmap

/-- The operations of `Data` on keys. -/
inductive DataOp (F : Type) where
  | get (key : Value)
  | getitem (key : Value)
  | contains (key : Value)
  | is_live (key : Value)
  | set (key : Value) (value : Obj F) (wall_deadline_ns : Option Int) (keep_ttl : Bool)
  | setitem (key : Value) (value : Obj F)
  | remove (key : Value)
  | expire (key : Value) (secs : Int)
  | expire_at (key : Value) (wall_deadline_ns : Int)
  | persist (key : Value)
  | ttl (key : Value)
  | ttl_ms (key : Value)
  | wall_expiry (key : Value)
  | iter
  | len
  | keyspace_stats
  | snapshot

/-- What an operation returns. An iteration and a snapshot are compared without their order. -/
inductive DataRes (F : Type) where
  | value (v : Option (Obj F))
  | flag (b : Bool)
  | int (n : Int)
  | done
  | keys (keys : Finset Value)
  | stats (keys expires : Nat) (avg : Int)
  | rows (row : Value → Option (Obj F × Option Int))

namespace DataOp

/-- The operation, as `Data` does it. -/
def run : DataOp F → K F (DataRes F)
  | .get key => return .value (← data_get key)
  | .getitem key => return .value (← Kagni.getitem key)
  | .contains key | .is_live key => return .flag (← Kagni.is_live key)
  | .set key value wall_deadline_ns keep_ttl => do
    data_set key value wall_deadline_ns keep_ttl
    return .done
  | .setitem key value => do
    Kagni.setitem key value
    return .done
  | .remove key => return .flag (← data_remove key)
  | .expire key secs => return .flag (← data_expire key secs)
  | .expire_at key wall_deadline_ns => return .flag (← data_expire_at key wall_deadline_ns)
  | .persist key => return .flag (← Kagni.persist key)
  | .ttl key => return .int (← Kagni.ttl key)
  | .ttl_ms key => return .int (← Kagni.ttl_ms key)
  | .wall_expiry key => return .int (← Kagni.wall_expiry key)
  | .iter => return .keys (← data_keys).toFinset
  | .len => return .int (← data_len)
  | .keyspace_stats => do
    let (keys, expires, avg) ← Kagni.keyspace_stats
    return .stats keys expires avg
  | .snapshot => return .rows (← Kagni.snapshot).get

/-- The operations that only read. -/
def Reads : DataOp F → Prop
  | .get _ | .getitem _ | .contains _ | .is_live _ | .ttl _ | .ttl_ms _ | .wall_expiry _ | .iter | .len | .keyspace_stats
  | .snapshot => True
  | _ => False

end DataOp

namespace Content

variable (m : Content F)

/-- The value under a key; a stored null is no value. -/
def value (key : Value) : Option (Obj F) :=
  (m.lookup key).bind fun e => match e.value with
    | .raw .null => none
    | obj => some obj

/-- Store an entry, unless its deadline has passed. -/
def put (key : Value) (e : Entry F) (now : Int) : Content F := if e.live now then m.insert key e else m.erase key

/-- The deadline of `set`: the one that is there, if it is to be kept, or the given one on the monotonic clock. -/
def deadline (key : Value) (wall_deadline_ns : Option Int) (keep_ttl : Bool) (now : Clock) : Option Int :=
  match m.lookup key with
  | some e => if keep_ttl then e.expires_at else wall_deadline_ns.map fun d => now.mono + (d - now.wall)
  | none => wall_deadline_ns.map fun d => now.mono + (d - now.wall)

/-- The remaining time of a key by `f`; -2 without the key, -1 without a deadline. -/
def remaining (key : Value) (f : Int → Int) : Int :=
  match m.lookup key with
  | none => -2
  | some e => match e.expires_at with
    | none => -1
    | some t => f t

/-- Give a live key the deadline `t`, or delete it when `t` has passed. -/
def setDeadline (key : Value) (t : Int) (now : Int) : Bool × Content F :=
  match m.lookup key with
  | none => (false, m)
  | some e => if t ≤ now then (true, m.erase key) else (true, m.insert key { e with expires_at := some t })

end Content

/-- The operation on the map; only the key of a single-key operation can make it raise. -/
def DataOp.spec (now : Clock) (m : Content F) : DataOp F → Except (Exc Errors) (DataRes F) × Content F
  | .get key | .getitem key => onKey key (.value (m.value key), m)
  | .contains key | .is_live key => onKey key (.flag (m.lookup key).isSome, m)
  | .set key value wall_deadline_ns keep_ttl =>
    onKey key (.done, m.put key ⟨value, m.deadline key wall_deadline_ns keep_ttl now⟩ now.mono)
  | .setitem key value => onKey key (.done, m.put key ⟨value, none⟩ now.mono)
  | .remove key => onKey key (.flag (m.lookup key).isSome, m.erase key)
  | .expire key secs =>
    -- a deadline that is not in the future deletes the key
    let out := m.setDeadline key (now.mono + secs * 10 ^ 9) now.mono
    onKey key (.flag out.1, out.2)
  | .expire_at key wall_deadline_ns =>
    let out := m.setDeadline key (now.mono + (wall_deadline_ns - now.wall)) now.mono
    onKey key (.flag out.1, out.2)
  | .persist key =>
    match m.lookup key with
    | some ⟨value, some _⟩ => onKey key (.flag true, m.insert key ⟨value, none⟩)
    | _ => onKey key (.flag false, m)
  | .ttl key =>
    let ms := m.remaining key fun t => -((now.mono - t) / 1000000)
    onKey key (.int (if ms < 0 then ms else (ms + 500) / 1000), m)
  | .ttl_ms key => onKey key (.int (m.remaining key fun t => -((now.mono - t) / 1000000)), m)
  | .wall_expiry key => onKey key (.int (m.remaining key fun t => now.wall + (t - now.mono)), m)
  | .iter => (.ok (.keys m.keys), m)
  | .len => (.ok (.int m.keys.card), m)
  | .keyspace_stats =>
    let deadlines := m.entries.filterMap fun p => p.2.expires_at
    (.ok (.stats m.keys.card deadlines.card ((deadlines.map (· - now.mono)).sum / deadlines.card / 1000000)), m)
  | .snapshot =>
    (.ok (.rows fun key => (m.lookup key).map fun e => (e.value, e.expires_at.map fun t => now.wall + (t - now.mono))), m)
where
  /-- An operation on a key that has no hash raises. -/
  onKey (key : Value) (out : DataRes F × Content F) : Except (Exc Errors) (DataRes F) × Content F :=
    if key.hashable then (.ok out.1, out.2) else (.error .other, m)

end Kagni
