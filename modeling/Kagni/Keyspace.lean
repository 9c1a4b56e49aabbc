import Kagni.Errors
import Kagni.Lib.Prog
import Kagni.Resp
import Kagni.ZSet
import Mathlib.Data.Finset.Sort

/-!
# The keyspace

`data.Data` and the part of the command layer it calls back into: an expired key that is found is purged, and the purge
publishes a keyspace event. So the methods of `Data` are programs over the store, with the clocks, the notification flags and
the subscription tables as their context, and what they publish collected as frames for the subscribers.

One dispatch reads one instant of each clock. A value changed in place keeps its entry and so its deadline; `store_value`
models that, `data_set` and `setitem` a new entry.
-/

namespace Kagni

open Lib

/-- The two clocks, in nanoseconds. -/
structure Clock where
  mono : Int
  wall : Int

/-- A stored field of a hash: a plain value, or a value and its wall-clock deadline. -/
inductive FieldEntry where
  | plain (value : Value)
  | timed (value : Value) (deadline : Int)

/-- A stored value. A string is a `raw` byte string; what else may be `raw` is what a client stored in its place. -/
inductive Obj (F : Type) where
  | raw (v : Value)
  | hash (fields : Dict Value FieldEntry)
  | set (members : OrdSet Value)
  | deque (items : List Value)
  | bitmap (bits : Finset Nat)
  | zset (z : ZSet F)

/-- `kind_of`. -/
def kind_of {F : Type} : Obj F → Option Kind
  | .raw (.bytes _) => some .string
  | .raw (.array _) => some .list
  | .raw _ => none
  | .hash _ => some .hash
  | .set _ => some .set
  | .deque _ => some .list
  | .bitmap _ => some .bitmap
  | .zset _ => some .zset

/-- `{"value": ..., "expires_at": ...}`. -/
structure Entry (F : Type) where
  value : Obj F
  expires_at : Option Int

/-- `_live`: an entry without a deadline, or with one after `now`. -/
def Entry.live {F : Type} (e : Entry F) (now : Int) : Bool :=
  match e.expires_at with
  | none => true
  | some t => decide (now < t)

/-- `_storage` and `_generations`. -/
structure Store (F : Type) where
  storage : Dict Value (Entry F)
  generations : Dict Value Nat

/-- `Data`: the epoch is the number of `clear`s, and no other method touches it. -/
structure Data (F : Type) extends Store F where
  epoch : Nat

/-- `Data()`. -/
def Data.init {F : Type} : Data F := ⟨⟨∅, ∅⟩, 0⟩

/-- `clear`: every key and every generation goes, and the epoch moves on. -/
def Data.clear {F : Type} (d : Data F) : Data F := ⟨⟨∅, ∅⟩, d.epoch + 1⟩

/-- A connection. -/
abbrev SessionId := Nat

/-- `PubSubHub`: the subscribers of every channel and of every pattern. -/
structure PubSubHub where
  channels : Dict Value (OrdSet SessionId)
  patterns : Dict Value (OrdSet SessionId)

/-- What the program takes from outside: `compile_glob` (`none` is `re.error`), the random numbers, and the server section of
INFO. -/
structure Env where
  glob : Bytes → Option (Bytes → Bool)
  draw : Nat → Nat
  serverInfo : Clock → (port : Nat) → Text

/-- The outside world of the runs on fixed inputs: no pattern in them has a wildcard, so each matches itself. -/
def Env.plain : Env := ⟨fun pattern => some fun b => decide (b = pattern), fun _ => 0, fun _ _ => []⟩

/-- What a keyspace command reads and does not change. -/
structure Ctx where
  env : Env
  clock : Clock
  hub : PubSubHub
  flags : Text
  tcp_port : Nat

/-- What it changes: the store, the frames pushed to subscribers so far, and the number of random draws. -/
structure KState (F : Type) where
  store : Store F
  pushed : List (SessionId × Bytes)
  draws : Nat

/-- A keyspace program. -/
abbrev K (F : Type) (α : Type) := Prog Ctx (KState F) (Exc Errors) α

variable {F : Type}

/-- An exception that is no `Error`. -/
def fail {α : Type} : K F α := Prog.raise .other

/-- `raise Errors.X`. -/
def throw_ {α : Type} (e : Errors) : K F α := Prog.raise (.error e)

/-- The value of a computation that may raise. -/
def orFail {α : Type} : Option α → K F α
  | some a => pure a
  | none => fail

/-- `hash(v)`. -/
def needHash (v : Value) : K F Unit := if v.hashable then pure () else fail

/-- `time.monotonic_ns()` and `time.time_ns()`. -/
def clock : K F Clock := do return (← Prog.ask).clock

/-! ## Publishing -/

/-- `compile_glob(pattern)` of a stored pattern. -/
def compile_glob : Value → K F (Bytes → Bool)
  | .bytes p => do orFail ((← Prog.ask).env.glob p)
  | _ => fail

/-- `matcher.match(v)`. -/
def matches_ (matcher : Bytes → Bool) : Value → K F Bool
  | .bytes b => pure (matcher b)
  | _ => fail

/-- `session.deliver(frame)`. -/
def deliver (session : SessionId) (frame : Bytes) : K F Unit :=
  Prog.modify fun s => { s with pushed := s.pushed ++ [(session, frame)] }

/-- `build_message`. -/
def build_message (channel payload : Value) : Option Bytes :=
  protocolBuilder (.list [.bytes (bs "message"), .ofValue channel, .ofValue payload])

/-- `build_pmessage`. -/
def build_pmessage (pattern channel payload : Value) : Option Bytes :=
  protocolBuilder (.list [.bytes (bs "pmessage"), .ofValue pattern, .ofValue channel, .ofValue payload])

/-- `PubSubHub.publish`: the number of frames sent. -/
def publish (channel payload : Value) : K F Nat := do
  needHash channel
  let hub := (← Prog.ask).hub
  let subscribers := ((hub.channels.get channel).map OrdSet.elems).getD []
  Prog.each (fun session => do deliver session (← orFail (build_message channel payload))) subscribers
  Prog.fold (fun receivers p => do
    let matcher ← compile_glob p.1
    if ← matches_ matcher channel then
      let frame ← orFail (build_pmessage p.1 channel payload)
      Prog.each (fun session => deliver session frame) p.2.elems
      return receivers + p.2.elems.length
    else return receivers) subscribers.length hub.patterns.entries

/-- The keyspace events. -/
inductive Event where
  | set | setrange | append | incrby | incrbyfloat | setbit
  | lpush | rpush | lpop | rpop | ltrim | lset | linsert | lrem
  | sadd | srem | spop | sinterstore | sunionstore | sdiffstore
  | hset | hdel | hincrby | hincrbyfloat | hexpire | hpersist
  | zadd | zincr | zrem | zpopmin | zpopmax | zremrangebyrank | zremrangebyscore | zremrangebylex
  | zunionstore | zinterstore | zdiffstore
  | del | expire | persist | expired
  deriving DecidableEq, Repr

/-- The name of an event. -/
def Event.name : Event → Bytes
  | .set => bs "set"
  | .setrange => bs "setrange"
  | .append => bs "append"
  | .incrby => bs "incrby"
  | .incrbyfloat => bs "incrbyfloat"
  | .setbit => bs "setbit"
  | .lpush => bs "lpush"
  | .rpush => bs "rpush"
  | .lpop => bs "lpop"
  | .rpop => bs "rpop"
  | .ltrim => bs "ltrim"
  | .lset => bs "lset"
  | .linsert => bs "linsert"
  | .lrem => bs "lrem"
  | .sadd => bs "sadd"
  | .srem => bs "srem"
  | .spop => bs "spop"
  | .sinterstore => bs "sinterstore"
  | .sunionstore => bs "sunionstore"
  | .sdiffstore => bs "sdiffstore"
  | .hset => bs "hset"
  | .hdel => bs "hdel"
  | .hincrby => bs "hincrby"
  | .hincrbyfloat => bs "hincrbyfloat"
  | .hexpire => bs "hexpire"
  | .hpersist => bs "hpersist"
  | .zadd => bs "zadd"
  | .zincr => bs "zincr"
  | .zrem => bs "zrem"
  | .zpopmin => bs "zpopmin"
  | .zpopmax => bs "zpopmax"
  | .zremrangebyrank => bs "zremrangebyrank"
  | .zremrangebyscore => bs "zremrangebyscore"
  | .zremrangebylex => bs "zremrangebylex"
  | .zunionstore => bs "zunionstore"
  | .zinterstore => bs "zinterstore"
  | .zdiffstore => bs "zdiffstore"
  | .del => bs "del"
  | .expire => bs "expire"
  | .persist => bs "persist"
  | .expired => bs "expired"

/-- `_EVENT_CLASS`: `$`, `l`, `s`, `h`, `z`, `g` or `x`. -/
def Event.class_ : Event → UInt8
  | .set | .setrange | .append | .incrby | .incrbyfloat | .setbit => 36
  | .lpush | .rpush | .lpop | .rpop | .ltrim | .lset | .linsert | .lrem => 108
  | .sadd | .srem | .spop | .sinterstore | .sunionstore | .sdiffstore => 115
  | .hset | .hdel | .hincrby | .hincrbyfloat | .hexpire | .hpersist => 104
  | .zadd | .zincr | .zrem | .zpopmin | .zpopmax | .zremrangebyrank | .zremrangebyscore | .zremrangebylex
  | .zunionstore | .zinterstore | .zdiffstore => 122
  | .del | .expire | .persist => 103
  | .expired => 120

/-- `_notify`: the event on the keyspace channel of the key and on the keyevent channel, as far as the flags enable them. The
key is concatenated to a byte string for the first. -/
def _notify (key : Value) (event : Event) : K F Unit := do
  let flags := (← Prog.ask).flags
  if flags = [] ∨ (65 ∉ flags ∧ event.class_ ∉ flags) then return ()
  if 75 ∈ flags then
    match key with
    | .bytes k => let _ ← publish (.bytes (bs "__keyspace@0__:" ++ k)) (.bytes event.name)
    | _ => fail
  if 69 ∈ flags then
    let _ ← publish (.bytes (bs "__keyevent@0__:" ++ event.name)) key

/-! ## The methods of `Data` -/

/-- `self._storage.get(key)`. -/
def entry (key : Value) : K F (Option (Entry F)) := do
  needHash key
  return (← Prog.get).store.storage.get key

/-- Write `self._storage`. -/
def setStorage (f : Dict Value (Entry F) → Dict Value (Entry F)) : K F Unit :=
  Prog.modify fun s => { s with store.storage := f s.store.storage }

/-- `_purge_key`. -/
def _purge_key (key : Value) : K F Unit := do
  setStorage (·.erase key)
  _notify key .expired

/-- `data.get(key)`: `none` also for a stored null. An expired key is purged. -/
def data_get (key : Value) : K F (Option (Obj F)) := do
  match ← entry key with
  | none => return none
  | some e =>
    if e.live (← clock).mono then
      match e.value with
      | .raw .null => return none
      | obj => return some obj
    else
      _purge_key key
      return none

/-- `data[key]`: like `get`, but an expired entry stays. -/
def getitem (key : Value) : K F (Option (Obj F)) := do
  match ← entry key with
  | none => return none
  | some e =>
    if e.live (← clock).mono then
      match e.value with
      | .raw .null => return none
      | obj => return some obj
    else return none

/-- `is_live`, and `key in data`. -/
def is_live (key : Value) : K F Bool := do
  match ← entry key with
  | none => return false
  | some e => return e.live (← clock).mono

/-- `_sweep`: every expired entry is purged. -/
def _sweep : K F Unit := do
  let now := (← clock).mono
  let dead := (← Prog.get).store.storage.entries.filter fun p => !p.2.live now
  Prog.each (fun p => _purge_key p.1) dead

/-- `list(data)`. -/
def data_keys : K F (List Value) := do
  _sweep
  return (← Prog.get).store.storage.keys

/-- `len(data)`. -/
def data_len : K F Nat := do
  _sweep
  return (← Prog.get).store.storage.size

/-- `data.set(key, value, wall_deadline_ns, keep_ttl)`. -/
def data_set (key : Value) (value : Obj F) (wall_deadline_ns : Option Int) (keep_ttl : Bool) : K F Unit := do
  let now ← clock
  let old ← entry key
  let expires_at := match old with
    | some e =>
      if keep_ttl ∧ e.live now.mono then e.expires_at else wall_deadline_ns.map fun d => now.mono + (d - now.wall)
    | none => wall_deadline_ns.map fun d => now.mono + (d - now.wall)
  setStorage (·.set key ⟨value, expires_at⟩)

/-- `data[key] = value`. -/
def setitem (key : Value) (value : Obj F) : K F Unit := do
  needHash key
  setStorage (·.set key ⟨value, none⟩)

/-- The value under `key` is changed in place: the entry stays. -/
def store_value (key : Value) (value : Obj F) : K F Unit :=
  setStorage fun d => match d.get key with
    | some e => d.set key { e with value := value }
    | none => d

/-- `touch`. -/
def touch (key : Value) : K F Unit :=
  Prog.modify fun s =>
    { s with store.generations := s.store.generations.set key ((s.store.generations.get key).getD 0 + 1) }

/-- `generation`. -/
def Store.generation (s : Store F) (key : Value) : Nat := (s.generations.get key).getD 0

/-- `data.remove(key)`: whether a live value was removed. -/
def data_remove (key : Value) : K F Bool := do
  match ← entry key with
  | none => return false
  | some e =>
    setStorage (·.erase key)
    return e.live (← clock).mono

/-- `data.expire(key, secs)`. -/
def data_expire (key : Value) (secs : Int) : K F Bool := do
  match ← entry key with
  | none => return false
  | some e =>
    let now ← clock
    if !e.live now.mono then
      _purge_key key
      return false
    else if secs ≤ 0 then
      setStorage (·.erase key)
      return true
    else
      setStorage (·.set key { e with expires_at := some (now.mono + secs * 10 ^ 9) })
      return true

/-- `data.expire_at(key, wall_deadline_ns)`. -/
def data_expire_at (key : Value) (wall_deadline_ns : Int) : K F Bool := do
  match ← entry key with
  | none => return false
  | some e =>
    let now ← clock
    if !e.live now.mono then
      _purge_key key
      return false
    else
      let expires_at := now.mono + (wall_deadline_ns - now.wall)
      if expires_at ≤ now.mono then
        setStorage (·.erase key)
        return true
      else
        setStorage (·.set key { e with expires_at := some expires_at })
        return true

/-- `wall_expiry`. -/
def wall_expiry (key : Value) : K F Int := do
  match ← entry key with
  | none => return -2
  | some e =>
    let now ← clock
    match e.expires_at with
    | none => return -1
    | some t =>
      if t ≤ now.mono then
        _purge_key key
        return -2
      else return now.wall + (t - now.mono)

/-- `ttl_ms`: the remaining milliseconds, rounded up. -/
def ttl_ms (key : Value) : K F Int := do
  match ← entry key with
  | none => return -2
  | some e =>
    match e.expires_at with
    | none => return -1
    | some t =>
      let now ← clock
      if t ≤ now.mono then
        _purge_key key
        return -2
      else return -((now.mono - t) / 1000000)

/-- `ttl`: whole seconds, rounded half up. -/
def ttl (key : Value) : K F Int := do
  let ms ← ttl_ms key
  if ms < 0 then return ms else return (ms + 500) / 1000

/-- `persist`: an expired entry is deleted without an event. -/
def persist (key : Value) : K F Bool := do
  match ← entry key with
  | none => return false
  | some e =>
    if !e.live (← clock).mono then
      setStorage (·.erase key)
      return false
    else if e.expires_at = none then return false
    else
      setStorage (·.set key { e with expires_at := none })
      return true

/-- `keyspace_stats`: keys, keys with a deadline, average remaining milliseconds. -/
def keyspace_stats : K F (Nat × Nat × Int) := do
  _sweep
  let now := (← clock).mono
  let entries := (← Prog.get).store.storage.entries
  let deadlines := entries.filterMap fun p => p.2.expires_at
  let avg := if deadlines = [] then 0 else (deadlines.map (· - now)).sum / deadlines.length / 1000000
  return (entries.length, deadlines.length, avg)

/-- What `snapshot()` returns: for every key its value and its wall-clock deadline. -/
abbrev Snapshot (F : Type) := Dict Value (Obj F × Option Int)

/-- The snapshot of the live entries: a monotonic deadline becomes a wall-clock one. A plain list in it is still the one of
the store (`DB.pickles`). -/
def Store.snapshot (s : Store F) (now : Clock) : Snapshot F :=
  (s.storage.filter fun p => p.2.live now.mono).mapValues fun _ e =>
    (e.value, e.expires_at.map fun t => now.wall + (t - now.mono))

/-- `snapshot`: the expired entries are purged on the way. -/
def snapshot : K F (Snapshot F) := do
  let out := (← Prog.get).store.snapshot (← clock)
  _sweep
  return out

/-- The entry `restore` makes of a row, unless its deadline has passed. -/
def restoreEntry (row : Obj F × Option Int) (now : Clock) : Option (Entry F) :=
  match row.2 with
  | none => some ⟨row.1, none⟩
  | some deadline =>
    let expires_at := now.mono + (deadline - now.wall)
    if expires_at ≤ now.mono then none else some ⟨row.1, some expires_at⟩

/-- `restore` of the rows of `snapshot` into an empty store. -/
def restore (snapshot : Snapshot F) (now : Clock) : Dict Value (Entry F) :=
  snapshot.entries.foldl (fun storage p => match restoreEntry p.2 now with
    | none => storage
    | some e => storage.set p.1 e) ∅

/-- An item of a persisted snapshot, as `restore` sees it: a tuple, or a plain stored value. -/
inductive SnapshotItem (F : Type) where
  | tuple (fields : List (Obj F))
  | obj (value : Obj F)

/-- The tuple `snapshot` makes of a value and its deadline. -/
def SnapshotItem.ofRow (row : Obj F × Option Int) : SnapshotItem F :=
  .tuple [row.1, .raw (match row.2 with
    | none => .null
    | some deadline => .int deadline)]

/-- The shape test of `restore`: a pair whose second part is `None` or an `int` is a value with its deadline, anything else a
legacy value. -/
def SnapshotItem.split : SnapshotItem F → SnapshotItem F × Option Int
  | .tuple [value, .raw .null] => (.obj value, none)
  | .tuple [value, .raw (.int deadline)] => (.obj value, some deadline)
  | item => (item, none)

/-- The value and the monotonic deadline `restore` stores for an item, unless its deadline has passed. -/
def restoreItem (item : SnapshotItem F) (now : Clock) : Option (SnapshotItem F × Option Int) :=
  match item.split with
  | (value, none) => some (value, none)
  | (value, some deadline) =>
    let expires_at := now.mono + (deadline - now.wall)
    if expires_at ≤ now.mono then none else some (value, some expires_at)

/-- `restore` of any persisted snapshot, legacy or not, into an empty store. -/
def restoreItems (snapshot : Dict Value (SnapshotItem F)) (now : Clock) : Dict Value (SnapshotItem F × Option Int) :=
  snapshot.entries.foldl (fun storage p => match restoreItem p.2 now with
    | none => storage
    | some e => storage.set p.1 e) ∅

/-! ## After a write -/

/-- `_after_write`. -/
def _after_write (key : Value) (event : Event) : K F Unit := do
  touch key
  _notify key event

/-- `expect_kind`, for the kind a command works on. -/
def expect_kind (key : Value) (kind : Kind) : K F (Option (Obj F)) := do
  match ← data_get key with
  | none => return none
  | some obj => if kind_of obj = some kind then return some obj else throw_ .WRONGTYPE

/-! ## Random choices -/

/-- One random number below `n`. -/
def draw (n : Nat) : K F Nat := do
  let i := (← Prog.get).draws
  Prog.modify fun s => { s with draws := s.draws + 1 }
  return (← Prog.ask).env.draw i % n

/-- `choice(items)`. -/
def choice {α : Type} (items : List α) : K F α := do orFail items[← draw items.length]?

/-- `[f() for _ in range(n)]`. -/
def times {α : Type} (f : K F α) : Nat → K F (List α)
  | 0 => pure []
  | n + 1 => do
    let x ← f
    let xs ← times f n
    return x :: xs

/-- `sample(items, n)`: one after the other, each from what is left. -/
def sample {α : Type} : Nat → List α → K F (List α)
  | 0, _ => pure []
  | n + 1, items => do
    let i ← draw items.length
    let x ← orFail items[i]?
    let xs ← sample n (items.eraseIdx i)
    return x :: xs

/-- What SRANDMEMBER, HRANDFIELD and ZRANDMEMBER pick with a count: with repetition when it is negative. -/
def pick {α : Type} (items : List α) (count : Int) : K F (List α) :=
  if count < 0 then times (choice items) count.natAbs
  else if count = 0 then pure []
  else if count ≥ items.length then pure items
  else sample count.toNat items

end Kagni
