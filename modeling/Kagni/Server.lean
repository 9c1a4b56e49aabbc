import Kagni.Commands.Basic
import Kagni.Commands.Bit
import Kagni.Commands.Hash
import Kagni.Commands.Lists
import Kagni.Commands.Set
import Kagni.Commands.Zset
import Kagni.Db
import Mathlib.Data.List.Sort

/-!
# The server object

`Commands` with everything it holds: the store, the subscription tables, the notification flags, the persisted table, and the
sessions of the connections. The commands that work on more than the keyspace are here: WATCH and UNWATCH, the pub/sub family,
CLIENT, CONFIG, COMMAND and the two flushes. At the end stands the method of every command.
-/

namespace Kagni

open Lib

/-- What `Session.sender` may be besides `None`: the transport of the connection, or the list EXEC collects the frames in. -/
inductive Sink where
  | transport
  | collector
  deriving DecidableEq, Repr

/-- A parsed request `[command, *args]` whose command is a byte string. -/
structure Request where
  command : Bytes
  args : List Value
  deriving DecidableEq

/-- `Session`. The frames pushed to it are in `outbox`, `wire` or `collected`, by its sender when they were pushed. -/
structure Session where
  in_multi : Bool
  queue : List Request
  channels : OrdSet Value
  patterns : OrdSet Value
  sender : Option Sink
  outbox : List Bytes
  wire : List Bytes
  collected : List Bytes
  watched : Dict Value (Nat × Bool)

/-- The two subscription tables. -/
inductive Topic where
  | channels
  | patterns
  deriving DecidableEq, Repr

namespace Session

/-- `Session()`, with the sender the server wires. -/
def new (sender : Option Sink) : Session := ⟨false, [], ∅, ∅, sender, [], [], [], ∅⟩

/-- `subscription_count`. -/
def subscription_count (st : Session) : Nat := st.channels.card + st.patterns.card

/-- `subscribed`. -/
def subscribed (st : Session) : Bool := st.channels.elems ≠ [] ∨ st.patterns.elems ≠ []

/-- `deliver`. -/
def deliver (st : Session) (frame : Bytes) : Session :=
  match st.sender with
  | none => { st with outbox := st.outbox ++ [frame] }
  | some .transport => { st with wire := st.wire ++ [frame] }
  | some .collector => { st with collected := st.collected ++ [frame] }

/-- `session.channels` or `session.patterns`. -/
def names (st : Session) : Topic → OrdSet Value
  | .channels => st.channels
  | .patterns => st.patterns

/-- Change `session.channels` or `session.patterns`. -/
def withNames (st : Session) (f : OrdSet Value → OrdSet Value) : Topic → Session
  | .channels => { st with channels := f st.channels }
  | .patterns => { st with patterns := f st.patterns }

end Session

namespace PubSubHub

/-- `PubSubHub()`. -/
def init : PubSubHub := ⟨∅, ∅⟩

/-- Change `_channels` or `_patterns`. -/
def withTable (hub : PubSubHub) (f : Dict Value (OrdSet SessionId) → Dict Value (OrdSet SessionId)) : Topic → PubSubHub
  | .channels => { hub with channels := f hub.channels }
  | .patterns => { hub with patterns := f hub.patterns }

/-- `subscribe` and `psubscribe`. -/
def subscribe (hub : PubSubHub) (topic : Topic) (session : SessionId) (name : Value) : PubSubHub :=
  hub.withTable (fun table => table.set name (((table.get name).getD ∅).insert session)) topic

/-- Put back the subscribers of a name, or drop the name when there are none. -/
def putBack (table : Dict Value (OrdSet SessionId)) (name : Value) (subscribers : OrdSet SessionId) :
    Dict Value (OrdSet SessionId) :=
  if subscribers.elems = [] then table.erase name else table.set name subscribers

/-- `unsubscribe` and `punsubscribe`. -/
def unsubscribe (hub : PubSubHub) (topic : Topic) (session : SessionId) (name : Value) : PubSubHub :=
  hub.withTable (fun table => match table.get name with
    | none => table
    | some subscribers => putBack table name (subscribers.erase session)) topic

/-- `remove_session`. -/
def remove_session (hub : PubSubHub) (session : SessionId) : PubSubHub :=
  let drop := fun table : Dict Value (OrdSet SessionId) =>
    table.entries.foldl (fun t p => putBack t p.1 (p.2.erase session)) table
  ⟨drop hub.channels, drop hub.patterns⟩

/-- `active_channels` without a pattern. -/
def active_channels (hub : PubSubHub) : List Value := hub.channels.keys

/-- `numsub`. -/
def numsub (hub : PubSubHub) (channel : Value) : Nat := ((hub.channels.get channel).map OrdSet.card).getD 0

/-- `numpatterns`. -/
def numpatterns (hub : PubSubHub) : Nat := hub.patterns.size

end PubSubHub

/-- `Commands`, and the table its persistence backend holds. -/
structure Server (F : Type) where
  data : Data F
  hub : PubSubHub
  notify_keyspace_events : Text
  tcp_port : Nat
  table : Option (Table F)
  sessions : SessionId → Session
  draws : Nat

variable {F : Type}

namespace Server

/-- Change one session. -/
def update (s : Server F) (session : SessionId) (f : Session → Session) : Server F :=
  { s with sessions := Function.update s.sessions session (f (s.sessions session)) }

/-- Hand every pushed frame to its session. -/
def push (s : Server F) (frames : List (SessionId × Bytes)) : Server F :=
  frames.foldl (fun s p => s.update p.1 (·.deliver p.2)) s

/-- What a keyspace command sees of the server. -/
def ctx (s : Server F) (env : Env) (clock : Clock) : Ctx := ⟨env, clock, s.hub, s.notify_keyspace_events, s.tcp_port⟩

/-- The state a keyspace command starts from. -/
def kstate (s : Server F) : KState F := ⟨s.data.toStore, [], s.draws⟩

/-- The server after a keyspace command ended in the state `k`. -/
def absorb (s : Server F) (k : KState F) : Server F :=
  { s with data := { s.data with toStore := k.store }, draws := k.draws }.push k.pushed

end Server

/-- A program over the whole server, with the outside world and the instant of the dispatch as its context. -/
abbrev M (F : Type) (α : Type) := Prog (Env × Clock) (Server F) (Exc Error) α

/-- `Errors.X` raised by a keyspace command, as the `Error` it is. -/
def Exc.toError : Exc Errors → Exc Error
  | .error e => .error e.error
  | .other => .other

/-- Run a keyspace program. -/
def liftK {α : Type} (m : K F α) : M F α := fun r s =>
  match m (s.ctx r.1 r.2) s.kstate with
  | (.ok a, k) => (.ok a, s.absorb k)
  | (.error e, k) => (.error e.toError, s.absorb k)

/-- An exception that is no `Error`. -/
def crash {α : Type} : M F α := Prog.raise .other

/-- `raise Error("ERR", msg)`. -/
def raiseErr {α : Type} (msg : Text) : M F α := Prog.raise (.error (Errors.err msg))

/-- `_session(instance)`. -/
def _session : Option SessionId → M F SessionId
  | some session => pure session
  | none => raiseErr (bs "pub/sub commands need a per-connection session")

/-! ## WATCH -/

/-- `is_live` of a key that has a hash. -/
def Store.is_live (s : Store F) (key : Value) (now : Int) : Bool := ((s.storage.get key).map fun e => e.live now).getD false

def WATCH (state : Option SessionId) (keys : List Value) : M F (Option Reply) := do
  let session ← _session state
  Prog.each (fun key => do
    liftK (needHash key)
    let now := (← Prog.ask).2.mono
    Prog.modify fun s => s.update session fun st =>
      { st with watched := st.watched.set key (s.data.generation key, s.data.is_live key now) }) keys
  return some .OK

def UNWATCH (state : Option SessionId) (args : List Value) : M F (Option Reply) := do
  if args ≠ [] then crash
  let session ← _session state
  Prog.modify fun s => s.update session fun st => { st with watched := ∅ }
  return some .OK

/-! ## Pub/sub -/

/-- `session.deliver(protocolBuilder([kind, name, session.subscription_count]))`. -/
def confirm (session : SessionId) (kind : Bytes) (name : Reply) : M F Unit := do
  let count := ((← Prog.get).sessions session).subscription_count
  match protocolBuilder (.list [.bytes kind, name, .int count]) with
  | some frame => Prog.modify fun s => s.update session (·.deliver frame)
  | none => crash

/-- SUBSCRIBE and PSUBSCRIBE. -/
def subscribeAll (topic : Topic) (kind : Bytes) (state : Option SessionId) (names : List Value) : M F (Option Reply) := do
  let session ← _session state
  Prog.each (fun name => do
    liftK (needHash name)
    Prog.modify fun s =>
      { s.update session (·.withNames (·.insert name) topic) with hub := s.hub.subscribe topic session name }
    confirm session kind (.ofValue name)) names
  return none

def SUBSCRIBE (state : Option SessionId) (channels : List Value) : M F (Option Reply) :=
  subscribeAll .channels (bs "subscribe") state channels

def PSUBSCRIBE (state : Option SessionId) (patterns : List Value) : M F (Option Reply) :=
  subscribeAll .patterns (bs "psubscribe") state patterns

/-- `sorted(values)`: byte strings and integers do not compare with each other, and null with nothing. -/
def sorted (values : List Value) : Option (List Value) :=
  if values.length ≤ 1 then some values
  else if values.all (fun v => (v.lt? v).isSome) ∧
      (values.all (fun v => decide v.IsBytes) ∨ values.all (fun v => decide ¬v.IsBytes)) then
    some (values.insertionSort fun a b => b.lt? a = some false)
  else none

/-- UNSUBSCRIBE and PUNSUBSCRIBE. -/
def unsubscribeAll (topic : Topic) (kind : Bytes) (state : Option SessionId) (names : List Value) : M F (Option Reply) := do
  let session ← _session state
  let held := ((← Prog.get).sessions session).names topic
  let wanted ← match names with
    | [] => match sorted held.elems with
      | some held => pure held
      | none => crash
    | _ => pure names
  Prog.each (fun name => do
    liftK (needHash name)
    Prog.modify fun s =>
      { s.update session (·.withNames (·.erase name) topic) with hub := s.hub.unsubscribe topic session name }
    confirm session kind (.ofValue name)) wanted
  if names = [] ∧ held.elems = [] then confirm session kind .NIL
  return none

def UNSUBSCRIBE (state : Option SessionId) (channels : List Value) : M F (Option Reply) :=
  unsubscribeAll .channels (bs "unsubscribe") state channels

def PUNSUBSCRIBE (state : Option SessionId) (patterns : List Value) : M F (Option Reply) :=
  unsubscribeAll .patterns (bs "punsubscribe") state patterns

def PUBLISH (args : List Value) : M F (Option Reply) := do
  match args with
  | [channel, message] => return some (.int (← liftK (publish channel message)))
  | _ => crash

/-- `active_channels(pattern)`. -/
def active_channels (pattern : Option Value) : K F (List Value) := do
  let channels := (← Prog.ask).hub.active_channels
  match ← compilePattern pattern with
  | none => return channels
  | some matcher => filterM_ (matches_ matcher) channels

/-- The reply of PUBSUB NUMSUB. -/
def numsubs (channels : List Value) : K F Reply := do
  Prog.each needHash channels
  let hub := (← Prog.ask).hub
  return .list (channels.flatMap fun c => [.ofValue c, .int (hub.numsub c)])

def PUBSUB (args : List Value) : M F (Option Reply) := do
  match args with
  | [] => Prog.raise (.error (Errors.arity .PUBSUB).error)
  | sub :: rest =>
    let raw ← liftK (asBytes sub)
    if upper raw = bs "CHANNELS" then
      match rest with
      | [] => return some (.values (← liftK (active_channels none)))
      | [pattern] => return some (.values (← liftK (active_channels (some pattern))))
      | _ => liftK (throw_ .SYNTAX)
    else if upper raw = bs "NUMSUB" then return some (← liftK (numsubs rest))
    else if upper raw = bs "NUMPAT" ∧ rest = [] then return some (.int (← Prog.get).hub.numpatterns)
    else raiseErr (bs "unknown subcommand '" ++ decodeAscii raw ++ bs "'. Try PUBSUB HELP.")

/-! ## Introspection -/

/-- "Unknown subcommand or wrong number of arguments for '...'. Try X HELP." -/
def unknownSubcommand {α : Type} (sub command : Bytes) : M F α :=
  raiseErr (bs "Unknown subcommand or wrong number of arguments for '" ++ decodeAscii sub ++ bs "'. Try " ++ command ++
    bs " HELP.")

/-- The arity COMMAND reports: positive when the number of arguments is fixed. -/
def Cmd.tableArity (c : Cmd) : Int := if c.maxArgs = some c.minArgs then c.minArgs + 1 else -(c.minArgs + 1)

/-- The entry of a command in the reply of COMMAND. -/
def Cmd.tableEntry (c : Cmd) : Reply :=
  .list [.bytes c.name, .int c.tableArity, .list (c.flags.map .bytes), .int 0, .int 0, .int 0]

/-- The entry of a command in the reply of COMMAND DOCS. -/
def Cmd.docs (c : Cmd) : Reply :=
  .list [.bytes c.name, .list [.bytes (bs "summary"), .bytes [], .bytes (bs "since"), .bytes (bs "0.9.0"),
    .bytes (bs "group"), .bytes c.group, .bytes (bs "arity"), .int c.tableArity,
    .bytes (bs "flags"), .list (c.flags.map .bytes)]]

/-- `sorted(table)`. -/
def Cmd.sortedAll : List Cmd := Cmd.all.insertionSort fun a b => bytesLt b.name a.name = false

def COMMAND (args : List Value) : M F Reply := do
  match args with
  | [] => return .list (Cmd.all.map Cmd.tableEntry)
  | sub :: rest =>
    let sub := upper (← liftK (asBytes sub))
    if sub = bs "COUNT" ∧ rest = [] then return .int Cmd.all.length
    else if sub = bs "DOCS" then
      if rest = [] then return .list (Cmd.sortedAll.map Cmd.docs)
      else
        let wanted ← liftK (mapM_ upperArg rest)
        return .list ((wanted.filterMap Cmd.ofName).map Cmd.docs)
    else unknownSubcommand sub (bs "COMMAND")

def CLIENT (args : List Value) : M F Reply := do
  match args with
  | [] => Prog.raise (.error (Errors.arity .CLIENT).error)
  | sub :: rest =>
    let sub := upper (← liftK (asBytes sub))
    if sub = bs "SETINFO" ∧ rest.length = 2 then return .OK
    else if sub = bs "SETNAME" ∧ rest.length = 1 then return .OK
    else if sub = bs "GETNAME" ∧ rest = [] then return .bytes []
    else if sub = bs "ID" ∧ rest = [] then return .int 1
    else unknownSubcommand sub (bs "CLIENT")

/-- `CONFIG_VALUES` and the notification flags, by name. -/
def configValues (notify_keyspace_events : Text) : List (Bytes × Bytes) :=
  [(bs "appendonly", bs "no"), (bs "maxmemory", bs "0"), (bs "maxmemory-policy", bs "noeviction"),
    (bs "notify-keyspace-events", notify_keyspace_events), (bs "save", [])]

/-- `_config_get`. -/
def _config_get (pattern : Value) : M F Reply := do
  let matcher ← liftK (compile_glob pattern)
  let values := configValues (← Prog.get).notify_keyspace_events
  return .list ((values.filter fun p => matcher p.1).flatMap fun p => [.bytes p.1, .bytes p.2])

/-- `_ALLOWED_EVENT_FLAGS`. -/
def _ALLOWED_EVENT_FLAGS : Text := bs "Ag$lshzxeKEtmdn"

/-- `Errors.arity("config|get")`, and the same for SET. -/
def configArity {α : Type} (sub : Text) : M F α :=
  raiseErr (bs "wrong number of arguments for 'config|" ++ sub ++ bs "' command")

/-- CONFIG SET. -/
def configSet (param value : Value) : M F Reply := do
  let param ← liftK (asBytes param)
  if lower param = bs "notify-keyspace-events" then
    let value ← liftK (asBytes value)
    if value.all (fun c => decide (c ∈ _ALLOWED_EVENT_FLAGS)) then
      Prog.modify fun s => { s with notify_keyspace_events := value }
      return .OK
    else
      raiseErr (bs "CONFIG SET failed (possibly related to argument 'notify-keyspace-events') - Invalid event class " ++
        bs "character. Use 'Ag$lshzxeKEtmdn'.")
  else raiseErr (bs "Unknown option or number of arguments for CONFIG SET - '" ++ decodeAscii param ++ bs "'")

def CONFIG (args : List Value) : M F Reply := do
  match args with
  | [] => Prog.raise (.error (Errors.arity .CONFIG).error)
  | sub :: rest =>
    let sub := upper (← liftK (asBytes sub))
    if sub = bs "GET" then
      match rest with
      | [pattern] => _config_get pattern
      | _ => configArity (bs "get")
    else if sub = bs "SET" then
      match rest with
      | [param, value] => configSet param value
      | _ => configArity (bs "set")
    else raiseErr (bs "Unknown CONFIG subcommand or wrong number of arguments for " ++ decodeAscii sub)

/-- `_flush_all`: the store first, then the persisted table. -/
def _flush_all : M F Reply := do
  Prog.modify fun s => { s with data := s.data.clear }
  Prog.modify fun s => { s with table := s.table.map DB.flush }
  return .OK

def FLUSHDB : M F Reply := _flush_all

def FLUSHALL : M F Reply := _flush_all

end Kagni
