import Kagni.Server

/-!
# Dispatch

`Commands.dispatch`: one request in, one reply out. A command method runs inside a `try`, and what it raises becomes an error
reply; what is raised outside of it escapes. An escaping exception is the exception of the programs here, so that `dispatch`
never raises is a statement about them, not a property of their type.
-/

namespace Kagni

open Lib

variable {F : Type}

/-! ## The method of every command -/

/-- How a command is run: by a method of the keyspace or of the server behind `command_decorator`, or, for the pub/sub family,
WATCH and UNWATCH, with the session bound and its value encoded by the dispatcher. -/
inductive Handler (F : Type) where
  | keyspace (method : List Value → K F Reply)
  | server (method : List Value → M F Reply)
  | session (method : Option SessionId → List Value → M F (Option Reply))

namespace Handler

/-- A method with no parameters; any other number of arguments is a `TypeError`. -/
def args0 (f : K F Reply) : Handler F := .keyspace fun
  | [] => f
  | _ => fail

/-- A method with one parameter. -/
def args1 (f : Value → K F Reply) : Handler F := .keyspace fun
  | [a] => f a
  | _ => fail

/-- A method with two parameters. -/
def args2 (f : Value → Value → K F Reply) : Handler F := .keyspace fun
  | [a, b] => f a b
  | _ => fail

/-- A method with three parameters. -/
def args3 (f : Value → Value → Value → K F Reply) : Handler F := .keyspace fun
  | [a, b, c] => f a b c
  | _ => fail

/-- A method with four parameters. -/
def args4 (f : Value → Value → Value → Value → K F Reply) : Handler F := .keyspace fun
  | [a, b, c, d] => f a b c d
  | _ => fail

/-- One parameter and `*rest`. -/
def rest1 (f : Value → List Value → K F Reply) : Handler F := .keyspace fun
  | a :: rest => f a rest
  | _ => fail

/-- Two parameters and `*rest`. -/
def rest2 (f : Value → Value → List Value → K F Reply) : Handler F := .keyspace fun
  | a :: b :: rest => f a b rest
  | _ => fail

/-- Three parameters and `*rest`. -/
def rest3 (f : Value → Value → Value → List Value → K F Reply) : Handler F := .keyspace fun
  | a :: b :: c :: rest => f a b c rest
  | _ => fail

/-- A key and an integer that may be left out. -/
def keyCount (f : Value → Option Int → K F Reply) : Handler F := .keyspace fun
  | [key] => f key none
  | [key, count] => do f key (← intArg? (some count))
  | _ => fail

/-- A key, an integer that may be left out, and `*rest`. -/
def keyCountRest (f : Value → Option Int → List Value → K F Reply) : Handler F := .keyspace fun
  | [key] => f key none []
  | key :: count :: rest => do f key (← intArg? (some count)) rest
  | _ => fail

end Handler

open Handler in
/-- `getattr(self, name)`, with the casts of the decorator: a parameter annotated with `int` is an `intArg`. -/
def handler [PyFloat F] : Cmd → Handler F
  | .WATCH => .session WATCH
  | .UNWATCH => .session UNWATCH
  | .PING => .keyspace fun
    | [] => PING none
    | [message] => PING (some message)
    | _ => fail
  | .ECHO => args1 ECHO
  | .COMMAND => .server COMMAND
  | .TYPE => args1 TYPE
  | .HELLO => .keyspace HELLO
  | .CLIENT => .server CLIENT
  | .CONFIG => .server CONFIG
  | .INFO => .keyspace INFO
  | .SET => rest2 SET
  | .SETNX => args2 SETNX
  | .SETEX => args3 fun key secs val => do SETEX key (← intArg secs) val
  | .PSETEX => args3 fun key ms val => do PSETEX key (← intArg ms) val
  | .GET => args1 GET
  | .GETDEL => args1 GETDEL
  | .GETEX => rest1 GETEX
  | .GETSET => args2 GETSET
  | .MGET => .keyspace MGET
  | .MSET => .keyspace MSET
  | .MSETNX => .keyspace MSETNX
  | .DEL => .keyspace DEL
  | .EXPIRE => args2 fun key secs => do EXPIRE key (← intArg secs)
  | .PEXPIRE => args2 fun key ms => do PEXPIRE key (← intArg ms)
  | .EXPIREAT => args2 fun key ts => do EXPIREAT key (← intArg ts)
  | .PEXPIREAT => args2 fun key ts => do PEXPIREAT key (← intArg ts)
  | .PERSIST => args1 PERSIST
  | .EXPIRETIME => args1 EXPIRETIME
  | .PEXPIRETIME => args1 PEXPIRETIME
  | .TTL => args1 TTL
  | .PTTL => args1 PTTL
  | .KEYS => args1 KEYS
  | .SCAN => rest1 SCAN
  | .EXISTS => .keyspace EXISTS
  | .TOUCH => .keyspace TOUCH
  | .DBSIZE => args0 DBSIZE
  | .INCRBY => args2 fun key i => do INCRBY key (← intArg i)
  | .INCR => args1 INCR
  | .INCRBYFLOAT => args2 INCRBYFLOAT
  | .DECRBY => args2 fun key i => do DECRBY key (← intArg i)
  | .DECR => args1 DECR
  | .LCS => rest2 LCS
  | .SUBSTR => args3 fun key start stop => do SUBSTR key (← intArg start) (← intArg stop)
  | .GETRANGE => args3 fun key start stop => do GETRANGE key (← intArg start) (← intArg stop)
  | .SETRANGE => args3 fun key offset value => do SETRANGE key (← intArg offset) value
  | .FLUSHDB => .server fun
    | [] => FLUSHDB
    | _ => crash
  | .FLUSHALL => .server fun
    | [] => FLUSHALL
    | _ => crash
  | .APPEND => args2 APPEND
  | .STRLEN => args1 STRLEN
  | .SADD => rest1 SADD
  | .SCARD => args1 SCARD
  | .SMEMBERS => args1 SMEMBERS
  | .SREM => rest1 SREM
  | .SDIFF => .keyspace SDIFF
  | .SDIFFSTORE => rest1 SDIFFSTORE
  | .SINTER => .keyspace SINTER
  | .SINTERCARD => rest1 fun numkeys rest => do SINTERCARD (← intArg numkeys) rest
  | .SINTERSTORE => rest1 SINTERSTORE
  | .SSCAN => rest2 SSCAN
  | .SMISMEMBER => rest1 SMISMEMBER
  | .SISMEMBER => args2 SISMEMBER
  | .SMOVE => args3 SMOVE
  | .SPOP => keyCount SPOP
  | .SRANDMEMBER => keyCount SRANDMEMBER
  | .SUNION => .keyspace SUNION
  | .SUNIONSTORE => rest1 SUNIONSTORE
  | .SETBIT => args3 fun key bit val => do SETBIT key (← intArg bit) (← intArg val)
  | .GETBIT => args2 fun key bit => do GETBIT key (← intArg bit)
  | .BITOP => rest2 BITOP
  | .BITCOUNT => args1 BITCOUNT
  | .BITPOS => args2 BITPOS
  | .BITFIELD => rest1 BITFIELD
  | .BITFIELD_RO => rest1 BITFIELD_RO
  | .HSET => rest1 HSET
  | .HMSET => rest1 HMSET
  | .HSETNX => args3 HSETNX
  | .HGET => args2 HGET
  | .HMGET => rest1 HMGET
  | .HEXISTS => args2 HEXISTS
  | .HDEL => rest1 HDEL
  | .HLEN => args1 HLEN
  | .HKEYS => args1 HKEYS
  | .HVALS => args1 HVALS
  | .HGETALL => args1 HGETALL
  | .HSTRLEN => args2 HSTRLEN
  | .HSCAN => rest2 HSCAN
  | .HRANDFIELD => keyCountRest HRANDFIELD
  | .HINCRBY => args3 fun key field increment => do HINCRBY key field (← intArg increment)
  | .HINCRBYFLOAT => args3 HINCRBYFLOAT
  | .HEXPIRE => rest1 HEXPIRE
  | .HPEXPIRE => rest1 HPEXPIRE
  | .HEXPIREAT => rest1 HEXPIREAT
  | .HPEXPIREAT => rest1 HPEXPIREAT
  | .HTTL => rest1 HTTL
  | .HPTTL => rest1 HPTTL
  | .HPERSIST => rest1 HPERSIST
  | .HEXPIRETIME => rest1 HEXPIRETIME
  | .HPEXPIRETIME => rest1 HPEXPIRETIME
  | .LPUSH => rest1 LPUSH
  | .RPUSH => rest1 RPUSH
  | .LPUSHX => rest1 LPUSHX
  | .RPUSHX => rest1 RPUSHX
  | .LLEN => args1 LLEN
  | .LRANGE => args3 fun key start stop => do LRANGE key (← intArg start) (← intArg stop)
  | .LINDEX => args2 fun key index => do LINDEX key (← intArg index)
  | .LPOP => keyCount LPOP
  | .RPOP => keyCount RPOP
  | .LSET => args3 fun key index val => do LSET key (← intArg index) val
  | .LTRIM => args3 fun key start stop => do LTRIM key (← intArg start) (← intArg stop)
  | .LREM => args3 fun key count val => do LREM key (← intArg count) val
  | .LINSERT => args4 LINSERT
  | .LMOVE => args4 LMOVE
  | .RPOPLPUSH => args2 RPOPLPUSH
  | .LMPOP => rest1 fun numkeys rest => do LMPOP (← intArg numkeys) rest
  | .LPOS => rest2 LPOS
  | .ZADD => rest1 ZADD
  | .ZINCRBY => args3 ZINCRBY
  | .ZCARD => args1 ZCARD
  | .ZSCORE => args2 ZSCORE
  | .ZMSCORE => rest1 ZMSCORE
  | .ZRANK => rest2 ZRANK
  | .ZREVRANK => rest2 ZREVRANK
  | .ZRANGE => rest3 ZRANGE
  | .ZREVRANGE => rest3 ZREVRANGE
  | .ZRANGEBYSCORE => rest3 ZRANGEBYSCORE
  | .ZREVRANGEBYSCORE => rest3 ZREVRANGEBYSCORE
  | .ZRANGEBYLEX => rest3 ZRANGEBYLEX
  | .ZREVRANGEBYLEX => rest3 ZREVRANGEBYLEX
  | .ZCOUNT => args3 ZCOUNT
  | .ZLEXCOUNT => args3 ZLEXCOUNT
  | .ZREM => rest1 ZREM
  | .ZREMRANGEBYRANK => args3 fun key start stop => do ZREMRANGEBYRANK key (← intArg start) (← intArg stop)
  | .ZREMRANGEBYSCORE => args3 ZREMRANGEBYSCORE
  | .ZREMRANGEBYLEX => args3 ZREMRANGEBYLEX
  | .ZSCAN => rest2 ZSCAN
  | .ZPOPMIN => keyCount ZPOPMIN
  | .ZPOPMAX => keyCount ZPOPMAX
  | .ZRANDMEMBER => keyCountRest ZRANDMEMBER
  | .ZUNIONSTORE => rest2 fun dest numkeys rest => do ZUNIONSTORE dest (← intArg numkeys) rest
  | .ZINTERSTORE => rest2 fun dest numkeys rest => do ZINTERSTORE dest (← intArg numkeys) rest
  | .ZDIFFSTORE => rest2 fun dest numkeys rest => do ZDIFFSTORE dest (← intArg numkeys) rest
  | .ZUNION => rest1 fun numkeys rest => do ZUNION (← intArg numkeys) rest
  | .ZINTER => rest1 fun numkeys rest => do ZINTER (← intArg numkeys) rest
  | .ZDIFF => rest1 fun numkeys rest => do ZDIFF (← intArg numkeys) rest
  | .SUBSCRIBE => .session SUBSCRIBE
  | .UNSUBSCRIBE => .session UNSUBSCRIBE
  | .PSUBSCRIBE => .session PSUBSCRIBE
  | .PUNSUBSCRIBE => .session PUNSUBSCRIBE
  | .PUBLISH => .session fun _ => PUBLISH
  | .PUBSUB => .session fun _ => PUBSUB

/-! ## The dispatcher -/

/-- A program of the dispatcher; its exception is one that escapes. -/
abbrev D (F : Type) (α : Type) := Prog (Env × Clock) (Server F) Unit α

/-- Raise out of `dispatch`. -/
def escape {α : Type} : D F α := Prog.raise ()

/-- The name of a request: `request[0].decode("ascii", "replace").upper()`. -/
def Request.name (request : Request) : Text := upper (decodeAscii request.command)

/-- `_SUBCOMMAND_COMMANDS`. -/
def _SUBCOMMAND_COMMANDS : List Text := [bs "CLIENT", bs "CONFIG", bs "COMMAND", bs "PUBSUB"]

/-- `_ALLOWED_WHILE_SUBSCRIBED`. -/
def _ALLOWED_WHILE_SUBSCRIBED : List Cmd := [.SUBSCRIBE, .UNSUBSCRIBE, .PSUBSCRIBE, .PUNSUBSCRIBE, .PING]

/-- `_GATE_TEXT % label`. -/
def _GATE_TEXT (label : Text) : Text :=
  bs "Can't execute '" ++ label ++ bs "': only (P|S)SUBSCRIBE / (P|S)UNSUBSCRIBE / PING / QUIT / RESET are allowed in " ++
    bs "this context"

/-- `_gate_label`; `none` is the `AttributeError` of a subcommand that is no byte string. -/
def _gate_label (request : Request) : Option Text :=
  let label := lower (decodeAscii request.command)
  match request.args with
  | [] => some label
  | sub :: _ =>
    if request.name ∈ _SUBCOMMAND_COMMANDS then
      match sub with
      | .bytes sub => some (label ++ bs "|" ++ lower (decodeAscii sub))
      | _ => none
    else some label

/-- `b"'%s' " % arg[:128]`; `none` is a `TypeError`. -/
def quoteArg : Value → Option Bytes
  | .bytes arg => some (bs "'" ++ arg.take 128 ++ bs "' ")
  | _ => none

/-- The quoted arguments of `_unknown_command_frame`. -/
def argSummary : List Value → Option Bytes
  | [] => some []
  | arg :: args => match quoteArg arg, argSummary args with
    | some a, some b => some (a ++ b)
    | _, _ => none

/-- `_unknown_command_frame`. -/
def _unknown_command_frame (request : Request) : Option Bytes :=
  (argSummary request.args).map fun summary =>
    bs "-ERR unknown command '" ++ asciiOrQuestion request.command ++ bs "', with args beginning with: " ++ summary ++ SYM_CRLF

/-- `protocolBuilder(Error("ERR", msg))`. -/
def errFrame (msg : Text) : Bytes := (Errors.err msg).frame

/-- A reply that was computed outside a `try`. -/
def orEscape {α : Type} : Option α → D F α
  | some a => pure a
  | none => escape

/-- The gate error of a request. -/
def gateError (request : Request) : D F (Option Bytes) := do
  return some (errFrame (_GATE_TEXT (← orEscape (_gate_label request))))

/-- What the two `except` clauses answer. -/
def onExc : Exc Error → Bytes
  | .error e => e.frame
  | .other => errFrame (bs "internal error")

/-- A method behind `command_decorator`. -/
def decorated (method : M F Reply) : M F Bytes := do
  match protocolBuilder (← method) with
  | some frame => return frame
  | none => crash

/-- Run a decorated method: its reply is encoded inside the `try`. -/
def runDecorated (method : M F Reply) : D F (Option Bytes) := do
  match ← Prog.attempt (decorated method) with
  | .ok frame => return some frame
  | .error e => return some (onExc e)

/-- Run a method with the session bound: its value is encoded after the `try`. -/
def runSession (method : M F (Option Reply)) : D F (Option Bytes) := do
  match ← Prog.attempt method with
  | .ok none => return none
  | .ok (some value) => return some (← orEscape (protocolBuilder value))
  | .error e => return some (onExc e)

/-- `handler(*args)`. -/
def runHandler (handler : Handler F) (state : Option SessionId) (args : List Value) : D F (Option Bytes) :=
  match handler with
  | .keyspace method => runDecorated (liftK (method args))
  | .server method => runDecorated (method args)
  | .session method => runSession (method state args)

/-- Whether the session, if there is one, holds a subscription. -/
def Server.subscribed (s : Server F) (state : Option SessionId) : Bool :=
  (state.map fun session => (s.sessions session).subscribed).getD false

variable [PyFloat F]

/-- `_dispatch_direct`. -/
def _dispatch_direct (request : Request) (state : Option SessionId) (bypass_gate : Bool) : D F (Option Bytes) := do
  let name := request.name
  let subscribed := (← Prog.get).subscribed state
  if !bypass_gate ∧ subscribed ∧ (name = bs "MULTI" ∨ name = bs "DISCARD") then gateError request
  else if name = bs "MULTI" then
    match state with
    | none => return some (errFrame (bs "MULTI requires a per-connection session"))
    | some session =>
      Prog.modify fun s => s.update session fun st => { st with in_multi := true, queue := [] }
      return protocolBuilder .OK
  else if name = bs "EXEC" then
    if subscribed then
      return some (Error.frame ⟨bs "EXECABORT", bs "Transaction discarded because of: " ++ _GATE_TEXT (bs "exec")⟩)
    else return some (errFrame (bs "EXEC without MULTI"))
  else if name = bs "DISCARD" then return some (errFrame (bs "DISCARD without MULTI"))
  else match Cmd.ofName name with
    | none => return some (← orEscape (_unknown_command_frame request))
    | some command =>
      if ¬command.Accepts request.args.length then return some (Errors.arity command).error.frame
      else if !bypass_gate ∧ subscribed ∧ command ∉ _ALLOWED_WHILE_SUBSCRIBED then gateError request
      else if subscribed ∧ command = .PING then
        -- in subscribed mode PING answers a two-element array, outside of any `try`
        return some (← orEscape (protocolBuilder (.list [.bytes (bs "pong"), .ofValue (request.args.headD (.bytes []))])))
      else runHandler (handler command) state request.args

/-- One queued command: its frame, and what was pushed to the session meanwhile. The sender is put back also when an exception
escapes. -/
def replayOne (session : SessionId) (request : Request) : D F (Option Bytes × List Bytes) := do
  let previous := ((← Prog.get).sessions session).sender
  Prog.modify fun s => s.update session fun st => { st with sender := some .collector, collected := [] }
  let out : Except Unit (Option Bytes) ← Prog.attempt (_dispatch_direct request (some session) true)
  let collected := ((← Prog.get).sessions session).collected
  Prog.modify fun s => s.update session fun st => { st with sender := previous, collected := [] }
  match out with
  | .ok frame => return (frame, collected)
  | .error _ => escape

/-- The loop of EXEC: the parts of the array, one for each queued command, and the frames after it. -/
def replay (session : SessionId) : List Request → D F (List (Option Bytes) × List Bytes)
  | [] => pure ([], [])
  | request :: queued => do
    let (frame, collected) ← replayOne session request
    let (parts, trailing) ← replay session queued
    match collected with
    | [] => return (frame :: parts, trailing)
    | first :: others => return (some first :: parts, others ++ trailing)

/-- `b"".join(parts)`: `None` in it is a `TypeError`. -/
def joinParts : List (Option Bytes) → Option Bytes
  | [] => some []
  | part :: parts => match part, joinParts parts with
    | some a, some b => some (a ++ b)
    | _, _ => none

/-- The WATCH check of EXEC. -/
def Session.dirty (st : Session) (store : Store F) (now : Int) : Bool :=
  st.watched.entries.any fun p =>
    decide (store.generation p.1 ≠ p.2.1) || decide (store.is_live p.1 now ≠ p.2.2)

/-- `_dispatch_queued` for EXEC. -/
def exec (session : SessionId) : D F (Option Bytes) := do
  let now := (← Prog.ask).2.mono
  let s ← Prog.get
  let st := s.sessions session
  Prog.modify fun s => s.update session fun st => { st with queue := [], in_multi := false, watched := ∅ }
  if st.dirty s.data.toStore now then return protocolBuilder .NIL_ARRAY
  else if st.queue = [] then return protocolBuilder (.list [])
  else
    let (parts, trailing) ← replay session st.queue
    let body ← orEscape (joinParts parts)
    return some (42 :: decimalNat st.queue.length ++ SYM_CRLF ++ body ++ trailing.flatten)

/-- `_dispatch_queued`. -/
def _dispatch_queued (session : SessionId) (request : Request) : D F (Option Bytes) := do
  let name := request.name
  if name = bs "EXEC" then exec session
  else if name = bs "DISCARD" then
    Prog.modify fun s => s.update session fun st => { st with queue := [], in_multi := false, watched := ∅ }
    return protocolBuilder .OK
  else if name = bs "MULTI" then return some (errFrame (bs "MULTI calls can not be nested"))
  else if name = bs "WATCH" then return some (errFrame (bs "WATCH inside MULTI is not allowed"))
  else match Cmd.ofName name with
    | none => return some (← orEscape (_unknown_command_frame request))
    | some command =>
      if ¬command.Accepts request.args.length then return some (Errors.arity command).error.frame
      else
        Prog.modify fun s => s.update session fun st => { st with queue := st.queue ++ [request] }
        return protocolBuilder (.response .QUEUED)

/-- `dispatch`. -/
def dispatch (request : Value) (state : Option SessionId) : D F (Option Bytes) := do
  match request with
  | .array (.bytes command :: args) =>
    match state with
    | none => _dispatch_direct ⟨command, args⟩ none false
    | some session =>
      if ((← Prog.get).sessions session).in_multi then _dispatch_queued session ⟨command, args⟩
      else _dispatch_direct ⟨command, args⟩ (some session) false
  | .array (_ :: _) => return some (errFrame (bs "invalid request"))
  | _ => return none

/-! ## Runs -/

/-- What happens to a server: a message is dispatched at an instant, for a connection or without one, or a connection is lost. -/
inductive Input where
  | request (clock : Clock) (state : Option SessionId) (message : Value)
  | lost (session : SessionId)

/-- A request of byte strings, sent by a connection. -/
def Input.send (clock : Clock) (session : SessionId) (words : List Bytes) : Input :=
  .request clock (some session) (.array (words.map .bytes))

namespace Server

/-- The server before the first request; `wired` says which sessions a server backend has given a sender. -/
def init (tcp_port : Nat) (table : Option (Table F)) (storage : Dict Value (Entry F)) (wired : SessionId → Bool) :
    Server F :=
  { data := { (Data.init : Data F) with storage }
    hub := PubSubHub.init
    notify_keyspace_events := []
    tcp_port
    table
    sessions := fun session => Session.new (if wired session then some .transport else none)
    draws := 0 }

/-- One input. -/
def step (env : Env) (s : Server F) : Input → Server F
  | .request clock state message => (dispatch message state (env, clock) s).2
  | .lost session =>
    { s.update session fun st => { st with sender := none } with hub := s.hub.remove_session session }

/-- A run. -/
def run (env : Env) (s : Server F) (inputs : List Input) : Server F := inputs.foldl (step env) s

/-- A state some run from a fresh server leads to. -/
def Reachable (env : Env) (s : Server F) : Prop :=
  ∃ tcp_port table storage wired inputs, s = run env (init tcp_port table storage wired) inputs

theorem run_append (env : Env) (s : Server F) (xs ys : List Input) : run env s (xs ++ ys) = run env (run env s xs) ys :=
  List.foldl_append ..

/-- The induction rule for runs. -/
theorem run_induct {env : Env} {P : Server F → Prop} (hs : ∀ s i, P s → P (step env s i)) (inputs : List Input) {s : Server F}
    (h : P s) : P (run env s inputs) := by
  induction inputs generalizing s with
  | nil => exact h
  | cons i inputs ih => exact ih (hs s i h)

/-- The induction rule for reachable states. -/
theorem Reachable.induct {env : Env} {P : Server F → Prop}
    (h0 : ∀ port table storage wired, P (init port table storage wired)) (hs : ∀ s i, P s → P (step env s i))
    {s : Server F} (h : Reachable env s) : P s := by
  obtain ⟨port, table, storage, wired, inputs, rfl⟩ := h
  exact run_induct hs inputs (h0 port table storage wired)

end Server

end Kagni
