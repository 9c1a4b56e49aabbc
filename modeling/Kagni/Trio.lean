import Kagni.Dispatch
import Kagni.Lib.Trace

/-!
# Connections of the trio backend

`protocol_handler` runs two tasks on one stream: the read task dispatches requests and writes their replies, or puts them in a
memory channel when the connection is subscribed, and `_pubsub_writer` writes what comes out of the channel. A task runs until
it awaits, so an action here is what happens between two awaits, or a part of it that no other task can come between.

Every frame carries the number under which it was made for the connection. The program does not see the numbers.
-/

namespace Kagni.Trio

open Lib

/-- A frame, and how many were made for the connection before it. -/
abbrev Frame := Nat × Bytes

/-- `_PUBSUB_QUEUE`. -/
def _PUBSUB_QUEUE : Nat := 4096

/-- Who holds `send_lock`. -/
inductive Task where
  | reader
  | writer
  deriving DecidableEq

/-- Where `_pubsub_writer` is. -/
inductive Writer where
  /-- In `receive_channel.receive()`. -/
  | receiving
  /-- It has an item and wants the lock. -/
  | holding (item : Frame)
  /-- In `stream.send_all`. -/
  | sending
  | ended

/-- What a direct send waits for. -/
inductive Wait where
  | idle
  | lock

/-- Where the read task is. In a direct send it goes on with a subscribed-mode reply or with the next chunk. -/
inductive Reader where
  /-- In `stream.receive_some`. -/
  | receiving
  /-- In the loop over the requests of a chunk, with the direct replies so far. -/
  | working (requests : List Value) (direct : List Frame)
  /-- In `_direct_send`, before the frames are written. -/
  | waiting (on : Wait) (direct : List Frame) (reply : Option Frame) (requests : List Value)
  /-- In `_direct_send`, in `stream.send_all`. -/
  | sending (reply : Option Frame) (requests : List Value)
  /-- In `send_channel.send`, while the channel is full. -/
  | queueing (reply : Frame) (requests : List Value)
  /-- In `send_channel.send`, with the reply in the channel. -/
  | yielding (requests : List Value)
  /-- It has returned, and the nursery waits for the writer. -/
  | returned
  /-- After a protocol error the channel is closed, and the nursery waits for the writer. -/
  | draining (error_line : Frame)
  /-- The handler is through its `finally`. -/
  | finished

/-- The state of `protocol_handler`. -/
structure Conn where
  queue : List Frame
  send_closed : Bool
  idle_event : Bool
  send_lock : Option Task
  cancelled : Bool
  writer : Writer
  reader : Reader
  made : Nat
  stream : List Frame

/-- What the dispatch of a request does to its connection: the frames pushed to it, the reply, and whether it is subscribed
then. -/
structure Outcome where
  pushed : List Bytes
  reply : Option Bytes
  subscribed : Bool
  deriving DecidableEq

/-- What the read task does. -/
inductive ReadAct where
  /-- The parser makes requests of a chunk. -/
  | chunk (requests : List Value)
  /-- The parser raises a `ProtocolError`. -/
  | garbage (text : Text)
  /-- The peer is gone. -/
  | eof
  /-- A request is dispatched. -/
  | request (outcome : Outcome)
  /-- Dispatching it raises. -/
  | crash
  /-- The chunk is done. -/
  | flush
  /-- `idle_event.wait()` is over. -/
  | wake
  /-- It gets the lock it waits for, and writes. -/
  | acquire
  /-- Its write is done. -/
  | sent
  /-- Its write fails. -/
  | broken
  /-- `send_channel.send` is over. -/
  | resume

/-- What the writer does. -/
inductive WriteAct where
  /-- It gets the lock for the item it has, and writes. -/
  | acquire
  /-- Its write is done. -/
  | sent
  /-- Its write fails. -/
  | broken
  /-- It finds the channel closed. -/
  | close

/-- What happens to a connection. -/
inductive Act where
  | read (act : ReadAct)
  | write (act : WriteAct)
  /-- Another connection publishes a frame to this one. -/
  | push (frame : Bytes)
  /-- A cancellation reaches both tasks. -/
  | cancel
  /-- The handler leaves through its `finally`. -/
  | teardown

namespace Conn

/-- A connection that was accepted. -/
def opened : Conn := ⟨[], false, true, none, false, .receiving, .receiving, 0, []⟩

/-- `send_channel.send_nowait`: an item goes to the waiting receiver or into the buffer; `none` is `trio.WouldBlock`. -/
def send_nowait (c : Conn) (item : Frame) : Option Conn :=
  match c.writer with
  | .receiving => some { c with writer := .holding item }
  | _ => if c.queue.length < _PUBSUB_QUEUE then some { c with queue := c.queue ++ [item] } else none

/-- `push_frame`; `none` is `trio.ClosedResourceError`, which it does not catch. The receiving end is open as long as the
handler runs, so there is no `trio.BrokenResourceError`. -/
def push_frame (c : Conn) (frame : Bytes) : Option Conn :=
  if c.send_closed then none
  else
    let item := (c.made, frame)
    let c := { c with made := c.made + 1 }
    some ((c.send_nowait item).getD { c with cancelled := true })

/-- `idle_event.clear()` and `send_channel.send(reply)`. -/
def queueReply (c : Conn) (reply : Frame) (requests : List Value) : Conn :=
  let c := { c with idle_event := false }
  match c.send_nowait reply with
  | some c => { c with reader := .yielding requests }
  | none => { c with reader := .queueing reply requests }

/-- `_locked_send` of direct replies, up to its first await. A task that is cancelled writes nothing. -/
def _locked_send (c : Conn) (direct : List Frame) (reply : Option Frame) (requests : List Value) : Conn :=
  if c.send_lock = none ∧ c.cancelled = false then
    { c with send_lock := some .reader, stream := c.stream ++ direct, reader := .sending reply requests }
  else { c with reader := .waiting .lock direct reply requests }

/-- `_direct_send`, up to its first await. -/
def _direct_send (c : Conn) (direct : List Frame) (reply : Option Frame) (requests : List Value) : Conn :=
  if c.idle_event then c._locked_send direct reply requests
  else { c with reader := .waiting .idle direct reply requests }

/-- The loop body after `dispatch`. -/
def reply (c : Conn) (requests : List Value) (direct : List Frame) (subscribed : Bool) (frame : Bytes) : Conn :=
  let item := (c.made, frame)
  let c := { c with made := c.made + 1 }
  if subscribed then
    if direct = [] then c.queueReply item requests else c._direct_send direct (some item) requests
  else { c with reader := .working requests (direct ++ [item]) }

/-- What follows a write of the writer: `receive_nowait`, which lets a blocked `send` into the buffer. -/
def receive_nowait (c : Conn) : Conn :=
  match c.queue with
  | [] => if c.send_closed then { c with writer := .ended } else { c with idle_event := true, writer := .receiving }
  | item :: queue =>
    match c.reader with
    | .queueing reply requests => { c with writer := .holding item, queue := queue ++ [reply], reader := .yielding requests }
    | _ => { c with writer := .holding item, queue }

/-- The read task is between two awaits, so no other task runs. -/
def busy (c : Conn) : Bool :=
  match c.reader with
  | .working .. => true
  | _ => false

/-- The error line of a protocol error. -/
def errorLine (text : Text) : Bytes := bs "-ERR Protocol error: " ++ text ++ SYM_CRLF

/-- One action of the read task; `none` when it cannot happen. -/
def read (c : Conn) (act : ReadAct) : Option Conn :=
  match c.reader, act with
  | .receiving, .chunk requests => some { c with reader := .working requests [] }
  | .receiving, .garbage text =>
    some { c with send_closed := true, made := c.made + 1, reader := .draining (c.made, errorLine text) }
  | .receiving, .eof => some { c with reader := .returned }
  | .working (_ :: requests) direct, .request outcome => (outcome.pushed.foldlM push_frame c).map fun c =>
    match outcome.reply with
    | none => { c with reader := .working requests direct }
    | some frame => c.reply requests direct outcome.subscribed frame
  | .working (_ :: _) _, .crash => some { c with cancelled := true, reader := .returned }
  | .working [] direct, .flush =>
    some (if direct = [] then { c with reader := .receiving } else c._direct_send direct none [])
  | .waiting .idle direct reply requests, .wake => if c.idle_event then some (c._locked_send direct reply requests) else none
  | .waiting .lock direct reply requests, .acquire =>
    if c.send_lock = none ∧ c.cancelled = false then some (c._locked_send direct reply requests) else none
  | .sending reply requests, .sent =>
    let c := { c with send_lock := none }
    match reply with
    | none => some { c with reader := .receiving }
    | some reply => some (c.queueReply reply requests)
  | .sending .., .broken => some { c with send_lock := none, reader := .returned }
  | .yielding requests, .resume => some { c with reader := .working requests [] }
  | _, _ => none

/-- One action of the writer. -/
def write (c : Conn) (act : WriteAct) : Option Conn :=
  match c.writer, act with
  | .holding item, .acquire =>
    if c.send_lock = none ∧ c.cancelled = false then
      some { c with send_lock := some .writer, stream := c.stream ++ [item], writer := .sending }
    else none
  | .sending, .sent => some { c with send_lock := none }.receive_nowait
  | .sending, .broken => some { c with send_lock := none, writer := .ended }
  | .receiving, .close => if c.send_closed then some { c with writer := .ended } else none
  | _, _ => none

/-- A cancellation ends both tasks; a read task that is through its loop has only the nursery to leave. -/
def cancel (c : Conn) : Option Conn :=
  if c.cancelled then
    match c.reader with
    | .finished => none
    | .draining _ => some { c with send_lock := none, writer := .ended }
    | _ => some { c with send_lock := none, writer := .ended, reader := .returned }
  else none

/-- The nursery is left once the writer has ended. The error line is written after it. -/
def teardown (c : Conn) : Option Conn :=
  match c.reader, c.writer with
  | .returned, .ended => some { c with send_closed := true, reader := .finished }
  | .draining error_line, .ended => some { c with stream := c.stream ++ [error_line], reader := .finished }
  | _, _ => none

/-- One action of a connection. -/
def step (c : Conn) : Act → Option Conn
  | .read act => c.read act
  | .write act => if c.busy then none else c.write act
  | .push frame => if c.busy then none else c.push_frame frame
  | .cancel => if c.busy then none else c.cancel
  | .teardown => c.teardown

end Conn

/-! ## Publishing -/

/-- The hub and the connections of the backend. A connection that was not accepted yet is like one that has sent nothing. -/
structure Backend where
  hub : PubSubHub
  conns : SessionId → Conn

namespace Backend

/-- Nobody is subscribed. -/
def init : Backend := ⟨.init, fun _ => .opened⟩

/-- Change one connection. -/
def update (b : Backend) (i : SessionId) (c : Conn) : Backend := { b with conns := Function.update b.conns i c }

end Backend

/-- A program that publishes; its exception is the one a sender raised, or a pattern or a frame that cannot be built. -/
abbrev P (α : Type) := Prog Env Backend Unit α

/-- `session.deliver(frame)`: once the handler is through, `session.sender` is `None`, and nothing is sent. -/
def Conn.deliver (c : Conn) (frame : Bytes) : Option Conn :=
  match c.reader with
  | .finished => some c
  | _ => c.push_frame frame

/-- The same for the connection of a session. -/
def deliver (i : SessionId) (frame : Bytes) : P Unit := fun _ b =>
  match (b.conns i).deliver frame with
  | some c => (.ok (), b.update i c)
  | none => (.error (), b)

/-- The value of a computation that may raise. -/
def orRaise {α : Type} : Option α → P α
  | some a => pure a
  | none => Prog.raise ()

/-- `compile_glob(pattern)`. -/
def compile_glob : Value → P (Bytes → Bool)
  | .bytes p => do orRaise ((← Prog.ask).glob p)
  | _ => Prog.raise ()

/-- `PubSubHub.publish`. -/
def publish (channel payload : Bytes) : P Nat := do
  let hub := (← Prog.get).hub
  let subscribers := ((hub.channels.get (.bytes channel)).map OrdSet.elems).getD []
  Prog.each (fun i => do deliver i (← orRaise (build_message (.bytes channel) (.bytes payload)))) subscribers
  Prog.fold (fun receivers p => do
    let matcher ← compile_glob p.1
    if matcher channel then
      let frame ← orRaise (build_pmessage p.1 (.bytes channel) (.bytes payload))
      Prog.each (fun i => deliver i frame) p.2.elems
      return receivers + p.2.elems.length
    else return receivers) subscribers.length hub.patterns.entries

/-- What happens to the backend: a connection takes a step, its read task changes a subscription, or a command publishes. -/
inductive Event where
  | conn (i : SessionId) (act : Act)
  | subscribe (i : SessionId) (topic : Topic) (name : Bytes)
  | unsubscribe (i : SessionId) (topic : Topic) (name : Bytes)
  | publish (channel payload : Bytes)

/-- One event. The `finally` takes the session out of the hub. -/
def Backend.step (env : Env) (b : Backend) : Event → Option Backend
  | .conn i .teardown => (b.conns i).teardown.map fun c => { b.update i c with hub := b.hub.remove_session i }
  | .conn i act => ((b.conns i).step act).map (b.update i)
  | .subscribe i topic name => if (b.conns i).busy then some { b with hub := b.hub.subscribe topic i (.bytes name) } else none
  | .unsubscribe i topic name => if (b.conns i).busy then some { b with hub := b.hub.unsubscribe topic i (.bytes name) } else none
  | .publish channel payload => some (publish channel payload env b).2

/-! ## Dispatch -/

variable {F : Type} [PyFloat F]

/-- What dispatching a message does to its connection; `none` when it raises. -/
def outcome (env : Env) (clock : Clock) (i : SessionId) (message : Value) (s : Server F) : Option Outcome × Server F :=
  match dispatch message (some i) (env, clock) s with
  | (.ok reply, t) => (some ⟨(t.sessions i).wire.drop (s.sessions i).wire.length, reply, t.subscribed (some i)⟩, t)
  | (.error (), t) => (none, t)

/-- The same for messages that are dispatched one after the other; `none` when one raises. -/
def outcomes (env : Env) (clock : Clock) (i : SessionId) : List Value → Server F → Option (List Outcome)
  | [], _ => some []
  | message :: messages, s =>
    match outcome env clock i message s with
    | (some o, t) => (outcomes env clock i messages t).map (o :: ·)
    | (none, _) => none

end Kagni.Trio
