import Kagni.Dispatch
import Kagni.Lib.Trace

/-!
# Connections of the asyncio backend

`RedisServerProtocol` is called by the event loop: with a chunk of the stream, when its timer fires, when the connection is
over. Each call runs to its end before the next. It writes to its transport, which hands to the socket what the socket takes
and keeps the rest; when too much of it is kept, reading is paused, and a timer looks every tenth of a second whether it may
be resumed.

How much the socket takes of what is written is up to the peer: the n-th time something is handed to the socket of a
connection, it takes `kernel i n` bytes, or breaks.
-/

namespace Kagni.Asyncio

open Lib

/-- `HIGH_WATER`. -/
def HIGH_WATER : Nat := 2 ^ 20

/-- `LOW_WATER`. -/
def LOW_WATER : Nat := HIGH_WATER / 2

/-- `PUBSUB_LIMIT`. -/
def PUBSUB_LIMIT : Nat := 32 * 2 ^ 20

/-! ## The transport -/

/-- The transport of asyncio: what it keeps, whether it reads, and whether it is closing or its connection is over. What the
socket took, and how often it was tried, the program does not see. -/
structure Transport where
  buffer : Bytes
  sent : Bytes
  paused : Bool
  closing : Bool
  lost : Bool
  attempts : Nat

namespace Transport

/-- The transport of an accepted connection. -/
def opened : Transport := ⟨[], [], false, false, false, 0⟩

/-- `get_write_buffer_size`. -/
def get_write_buffer_size (t : Transport) : Nat := t.buffer.length

/-- `is_reading`. -/
def is_reading (t : Transport) : Bool := !t.closing && !t.paused

/-- `_force_close`, which follows a fatal error: what is kept is dropped. -/
def _force_close (t : Transport) : Transport := if t.lost then t else { t with buffer := [], closing := true, lost := true }

/-- `close`: what is kept is still sent, and the connection is over then. -/
def close (t : Transport) : Transport := if t.closing then t else { t with closing := true, lost := decide (t.buffer = []) }

/-- `write`: when nothing is kept the socket is tried at once. -/
def write (kernel : Nat → Option Nat) (t : Transport) (data : Bytes) : Transport :=
  if data = [] ∨ t.lost then t
  else if t.buffer ≠ [] then { t with buffer := t.buffer ++ data }
  else match kernel t.attempts with
    | some n => { t with sent := t.sent ++ data.take n, buffer := data.drop n, attempts := t.attempts + 1 }
    | none => { t with attempts := t.attempts + 1 }._force_close

/-- `pause_reading`. -/
def pause_reading (t : Transport) : Transport := if t.is_reading then { t with paused := true } else t

/-- `resume_reading`. -/
def resume_reading (t : Transport) : Transport := if t.closing || !t.paused then t else { t with paused := false }

/-- `_write_ready`: the socket takes something of what is kept. -/
def _write_ready (kernel : Nat → Option Nat) (t : Transport) : Transport :=
  match kernel t.attempts with
  | some n => { t with sent := t.sent ++ t.buffer.take n, buffer := t.buffer.drop n, attempts := t.attempts + 1 }
  | none => { t with attempts := t.attempts + 1 }._force_close

/-- A closing transport that has sent everything calls `connection_lost` at once, the others are called back later. -/
def finished (t : Transport) : Bool := t.closing && decide (t.buffer = []) && !t.lost

end Transport

/-! ## The protocol -/

/-- `RedisServerProtocol`, without its parser. `burst` is how much its last `data_received` has written; the program does not
see it. -/
structure Conn where
  _transport : Option Transport
  _write_paused : Bool
  _resume_handle : Bool
  burst : Nat

namespace Conn

/-- After `connection_made`. -/
def opened : Conn := ⟨some .opened, false, false, 0⟩

/-- Change the transport. -/
def withTransport (c : Conn) (f : Transport → Transport) : Conn := { c with _transport := c._transport.map f }

/-- `self._transport.write(reply)`, in `data_received`. -/
def write (kernel : Nat → Option Nat) (c : Conn) (frame : Bytes) : Conn :=
  { c.withTransport (·.write kernel frame) with burst := c.burst + frame.length }

/-- `_push_frame`. -/
def _push_frame (kernel : Nat → Option Nat) (c : Conn) (frame : Bytes) : Conn :=
  c.withTransport fun t =>
    let t := t.write kernel frame
    if t.get_write_buffer_size > PUBSUB_LIMIT then t.close else t

/-- `_maybe_pause_reading`. -/
def _maybe_pause_reading (c : Conn) : Conn :=
  match c._transport with
  | none => c
  | some transport =>
    if c._write_paused ∨ transport.get_write_buffer_size ≤ HIGH_WATER then c
    else { c with _write_paused := true, _transport := some transport.pause_reading, _resume_handle := true }

/-- `_maybe_resume_reading`. -/
def _maybe_resume_reading (c : Conn) : Conn :=
  match c._transport with
  | none => { c with _resume_handle := false, _write_paused := false }
  | some transport =>
    if transport.get_write_buffer_size < LOW_WATER then
      { c with _resume_handle := false, _write_paused := false, _transport := some transport.resume_reading }
    else { c with _resume_handle := true }

/-- `connection_lost`, without the hub. -/
def connection_lost (c : Conn) : Conn := { c with _resume_handle := false, _transport := none }

end Conn

/-! ## The backend -/

/-- The server, and the connections. One that was not accepted yet is like one that has sent nothing. -/
structure Backend (F : Type) where
  server : Server F
  conns : SessionId → Conn

/-- What the parser makes of a chunk: requests, a `ProtocolError`, or another exception. -/
inductive Parsed where
  | requests (messages : List Value)
  | garbage (text : Text)
  | crash

/-- What the event loop calls: `data_received`, at the instants `now` of its dispatches; the timer; and the transport's own
callbacks, when the socket can take more, when the peer has closed, when reading fails, and `connection_lost`. -/
inductive Event where
  | data_received (i : SessionId) (data : Parsed) (now : Nat → Clock)
  | timer (i : SessionId)
  | writable (i : SessionId)
  | eof (i : SessionId)
  | broken (i : SessionId)
  | connection_lost (i : SessionId)

/-- The line that answers a protocol error. -/
def errorLine (text : Text) : Bytes := bs "-ERR Protocol error: " ++ text ++ SYM_CRLF

variable {F : Type}

/-- The frames pushed to a session between two states of the server. -/
def newFrames (s s' : Server F) (i : SessionId) : List Bytes := (s'.sessions i).wire.drop (s.sessions i).wire.length

namespace Backend

/-- A backend that has just started. -/
def init (port : Nat) (table : Option (Table F)) (storage : Dict Value (Entry F)) : Backend F :=
  ⟨.init port table storage fun _ => true, fun _ => .opened⟩

/-- Change one connection. -/
def update (b : Backend F) (i : SessionId) (f : Conn → Conn) : Backend F :=
  { b with conns := Function.update b.conns i (f (b.conns i)) }

/-- The server goes on, and what it pushes goes out to the connections. -/
def advance (kernel : SessionId → Nat → Option Nat) (b : Backend F) (server : Server F) : Backend F :=
  { server, conns := fun j => (newFrames b.server server j).foldl (Conn._push_frame (kernel j)) (b.conns j) }

/-- `connection_lost`. -/
def connection_lost (env : Env) (b : Backend F) [PyFloat F] (i : SessionId) : Backend F :=
  { b.update i Conn.connection_lost with server := b.server.step env (.lost i) }

variable [PyFloat F] (env : Env) (kernel : SessionId → Nat → Option Nat)

/-- The loop of `data_received` over the requests of a chunk, and whether it comes to its end. -/
def serve (i : SessionId) : (now : Nat → Clock) → List Value → Backend F → Bool × Backend F
  | _, [], b => (true, b)
  | now, request :: requests, b =>
    let reply := dispatch request (some i) (env, now 0) b.server
    let b := b.advance kernel reply.2
    match reply.1 with
    | .error _ => (false, b)
    | .ok none => serve i (fun n => now (n + 1)) requests b
    | .ok (some frame) => serve i (fun n => now (n + 1)) requests (b.update i (·.write (kernel i) frame))

/-- `data_received`. An exception that escapes is a fatal error of the transport. -/
def data_received (i : SessionId) (data : Parsed) (now : Nat → Clock) (b : Backend F) : Backend F :=
  let b := b.update i fun c => { c with burst := 0 }
  match data with
  | .requests messages =>
    let (done, b) := b.serve env kernel i now messages
    if done then b.update i Conn._maybe_pause_reading else b.update i (·.withTransport Transport._force_close)
  | .garbage text =>
    b.update i fun c => ((c.write (kernel i) (errorLine text)).withTransport Transport.close)._maybe_pause_reading
  | .crash => b.update i (·.withTransport Transport._force_close)

/-- One call of the event loop; `none` when it cannot happen. -/
def step (b : Backend F) : Event → Option (Backend F)
  | .data_received i data now =>
    (b.conns i)._transport.bind fun t => if t.is_reading then some (b.data_received env kernel i data now) else none
  | .timer i => if (b.conns i)._resume_handle then some (b.update i Conn._maybe_resume_reading) else none
  | .writable i => (b.conns i)._transport.bind fun t =>
    if t.buffer ≠ [] then
      let b := b.update i (·.withTransport (·._write_ready (kernel i)))
      some (if (t._write_ready (kernel i)).finished then b.connection_lost env i else b)
    else none
  | .eof i =>
    (b.conns i)._transport.bind fun t => if t.is_reading then some (b.update i (·.withTransport Transport.close)) else none
  | .broken i =>
    (b.conns i)._transport.bind fun t => if t.is_reading then some (b.update i (·.withTransport Transport._force_close))
    else none
  | .connection_lost i => (b.conns i)._transport.bind fun t => if t.lost then some (b.connection_lost env i) else none

end Backend

end Kagni.Asyncio
