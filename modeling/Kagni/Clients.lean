import Kagni.Footprint
import Kagni.Lemmas.Runs
import Kagni.Lib.Unwinding

/-!
# Clients beside each other

Messages arrive one after the other, each at its instant, and the dumper wakes up and commits in between. What a client sees
of a run are the answers to its messages and the frames pushed to its session. Which random choices are made for a message is
up to the outside world, so every message comes with those made for it.
-/

namespace Kagni

open Lib

variable {F : Type}

/-- What arrives at an instant: a message of a connection, or of none, with the place from which the random choices for it are
drawn; or the news that a connection is lost. -/
inductive Arrival where
  | message (now : Clock) (seed : Nat) (state : Option SessionId) (message : Value)
  | lost (now : Clock) (session : SessionId)

namespace Arrival

/-- The instant, on the monotonic clock. -/
def time : Arrival → Int
  | .message now _ _ _ => now.mono
  | .lost now _ => now.mono

/-- The connection it comes from, if any. -/
def state : Arrival → Option SessionId
  | .message _ _ state _ => state
  | .lost _ session => some session

/-- A request that satisfies `Q`, or no request. -/
def Requests (Q : Request → Prop) : Arrival → Prop
  | .message _ _ _ m => m.Requests Q
  | .lost _ _ => True

theorem requests_of {Q : Request → Prop} {now : Clock} {seed : Nat} {state : Option SessionId} {command : Bytes}
    {args : List Value}
    (h : Q ⟨command, args⟩) : (message now seed state (.array (.bytes command :: args))).Requests Q := h

end Arrival

/-- What happens to a server: something arrives, the dumper wakes up and takes its snapshot, or a dump is committed. -/
inductive Happening (F : Type) where
  | arrival (a : Arrival)
  | wake (now : Clock)
  | commit (now : Clock) (snapshot : Snapshot F) (epoch : Nat)

namespace Happening

def time : Happening F → Int
  | .arrival a => a.time
  | .wake now => now.mono
  | .commit now _ _ => now.mono

/-- Whether it comes from a client. -/
def fromClient : Happening F → Bool
  | .arrival _ => true
  | _ => false

/-- A request that satisfies `Q`, or no request. -/
def Requests (Q : Request → Prop) : Happening F → Prop
  | .arrival a => a.Requests Q
  | _ => True

theorem requests_of {Q : Request → Prop} {a : Arrival} (h : a.Requests Q) : (arrival a : Happening F).Requests Q := h

end Happening

/-- The keys a command is about: those it looks up, opens, replaces or creates. -/
def Cmd.keys (c : Cmd) (args : List Value) : List Value := c.looked args ++ c.opened args ++ c.replaced args ++ c.created args

/-- The commands that change the subscriptions, publish, or ask for either. -/
def pubSubCommands : List Cmd := [.SUBSCRIBE, .UNSUBSCRIBE, .PSUBSCRIBE, .PUNSUBSCRIBE, .PUBLISH, .PUBSUB]

namespace Request

/-- If the request names a command, the command and its arguments satisfy `P`. -/
def Runs (P : Cmd → List Value → Prop) (q : Request) : Prop := ∀ c, Cmd.ofName q.name = some c → P c q.args

theorem runs_of {P : Cmd → List Value → Prop} {q : Request} {c : Cmd} (hc : Cmd.ofName q.name = some c) (h : P c q.args) :
    q.Runs P :=
  fun _ hc' => Option.some.inj (hc.symm.trans hc') ▸ h

/-- It does not name a command. -/
theorem runs_of_none {P : Cmd → List Value → Prop} {q : Request} (hq : Cmd.ofName q.name = none) : q.Runs P := fun c hc => by
  rw [hq] at hc
  cases hc

/-- It is about the keys `K` and nothing else: not the keyspace as a whole, nor the subscriptions, nor the configuration, nor
WATCH. -/
def Within (K : Set Value) : Request → Prop := Runs fun c args =>
  c.scans = false ∧ c ∉ [.WATCH, .CONFIG, .FLUSHDB, .FLUSHALL] ∧ c ∉ pubSubCommands ∧ ∀ key ∈ c.keys args, key ∈ K

/-- It is not about the keys `K`, and does not flush or configure. -/
def Beyond (K : Set Value) : Request → Prop :=
  Runs fun c args => c ∉ [.CONFIG, .FLUSHDB, .FLUSHALL] ∧ ∀ key ∈ c.keys args, key ∉ K

/-- It has nothing to do with subscriptions or the configuration. -/
def Aloof : Request → Prop := Runs fun c _ => c ∉ pubSubCommands ∧ c ≠ .CONFIG

/-- It has to do with subscriptions only, or is a PING. -/
def Listens : Request → Prop := Runs fun c _ => c ∈ pubSubCommands ∨ c = .PING

/-- It does not look at every key, and does not configure. -/
def Pointed : Request → Prop := Runs fun c _ => c.scans = false ∧ c ≠ .CONFIG

end Request

namespace Server

variable [PyFloat F]

/-- The answer to what arrives, and the server after it; an exception that escapes is an error. -/
def receive (env : Env) (s : Server F) : Arrival → Except Unit (Option Bytes) × Server F
  | .message now seed state message => dispatch message state (env, now) { s with draws := seed }
  | .lost _ session => (.ok none, s.step env (.lost session))

/-- What happens, with the answer, and the server after it. -/
def undergo (env : Env) (s : Server F) : Happening F → Except Unit (Option Bytes) × Server F
  | .arrival a => s.receive env a
  | .wake now => (.ok none, (liftK snapshot (env, now) s).2)
  | .commit _ snapshot epoch => (.ok none, { s with table := s.table.map fun t => DB.dump t snapshot s.data.epoch epoch })

end Server

end Kagni
