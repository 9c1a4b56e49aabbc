import Kagni.Dispatch

/-!
# Publish and subscribe

The sessions and the hub seen as a system of its own: sessions send requests, methods are called for them, and connections are
lost. A session whose connection is lost sends nothing more.
-/

namespace Kagni

open Lib

namespace PubSubHub

/-- `_channels` or `_patterns`. -/
def table (hub : PubSubHub) : Topic → Dict Value (OrdSet SessionId)
  | .channels => hub.channels
  | .patterns => hub.patterns

/-- The subscribers of a name. -/
def subscribers (hub : PubSubHub) (topic : Topic) (name : Value) : OrdSet SessionId := ((hub.table topic).get name).getD ∅

end PubSubHub

/-- Whether a stored pattern matches the channel. -/
def Value.globs (glob : Bytes → Bytes → Bool) (channel : Bytes) : Value → Bool
  | .bytes pattern => glob pattern channel
  | _ => false

/-- Those of the frames that go to one session. -/
def framesFor (session : SessionId) (frames : List (SessionId × Bytes)) : List Bytes :=
  (frames.filter fun p => decide (p.1 = session)).map Prod.snd

/-- What happens: a request of byte strings is dispatched, a method is called on byte strings for a session or for none, or a
connection is lost. -/
inductive PubSubAction where
  | request (clock : Clock) (state : Option SessionId) (words : List Bytes)
  | call (clock : Clock) (state : Option SessionId) (command : Cmd) (args : List Bytes)
  | lost (session : SessionId)

/-- The server, and the sessions whose connection is lost. -/
structure PubSub (F : Type) where
  server : Server F
  gone : List SessionId

/-- The session after one subscription more. -/
def Session.subscribe (topic : Topic) (st : Session) (name : Value) : Session := st.withNames (·.insert name) topic

/-- The session after one subscription less. -/
def Session.unsubscribe (topic : Topic) (st : Session) (name : Value) : Session := st.withNames (·.erase name) topic

/-- The session goes through the names: each changes its subscriptions and is confirmed at once, with the number of channels and
patterns the session is then subscribed to. -/
inductive Confirmed (kind : Bytes) (change : Session → Value → Session) : Session → List Value → Session → Prop where
  | nil (st : Session) : Confirmed kind change st [] st
  | cons {st st' : Session} {name : Value} {names : List Value} {frame : Bytes}
    (hframe : protocolBuilder (.list [.bytes kind, .ofValue name,
      .int ((change st name).channels.card + (change st name).patterns.card : Nat)]) = some frame)
    (hrest : Confirmed kind change ((change st name).deliver frame) names st') : Confirmed kind change st (name :: names) st'

variable {F : Type} [PyFloat F]

namespace PubSub

/-- The session may act. -/
def Connected (p : PubSub F) (state : Option SessionId) : Prop := ∀ i, state = some i → i ∉ p.gone

instance (p : PubSub F) (state : Option SessionId) : Decidable (p.Connected state) :=
  match state with
  | none => isTrue nofun
  | some i => decidable_of_iff (i ∉ p.gone) ⟨fun h _ e => Option.some.inj e ▸ h, fun h => h i rfl⟩

/-- One action. -/
def step (env : Env) (p : PubSub F) : PubSubAction → PubSub F
  | .request clock state words =>
    if p.Connected state then { p with server := p.server.step env (.request clock state (.array (words.map .bytes))) } else p
  | .call clock state command args =>
    if p.Connected state then
      { p with server := (runHandler (handler command) state (args.map .bytes) (env, clock) p.server).2 }
    else p
  | .lost session => ⟨p.server.step env (.lost session), session :: p.gone⟩

/-- A run from a fresh server. -/
def run (env : Env) (port : Nat) (table : Option (Table F)) (storage : Dict Value (Entry F)) (wired : SessionId → Bool)
    (actions : List PubSubAction) : PubSub F :=
  actions.foldl (step env) ⟨.init port table storage wired, []⟩

end PubSub

end Kagni
