import Kagni.Dispatch

/-!
# Subscriptions

What the subscribe family does, without its replies: the names a session holds and the tables of the hub are a state of their own,
which only SUBSCRIBE, UNSUBSCRIBE, PSUBSCRIBE and PUNSUBSCRIBE change. So what the session is subscribed to after some of the
commands of a transaction can be said from the commands and from the subscriptions before them.
-/

namespace Kagni

open Lib

/-- The names one session is subscribed to, and the tables of the hub. -/
structure Subs where
  names : Topic → OrdSet Value
  hub : PubSubHub

/-- The message has a null in it, so that it cannot be encoded. -/
def Value.Unencodable (v : Value) : Prop := protocolBuilder (.ofValue v) = none

instance (v : Value) : Decidable v.Unencodable := inferInstanceAs (Decidable (_ = _))

namespace Subs

/-- Change the names of one topic. -/
def withNames (p : Subs) (f : OrdSet Value → OrdSet Value) (topic : Topic) : Subs :=
  { p with names := Function.update p.names topic (f (p.names topic)) }

/-- Whether the session holds a subscription. -/
def subscribed (p : Subs) : Bool := (p.names .channels).elems ≠ [] ∨ (p.names .patterns).elems ≠ []

/-- One subscription more. -/
def add (topic : Topic) (session : SessionId) (p : Subs) (name : Value) : Subs :=
  { p.withNames (·.insert name) topic with hub := p.hub.subscribe topic session name }

/-- One subscription less. -/
def drop (topic : Topic) (session : SessionId) (p : Subs) (name : Value) : Subs :=
  { p.withNames (·.erase name) topic with hub := p.hub.unsubscribe topic session name }

/-- Change one name after the other. A name without a hash ends it before the change, a name that cannot be confirmed after it. -/
def forNames (change : Subs → Value → Subs) : List Value → Subs → Subs
  | [], p => p
  | name :: names, p =>
    if !name.hashable then p
    else if name.Unencodable then change p name
    else forNames change names (change p name)

/-- The names UNSUBSCRIBE and PUNSUBSCRIBE give up: without arguments all of them. -/
def wanted (topic : Topic) (args : List Value) (p : Subs) : List Value :=
  match args with
  | [] => (sorted (p.names topic).elems).getD []
  | _ => args

/-- The subscriptions after a command of the session. -/
def after (session : SessionId) (q : Request) (p : Subs) : Subs :=
  match Cmd.ofName q.name with
  | some .SUBSCRIBE => forNames (add .channels session) q.args p
  | some .PSUBSCRIBE => forNames (add .patterns session) q.args p
  | some .UNSUBSCRIBE => forNames (drop .channels session) (wanted .channels q.args p) p
  | some .PUNSUBSCRIBE => forNames (drop .patterns session) (wanted .patterns q.args p) p
  | _ => p

end Subs

/-- The subscriptions of a session. -/
def Server.subs {F : Type} (s : Server F) (session : SessionId) : Subs := ⟨(s.sessions session).names, s.hub⟩

end Kagni
