import Kagni.Glob
import Kagni.Keyspace

/-!
# Which events are published

A command that changes a key publishes an event, if the notifications are on for events of its class. To publish is to compile
every pattern that somebody is subscribed to, and a pattern that does not compile is an exception in the command. An expired
key is purged, and its event published, by the command that looks at it.
-/

namespace Kagni

open Lib

/-- The notifications are on for the event: for its class, and on one of the two channels. -/
def Ctx.Publishes (ctx : Ctx) (event : Event) : Prop :=
  (65 ∈ ctx.flags ∨ event.class_ ∈ ctx.flags) ∧ (75 ∈ ctx.flags ∨ 69 ∈ ctx.flags)

/-- Every pattern that somebody is subscribed to compiles. -/
def PubSubHub.Compiles (hub : PubSubHub) (env : Env) : Prop :=
  ∀ p ∈ hub.patterns.entries, ∃ b, p.1 = .bytes b ∧ (env.glob b).isSome = true

/-- The same of the subscriptions that a command sees. -/
def Ctx.PatternsCompile (ctx : Ctx) : Prop := ctx.hub.Compiles ctx.env

/-- The event raises nothing: the notifications are off for it, or every subscribed pattern compiles. -/
def Ctx.EventReturns (ctx : Ctx) (event : Event) : Prop := ctx.Publishes event → ctx.PatternsCompile

open Classical in
/-- What publishing the event ends with. -/
noncomputable def Ctx.emits (ctx : Ctx) (event : Event) : Except (Exc Errors) Unit :=
  if ctx.EventReturns event then .ok () else .error .other

/-- A change can be told: its event raises nothing, nor does that of the end of the key if the key is gone. -/
def Ctx.Tells (ctx : Ctx) (event : Event) (gone : Prop) : Prop := ctx.EventReturns event ∧ (gone → ctx.EventReturns .del)

/-- No event raises anything. -/
def Ctx.Quiet (ctx : Ctx) : Prop := ∀ event, ctx.EventReturns event

/-- A look at the key raises nothing: it holds no expired entry that waits for its purge, or the purge can be published. -/
def Ctx.Opens {F : Type} (ctx : Ctx) (k : KState F) (key : Bytes) : Prop :=
  ∀ e, k.store.storage.get (.bytes key) = some e → e.live ctx.clock.mono = false → ctx.EventReturns .expired

/-! ## Two servers -/

/-- A clock at 0, and no notifications. -/
def Ctx.plain : Ctx := ⟨Env.plain, ⟨0, 0⟩, ⟨∅, ∅⟩, [], 0⟩

/-- A range whose ends are in order as characters and not as the bytes that are compiled: `re` refuses it. -/
def backwardRange : Bytes := bs "[" ++ [255, 45, 238, 128, 128] ++ bs "]"

/-- Every event is published, and that pattern has a subscriber. -/
def Ctx.jammed : Ctx :=
  ⟨{ Env.plain with glob := Glob.fnmatchGlob }, ⟨0, 0⟩, ⟨∅, Dict.set ∅ (.bytes backwardRange) (OrdSet.ofList [0])⟩, bs "KEA", 0⟩

end Kagni
