import Kagni.Lemmas.Drain
import Kagni.Lemmas.ZsetRuns

/-!
# Commands that finish or leave nothing behind

A command first reads: it looks keys up, parses and checks, and may raise. Then it writes, and from its first write on it
raises only if an event cannot be published, or if what it found in the store is not what the commands put there. While it
writes, a key that it changes in place keeps its deadline: the entry stays, and a new one is stored only where there was no
value.
-/

namespace Kagni

open Lib Lib.Prog

/-- What the commands ask of floats beyond their order: zero is a number, and zero added to a finite one is finite. -/
structure PyFloat.Sound (F : Type) [PyFloat F] : Prop where
  ordered : Nonempty (PyFloat.Ordered F)
  zero : PyFloat.isNaN (PyFloat.zero : F) = false
  add_zero : ∀ x : F, isfinite x = true → isfinite (PyFloat.add PyFloat.zero x) = true

theorem PyFloat.sound_int : PyFloat.Sound Int := ⟨⟨inferInstance⟩, rfl, fun _ _ => rfl⟩

/-- The reply can be sent: there is no `None` in it. -/
def Reply.Encodes (r : Reply) : Prop := (protocolBuilder r).isSome = true

variable {F : Type} [PyFloat F]

/-- A sorted set is in order. -/
def Obj.InOrder : Obj F → Prop
  | .zset z => z.Valid
  | _ => True

/-- Every sorted set of the store is in order. -/
def Store.InOrder (s : Store F) : Prop := ∀ p ∈ s.storage.entries, p.2.value.InOrder

/-- A command under observation: the content of the store when it starts, and the keys whose deadline it may change. It is
calm when nothing keeps it from finishing what it has begun to write: events are published without an exception, and the store
holds what the commands store. -/
structure Watch (F : Type) [PyFloat F] where
  ctx : Ctx
  start : Content F
  free : Set Value
  calm : Prop
  events : calm → ctx.Quiet
  floats : calm → PyFloat.Sound F
  typed : calm → ∀ key v, start.value key = some v → (Discipline.collections ctx.clock).obj v
  inOrder : calm → ∀ key v, start.value key = some v → v.InOrder

namespace Watch

variable (w : Watch F) {α : Type}

/-- Nothing has been written yet. -/
def At (k : KState F) : Prop := k.store.content w.ctx.clock.mono = w.start ∧ (w.calm → k.store.InOrder)

/-- A deadline a key may have: the one it had, or none where there was no value. -/
def Fits (key : Value) (t : Option Int) : Prop :=
  key ∈ w.free ∨ (∃ e₀, w.start.lookup key = some e₀ ∧ t = e₀.expires_at) ∨ (w.start.value key = none ∧ t = none)

/-- Every key has such a deadline. -/
def Kept (k : KState F) : Prop := ∀ key e, (k.store.content w.ctx.clock.mono).lookup key = some e → w.Fits key e.expires_at

/-- Something may have been written. -/
def Done (k : KState F) : Prop := w.Kept k ∧ (w.calm → k.store.InOrder)

/-- The program writes nothing. -/
def Reads (m : K F α) (Q : α → Prop) : Prop := Keeps w.ctx w.At m Q

/-- The program writes, and does not raise when the command is calm. -/
def Commits (m : K F α) (Q : α → Prop) : Prop :=
  Triple w.ctx w.Done m (fun a k => w.Done k ∧ Q a) fun _ k => w.Done k ∧ ¬w.calm

/-- The program writes, and may raise in the middle. -/
def Writes (m : K F α) (Q : α → Prop) : Prop := Triple w.ctx w.Done m (fun a k => w.Done k ∧ Q a) fun _ => w.Done

/-- The command ends, whatever it has written. -/
def Ends (m : K F α) : Prop := Triple w.ctx w.At m (fun _ => w.Done) fun _ => w.Done

/-- The program raises before it writes, when the command is calm. -/
def Atomic (m : K F α) (Q : α → Prop) : Prop :=
  Triple w.ctx w.At m (fun a k => w.Done k ∧ Q a) fun _ k => w.Done k ∧ (w.calm → w.At k)

/-- The reply of a calm command can be sent. -/
def Answers (r : Reply) : Prop := w.calm → r.Encodes

/-- The command is atomic for the client: when it is calm and nothing was raised, its reply can be sent or nothing was written. -/
def Finishes (m : K F Reply) : Prop :=
  Triple w.ctx w.At m (fun r k => w.Done k ∧ (w.calm → r.Encodes ∨ w.At k)) fun _ k => w.Done k ∧ (w.calm → w.At k)

end Watch

end Kagni
