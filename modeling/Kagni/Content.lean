import Kagni.Events
import Kagni.Expiry

/-!
# Commands as steps on the content

What a command does, said of the map of live entries: from every store with a content the command ends alike, and leaves
stores with one content. An expired entry that is purged on the way does not count, as long as its purge raises nothing.
-/

namespace Kagni

open Lib

variable {F : Type}

/-- The state has the content `s`, and a look at a key of `ks` raises nothing. -/
structure Shows (ctx : Ctx) (ks : Set Bytes) (s : Content F) (k : KState F) : Prop where
  content : k.store.content ctx.clock.mono = s
  opens : ∀ key ∈ ks, ctx.Opens k key

/-- From every state with the content `s` that opens the keys `ks`, the program ends with `out` and leaves the content `s'`,
and the keys as open. -/
def Steps {α : Type} (ctx : Ctx) (ks : Set Bytes) (s : Content F) (m : K F α) (out : Except (Exc Errors) α) (s' : Content F) :
    Prop :=
  ∀ k : KState F, Shows ctx ks s k → ∃ k', m ctx k = (out, k') ∧ Shows ctx ks s' k'

/-- If the key has expired, its purge returns. -/
def Ctx.Purges (ctx : Ctx) (ks : Set Bytes) (s : Content F) (key : Bytes) : Prop :=
  s.lookup (.bytes key) = none → key ∈ ks ∨ ctx.EventReturns .expired

/-- The program returns `out` and leaves the content `m`. -/
def Gives {α : Type} (prog : K F α) (ctx : Ctx) (k : KState F) (out : Except (Exc Errors) α) (m : Content F) : Prop :=
  ∃ k', prog ctx k = (out, k') ∧ k'.store.content ctx.clock.mono = m

namespace Content

variable (m : Content F) (key : Value)

/-- A new value without a deadline. -/
def assign (v : Obj F) : Content F := m.insert key ⟨v, none⟩

/-- A new value with the deadline that is there. -/
def update (v : Obj F) : Content F := m.insert key ⟨v, (m.lookup key).bind Entry.expires_at⟩

/-- The value that is there is changed in place. -/
def change (v : Obj F) : Content F :=
  match m.lookup key with
  | none => m
  | some e => m.insert key { e with value := v }

/-- A container is stored under a key: one that has a value has it changed in place. -/
def write (v : Obj F) : Content F := if (m.value key).isSome then m.change key v else m.assign key v

end Content

end Kagni
