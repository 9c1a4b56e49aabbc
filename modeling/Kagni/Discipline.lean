import Kagni.Commands.Basic
import Kagni.Commands.Bit
import Kagni.Commands.Hash
import Kagni.Commands.Zset
import Kagni.Lib.Built
import Mathlib.Data.Set.Insert

/-!
# What a keyspace program may do

An effect is something a program may do to the store: look a key up, overwrite one without looking, store a key, make some
data part of a value. A discipline says which effects are permitted. A disciplined program is built from the methods of `Data`
and the callbacks of the command layer, each with the effects it has permitted; it may rely on the store it finds being one
that a disciplined program made, and on a key that was looked up not being expired any more.
-/

namespace Kagni

open Lib Lib.Prog

variable {F : Type}

/-- What a program may do to the store. -/
inductive Effect where
  /-- Find out whether there is something under a key, and what. -/
  | look (key : Value)
  /-- Look at the fields of the hash under a key. -/
  | fields (key : Value)
  /-- Overwrite or remove what is under a key without having looked. -/
  | replace (key : Value)
  /-- Store something under a key. -/
  | create (key : Value)
  /-- Make it an item, a member, a field or the value of a field. -/
  | store (v : Value)
  /-- Store it as it is, as the value of a string. -/
  | value (v : Value)
  /-- Look at every key. -/
  | scan
  /-- Store something with a deadline that has passed. -/
  | past

namespace Obj

/-- The items, the members, the fields and their values satisfy `P`, and what is stored as it is satisfies `R`. -/
def All (P R : Value → Prop) : Obj F → Prop
  | .raw v => R v
  | .hash fields => ∀ p ∈ fields.entries, P p.1 ∧ P p.2.parts.1
  | .set members => ∀ v ∈ members.elems, P v
  | .deque items => ∀ v ∈ items, P v
  | .bitmap _ => True
  | .zset z => (∀ v ∈ z.scores.keys, P v) ∧ ∀ p ∈ z.sorted, P p.2

/-- A list, a set or a sorted set with something in it, or another value. A sorted set has no more scores than members, so that it
runs out of both at once. -/
def Nonempty : Obj F → Prop
  | .set members => members.elems ≠ []
  | .deque items => items ≠ []
  | .zset z => z.sorted ≠ [] ∧ z.scores.size ≤ z.sorted.length
  | _ => True

end Obj

/-- The effects that are permitted at an instant, and whether collections must not be empty. Byte strings may be stored; an
array that is the value of a string counts as a list, so it may be changed to any other whose items may be stored; and who may
look at every key may look at each. -/
structure Discipline where
  permits : Effect → Prop
  nonempty : Prop
  clock : Clock
  store_bytes : ∀ b, permits (.store (.bytes b))
  value_bytes : ∀ b, permits (.value (.bytes b))
  value_array : ∀ items, permits (.value (.array items)) →
    (∀ v ∈ items, permits (.store v)) ∧ ∀ items', (∀ v ∈ items', permits (.store v)) → permits (.value (.array items'))
  look_of_scan : permits .scan → ∀ key, permits (.look key)

namespace Discipline

/-- A value may be stored. -/
def obj (d : Discipline) (v : Obj F) : Prop :=
  v.All (fun v => d.permits (.store v)) (fun v => d.permits (.value v)) ∧ (d.nonempty → v.Nonempty)

/-- A store obeys the discipline. -/
def Holds (d : Discipline) (s : Store F) : Prop := ∀ p ∈ s.storage.entries, d.permits (.create p.1) ∧ d.obj p.2.value

/-- A key that was looked up, or may be overwritten without that. -/
def Seen (d : Discipline) (S : Set Value) (key : Value) : Prop := key ∈ S ∨ d.permits (.replace key)

end Discipline

/-- The function does not look at the fields of a hash. -/
def Blind {α : Type} (f : Option (Obj F) → α) : Prop := ∀ fields fields', f (some (.hash fields)) = f (some (.hash fields'))

/-- What a keyspace program is built from, with the effects it needs, what it returns, and the keys that have been looked up
before and after it. -/
inductive Access (d : Discipline) : Set Value → ∀ α : Type, K F α → (α → Prop) → Set Value → Prop
  | ask {S : Set Value} {α : Type} (f : Env → Clock → Nat → α) :
    Access d S α (fun ctx k => (.ok (f ctx.env ctx.clock ctx.tcp_port), k)) (fun a => ∃ env port, a = f env d.clock port) S
  | draw {S : Set Value} (n : Nat) : Access d S Nat (draw n) (fun i => 0 < n → i < n) S
  | get {S : Set Value} {α : Type} {key : Value} (f : Option (Obj F) → α) (hlook : d.permits (.look key))
      (hf : d.permits (.fields key) ∨ Blind f) :
    Access d S α (do return f (← data_get key))
      (fun a => ∃ o, (∀ v, o = some v → d.permits (.create key) ∧ d.obj v) ∧ a = f o) (insert key S)
  | is_live {S : Set Value} {key : Value} (hlook : d.permits (.look key)) :
    Access d S Bool (is_live key) (fun b => b = true → d.permits (.create key)) S
  | sweep {S : Set Value} : Access d S Unit _sweep (fun _ => True) S
  | index {S : Set Value} {α : Type} (f : List (Value × Option Int) → α) (hscan : d.permits .scan) :
    Access d S α (fun _ k => (.ok (f (k.store.storage.entries.map fun p => (p.1, p.2.expires_at))), k))
      (fun a => ∃ entries, (∀ p ∈ entries, d.permits (.create p.1)) ∧ a = f entries) S
  | data_set {S : Set Value} {key : Value} {value : Obj F} {deadline : Option Int} {keep_ttl : Bool}
      (hkey : key.hashable = true → d.permits (.create key)) (hobj : d.obj value) (hseen : d.Seen S key)
      (hkeep : keep_ttl = true → d.permits (.look key))
      (hpast : d.permits .past ∨ ∀ t, deadline = some t → d.clock.wall < t) :
    Access d S Unit (data_set key value deadline keep_ttl) (fun _ => key.hashable = true) S
  | setitem {S : Set Value} {key : Value} {value : Obj F} (hkey : key.hashable = true → d.permits (.create key))
      (hobj : d.obj value) (hseen : d.Seen S key) : Access d S Unit (setitem key value) (fun _ => key.hashable = true) S
  | store_value {S : Set Value} {key : Value} {value : Obj F} (hobj : d.obj value) (hlook : d.permits (.look key))
      (hseen : key ∈ S) : Access d S Unit (store_value key value) (fun _ => True) S
  | remove {S : Set Value} {α : Type} {key : Value} (f : Bool → α) (hf : d.permits (.look key) ∨ ∀ b, f b = f false)
      (hseen : d.Seen S key) :
    Access d S α (do return f (← data_remove key)) (fun a => ∃ b, (b = true → d.permits (.create key)) ∧ a = f b) S
  | expire {S : Set Value} {key : Value} (secs : Int) (hlook : d.permits (.look key)) :
    Access d S Bool (data_expire key secs) (fun b => b = true → d.permits (.create key)) S
  | expire_at {S : Set Value} {key : Value} (wall_deadline_ns : Int) (hlook : d.permits (.look key)) :
    Access d S Bool (data_expire_at key wall_deadline_ns) (fun b => b = true → d.permits (.create key)) S
  | wall_expiry {S : Set Value} {key : Value} (hlook : d.permits (.look key)) :
    Access d S Int (wall_expiry key) (fun _ => True) S
  | ttl_ms {S : Set Value} {key : Value} (hlook : d.permits (.look key)) : Access d S Int (ttl_ms key) (fun _ => True) S
  | persist {S : Set Value} {key : Value} (hlook : d.permits (.look key)) (hseen : d.Seen S key) :
    Access d S Bool (persist key) (fun b => b = true → d.permits (.create key)) S
  | touch {S : Set Value} (key : Value) : Access d S Unit (touch key) (fun _ => True) S
  | notify {S : Set Value} {key : Value} (event : Event) (hkey : d.permits (.create key)) :
    Access d S Unit (_notify key event) (fun _ => True) S

/-- A keyspace program that obeys the discipline once the keys `S` have been looked up, with what it returns. -/
abbrev Disciplined (d : Discipline) (S : Set Value) {α : Type} (m : K F α) (Q : α → Prop) : Prop := Built (Access d) S m Q

/-- A disciplined program after which one more key has been looked up. -/
abbrev Looks (d : Discipline) (S : Set Value) (key : Value) {α : Type} (m : K F α) (Q : α → Prop) : Prop :=
  Teaches (Access d) S m Q (insert key S)

/-- Reading nothing but the outside world and the instant. -/
inductive Asking : Set Value → ∀ α : Type, K F α → (α → Prop) → Set Value → Prop
  | ask {S : Set Value} {α : Type} (f : Env → Clock → Nat → α) :
    Asking S α (fun ctx k => (.ok (f ctx.env ctx.clock ctx.tcp_port), k)) (fun a => ∃ env clock port, a = f env clock port) S

/-- A program that computes: what it returns depends on its arguments, the outside world and the instant. -/
abbrev Computes {α : Type} (m : K F α) (Q : α → Prop) : Prop := ∀ {S : Set Value}, Built Asking S m Q

end Kagni
