import Kagni.Lemmas.Discipline
import Kagni.Lemmas.Footprint
import Kagni.Lemmas.Runs

/-!
# The types of the stored data

Keys, items, members, fields and the values of fields are meant to be byte strings, as the annotations of the methods say. The
reader returns integers, nulls and arrays as well, and only the arguments annotated as numbers are converted, so what a
command stores is as well typed as the arguments in its footprint.
-/

namespace Kagni

open Lib Lib.Prog

variable {F : Type}

namespace Value

/-- An array as the value of a string is a list: its items are byte strings. -/
def ItemsAreBytes : Value → Prop
  | .array items => ∀ v ∈ items, v.IsBytes
  | _ => True

instance : (v : Value) → Decidable v.ItemsAreBytes
  | .array items => inferInstanceAs (Decidable (∀ v ∈ items, v.IsBytes))
  | .bytes _ => .isTrue trivial
  | .int _ => .isTrue trivial
  | .null => .isTrue trivial

end Value

/-- Every item, member, field and value of a field is a byte string. -/
def Obj.WellTyped (v : Obj F) : Prop := v.All Value.IsBytes Value.ItemsAreBytes

instance (v : Obj F) : Decidable v.WellTyped := by
  cases v <;> unfold Obj.WellTyped Obj.All <;> infer_instance

/-- Every key is a byte string, and every value well typed. -/
def Store.WellTyped (s : Store F) : Prop := ∀ p ∈ s.storage.entries, p.1.IsBytes ∧ p.2.value.WellTyped

instance (s : Store F) : Decidable s.WellTyped := inferInstanceAs (Decidable (∀ p ∈ s.storage.entries, _ ∧ _))

/-- What the command may store is well typed. -/
structure Cmd.WritesBytes (c : Cmd) (args : List Value) : Prop where
  created : ∀ key ∈ c.created args, key.hashable = true → key.IsBytes
  stored : ∀ v ∈ c.stored args, v.IsBytes
  valued : ∀ v ∈ c.valued args, v.ItemsAreBytes

/-- A request for a command that stores byte strings, or for none. -/
def Request.WritesBytes (q : Request) : Prop := ∀ c, Cmd.ofName q.name = some c → c.WritesBytes q.args

/-- The discipline of a well-typed store: byte strings are stored, under byte strings. -/
def Discipline.wellTyped (clock : Clock) : Discipline where
  permits
    | .create key => key.IsBytes
    | .store v => v.IsBytes
    | .value v => v.ItemsAreBytes
    | _ => True
  nonempty := False
  clock
  store_bytes _ := trivial
  value_bytes _ := trivial
  value_array _ h := ⟨h, fun _ => id⟩
  look_of_scan _ _ := trivial

theorem holds_wellTyped_iff (clock : Clock) (s : Store F) : (Discipline.wellTyped clock).Holds s ↔ s.WellTyped := by
  refine forall₂_congr ?_
  intro _ _
  refine and_congr_right ?_
  intro _
  exact ⟨And.left, fun h => ⟨h, False.elim⟩⟩

theorem Cmd.WritesBytes.allows {c : Cmd} {args : List Value} (h : c.WritesBytes args) (clock : Clock) :
    (Discipline.wellTyped clock).Allows c args where
  look _ _ := trivial
  fields _ _ := trivial
  replace _ _ := trivial
  create := h.created
  store := h.stored
  value := h.valued
  scan _ := trivial
  past _ := trivial
  empty _ := id

variable [PyFloat F]

/-- A command that stores byte strings keeps the store well typed. -/
theorem kept_wellTyped (state : Option SessionId) :
    Kept Request.WritesBytes (fun s : Server F => s.data.toStore.WellTyped) state := by
  refine kept_store nofun (fun {q c method} ctx hq hc hm => ?_) state
  have hkeeps : Keeping (Discipline.wellTyped ctx.clock) ctx (method q.args) fun _ => True :=
    Disciplined.keeps (((hq c hc).allows ctx.clock).disciplined (S := ∅) hm) rfl
  simpa only [Keeping, holds_wellTyped_iff] using hkeeps

/-- A run whose requests store byte strings keeps the store well typed. -/
theorem keyspace_wellTyped (env : Env) (port : Nat) (table : Option (Table F)) (storage : Dict Value (Entry F))
    (wired : SessionId → Bool) (inputs : List Input) (hstorage : Store.WellTyped ⟨storage, ∅⟩)
    (hinputs : ∀ i ∈ inputs, i.Requests Request.WritesBytes) :
    ((Server.init port table storage wired).run env inputs).data.toStore.WellTyped :=
  store_run kept_wellTyped env inputs hinputs hstorage (queued_init _ port table storage wired)

/-- RPUSH k v stores a byte string. -/
theorem keyspace_wellTyped_rpush :
    ((Server.init 0 none ∅ fun _ => true : Server Int).run .plain
      [.request ⟨0, 0⟩ (some 0) (.array [.bytes (bs "RPUSH"), .bytes (bs "k"), .bytes (bs "v")])]).data.toStore.WellTyped := by
  refine keyspace_wellTyped .plain 0 none ∅ (fun _ => true) _ nofun ?_
  intro i hi
  rw [List.mem_singleton.1 hi]
  intro c hc
  obtain rfl : c = .RPUSH := by
    have : Cmd.ofName (Request.name ⟨bs "RPUSH", [.bytes (bs "k"), .bytes (bs "v")]⟩) = some .RPUSH := by decide
    exact Option.some.inj (hc.symm.trans this)
  exact ⟨by decide, by decide, nofun⟩

/-- RPUSH k :1 makes an integer the item of a list. -/
theorem keyspace_not_wellTyped :
    ¬((Server.init 0 none ∅ fun _ => true : Server Int).run .plain
      [.request ⟨0, 0⟩ (some 0) (.array [.bytes (bs "RPUSH"), .bytes (bs "k"), .int 1])]).data.toStore.WellTyped := by
  decide

end Kagni
