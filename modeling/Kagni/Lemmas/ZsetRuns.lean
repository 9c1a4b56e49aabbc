import Kagni.Footprints.Zset
import Kagni.Lemmas.Expiry
import Kagni.Lemmas.SortedSet

/-!
# Commands on a sorted set

What the sorted-set commands do when their key is live and holds a sorted set in order: a read leaves the state as it is, and
a removal leaves the rest of the members under the key, or no key at all.
-/

namespace Kagni

open Lib Lib.Prog

variable {F : Type} {ctx : Ctx} {k k' : KState F} {key : Bytes} {z : ZSet F}

/-- The key is live and holds the sorted set. -/
def HoldsZset (ctx : Ctx) (k : KState F) (key : Bytes) (z : ZSet F) : Prop :=
  ∃ e, k.store.storage.get (.bytes key) = some e ∧ e.live ctx.clock.mono = true ∧ e.value = .zset z

/-- Of what was under the key, these pairs are left, in order and with their deadline; nothing is left of a key without pairs,
and the other keys are as they were. -/
structure Leaves [PyFloat F] (k k' : KState F) (key : Bytes) (left : List (F × Value)) : Prop where
  others : ∀ other, other ≠ .bytes key → k'.store.storage.get other = k.store.storage.get other
  gone : left = [] → k'.store.storage.get (.bytes key) = none
  rest : left ≠ [] → ∃ e z, k.store.storage.get (.bytes key) = some e ∧
    k'.store.storage.get (.bytes key) = some { e with value := .zset z } ∧
    z.Valid ∧ z.sorted = left

/-! ## Steps -/

theorem zset_run (h : HoldsZset ctx k key z) : _zset (.bytes key) ctx k = (.ok (some z), k) := by
  obtain ⟨e, hget, hlive, hvalue⟩ := h
  have hentry : entry (.bytes key) ctx k = (.ok (some e), k) := by
    have hrun : entry (.bytes key) ctx k = (.ok (k.store.storage.get (.bytes key)), k) := rfl
    rw [hrun, hget]
  have hdata : data_get (.bytes key) ctx k = (.ok (some (.zset z)), k) := by
    unfold data_get
    rw [bind_ok ctx k hentry]
    dsimp only
    rw [bind_ok ctx k (show clock ctx k = (.ok ctx.clock, k) from rfl), if_pos hlive, hvalue]
    rfl
  have hkind : expect_kind (.bytes key) .zset ctx k = (.ok (some (.zset z)), k) := by
    unfold expect_kind
    rw [bind_ok ctx k hdata]
    rfl
  unfold _zset
  rw [bind_ok ctx k hkind]
  rfl

/-- The state after the sorted set was changed in place. -/
def KState.putZset (k : KState F) (key : Bytes) (z : ZSet F) : KState F :=
  { k with store.storage := match k.store.storage.get (.bytes key) with
    | some e => k.store.storage.set (.bytes key) { e with value := .zset z }
    | none => k.store.storage }

theorem inPlace_run {α : Type} (key : Bytes) (a : α) (z : ZSet F) (k : KState F) :
    inPlace (.bytes key) (some a, z) ctx k = (.ok (a, z), k.putZset key z) := rfl

/-- Putting back what is there changes nothing. -/
theorem HoldsZset.put_self (h : HoldsZset ctx k key z) : (k.putZset key z).store.storage = k.store.storage := by
  obtain ⟨e, hget, -, hvalue⟩ := h
  simp only [KState.putZset, hget]
  rw [← hvalue]
  exact Dict.set_of_get hget

theorem HoldsZset.put (h : HoldsZset ctx k key z) (z' : ZSet F) :
    ∃ e, k.store.storage.get (.bytes key) = some e ∧ (k.putZset key z').store.storage = k.store.storage.set (.bytes key)
      { e with value := .zset z' } := by
  obtain ⟨e, hget, -⟩ := h
  refine ⟨e, hget, ?_⟩
  simp only [KState.putZset, hget]

/-- The key is dropped when nothing is left in the sorted set. -/
theorem drop_empty_run (ctx : Ctx) (key : Bytes) (z : ZSet F) (k : KState F) :
    dropEmptyZset (.bytes key) z ctx k =
      (.ok (), if z.sorted = [] then { k with store.storage := k.store.storage.erase (.bytes key) } else k) := by
  have hsize : z.size = 0 ↔ z.sorted = [] := List.length_eq_zero_iff
  unfold dropEmptyZset
  by_cases hnil : z.sorted = []
  · rw [if_pos (hsize.2 hnil), if_pos hnil]
    have hentry : entry (.bytes key) ctx k = (.ok (k.store.storage.get (.bytes key)), k) := rfl
    unfold data_remove
    rw [bind_assoc, bind_ok ctx k hentry]
    cases hget : k.store.storage.get (.bytes key) with
    | none =>
      refine congrArg (Prod.mk _) ?_
      have herase : k.store.storage.erase (.bytes key) = k.store.storage := Dict.ext_entries (List.filter_eq_self.2 fun p hp => by
        have hne : p.1 ≠ .bytes key := by
          intro heq
          rw [← heq, (Dict.get_eq_some_iff ..).2 hp] at hget
          cases hget
        simpa using hne)
      rw [herase]
    | some e => rfl
  · rw [if_neg (mt hsize.1 hnil), if_neg hnil]
    rfl

/-- A removal that returns had nothing to tell, or could tell it. -/
theorem after_removal_returns {removed : Nat} {event : Event} {z' : ZSet F} {r : Reply}
    (hrun : afterRemoval (.bytes key) z' removed event ctx k = (.ok r, k')) : removed = 0 ∨ ctx.EventReturns event := by
  by_contra hraises
  obtain ⟨hremoved, hevent⟩ := not_or.1 hraises
  obtain ⟨k₁, hthrows, -⟩ := after_write_throws hevent key k
  unfold afterRemoval at hrun
  rw [if_pos hremoved, bind_error ctx k hthrows] at hrun
  cases hrun

section Removal

variable [PyFloat F]

/-- What is left of the key once the rest of the sorted set has been put back and an empty one dropped. -/
theorem leaves_put (h : HoldsZset ctx k key z) {z' : ZSet F} (hvalid : z'.Valid) {k₁ : KState F}
    (hput : k₁.store.storage = (k.putZset key z').store.storage) :
    Leaves k (if z'.sorted = [] then { k₁ with store.storage := k₁.store.storage.erase (.bytes key) } else k₁) key z'.sorted := by
  obtain ⟨e, hget, hset⟩ := h.put z'
  rw [hset] at hput
  refine ⟨fun other hother => ?_, fun hnil => ?_, fun hne => ?_⟩
  · split
    · simp only
      rw [Dict.get_erase, if_neg hother, hput, Dict.get_set, if_neg hother]
    · rw [hput, Dict.get_set, if_neg hother]
  · rw [if_pos hnil]
    simp only
    rw [Dict.get_erase, if_pos rfl]
  · rw [if_neg hne, hput]
    exact ⟨e, z', hget, Dict.get_set_self .., hvalid, rfl⟩

theorem Leaves.congr {k₁ k₂ : KState F} {left : List (F × Value)} (h : Leaves k k₁ key left)
    (hsame : k₂.store.storage = k₁.store.storage) :
    Leaves k k₂ key left :=
  ⟨fun other hother => hsame ▸ h.others other hother, fun hnil => hsame ▸ h.gone hnil, fun hne => hsame ▸ h.rest hne⟩

/-- The end of a removal: nothing was removed, or the event returns. -/
theorem after_removal_run (h : HoldsZset ctx k key z) {removed : Nat} {event : Event}
    (hevent : removed = 0 ∨ ctx.EventReturns event) {z' : ZSet F}
    (hvalid : z'.Valid) : ∃ k', afterRemoval (.bytes key) z' removed event ctx (k.putZset key z') = (.ok (.int removed), k') ∧
      Leaves k k' key z'.sorted := by
  obtain ⟨k₁, hk₁, hsame⟩ : ∃ k₁, (if removed ≠ 0 then _after_write (.bytes key) event else pure () : K F Unit) ctx
    (k.putZset key z') = (.ok (), k₁) ∧
      k₁.store.storage = (k.putZset key z').store.storage := by
    split
    · exact after_write_run (hevent.resolve_left ‹_›) key _
    · exact ⟨_, rfl, rfl⟩
  refine ⟨_, ?_, leaves_put h hvalid hsame⟩
  have hrun : afterRemoval (.bytes key) z' removed event =
      ((if removed ≠ 0 then _after_write (.bytes key) event else pure () : K F Unit) >>= fun _ =>
        dropEmptyZset (.bytes key) z' >>= fun _ => pure (.int removed)) := by
    unfold afterRemoval
    split
    · rfl
    · rfl
  rw [hrun, bind_ok ctx _ hk₁, bind_ok ctx _ (drop_empty_run ctx key z' k₁)]
  rfl

/-- A removal replies the number of members it removed exactly if there is nothing to tell, or it can be told. -/
theorem after_removal_iff (h : HoldsZset ctx k key z) (removed : Nat) (event : Event) {z' : ZSet F} (hvalid : z'.Valid) :
    (∃ k', afterRemoval (.bytes key) z' removed event ctx (k.putZset key z') = (.ok (.int removed), k') ∧
      Leaves k k' key z'.sorted) ↔
      removed = 0 ∨ ctx.EventReturns event := by
  refine ⟨?_, fun hevent => after_removal_run h hevent hvalid⟩
  rintro ⟨k', hrun, -⟩
  exact after_removal_returns hrun

end Removal

/-! ## Two members -/

/-- `a` with the score 1 and `b` with 2, in a sorted set. -/
def twoMembers : ZSet Int := ((ZSet.empty.add (.bytes (bs "b")) 2).2.add (.bytes (bs "a")) 1).2

theorem twoMembers_valid : twoMembers.Valid := by
  have hop : ∀ (member : Bytes) (score : Int), (ZSet.Op.add member score).Number := fun _ _ => rfl
  exact (ZSet.Made.step (ZSet.Made.step ZSet.Made.empty (hop (bs "b") 2)) (hop (bs "a") 1)).valid

/-- It is under the key `z`. -/
def twoMembersStore : KState Int := ⟨⟨Dict.set ∅ (.bytes (bs "z")) ⟨.zset twoMembers, none⟩, ∅⟩, [], 0⟩

theorem holds_twoMembers (ctx : Ctx) : HoldsZset ctx twoMembersStore (bs "z") twoMembers :=
  ⟨⟨.zset twoMembers, none⟩, Dict.get_set_self .., rfl, rfl⟩

end Kagni
