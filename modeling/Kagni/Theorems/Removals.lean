import Kagni.Lib.Occurrences
import Kagni.Lemmas.Lists

/-!
# Removals

LREM removes the occurrences that are asked for, and no others. The loops that rebuild the list are read as the positions they
leave out.
-/

namespace Kagni

open Lib

variable {F : Type} {ctx : Ctx} {ks : Set Bytes} {k : KState F} {s : Content F} {key : Bytes} {lst : ListRef}

/-- The positions LREM is to remove: of the first `count` occurrences, of the last ones if it is negative, and of all of them
if it is 0. -/
def removals (val : Value) (count : Int) (items : List Value) : List Nat :=
  if 0 < count then (occurrences val items).take count.toNat
  else if count < 0 then (occurrences val items).drop ((occurrences val items).length - count.natAbs)
  else occurrences val items

/-- What is left of a list. -/
def remaining (val : Value) (count : Int) (items : List Value) : List Value := omitAt (removals val count items) items

theorem length_removals (val : Value) (count : Int) (items : List Value) :
    (removals val count items).length = if count = 0 then items.count val else min count.natAbs (items.count val) := by
  unfold removals
  rcases lt_trichotomy count 0 with h | rfl | h
  · rw [if_neg (by omega), if_pos h, if_neg (by omega), List.length_drop, length_occurrences]
    omega
  · exact length_occurrences val items
  · rw [if_pos h, if_neg (by omega), List.length_take, length_occurrences]
    omega

@[simp] theorem removals_nil (val : Value) (count : Int) : removals val count [] = [] := by simp [removals]

/-! ## The loop -/

/-- What the loop passes over: the occurrences as long as there are fewer than `count`. -/
theorem lremLoop_eq (val : Value) (count : Nat) (items : List Value) (removed : Nat) :
    lremLoop val count items removed =
      (omitAt (if count = 0 then occurrences val items else (occurrences val items).take (count - removed)) items,
        removed + (if count = 0 then occurrences val items else (occurrences val items).take (count - removed)).length) := by
  induction items generalizing removed with
  | nil => simp [lremLoop]
  | cons item rest ih =>
    rw [lremLoop, ih, ih, occurrences_cons]
    by_cases hitem : item = val
    · by_cases hcount : count = 0
      · rw [if_pos ⟨hitem, .inl hcount⟩, if_pos hcount, if_pos hcount, if_pos hitem, omitAt_cons_zero,
          List.length_cons, List.length_map]
        exact congrArg (Prod.mk _) (by omega)
      · rw [if_neg hcount, if_neg hcount, if_neg hcount, if_pos hitem]
        by_cases hroom : removed < count
        · obtain ⟨left, hleft⟩ : ∃ left, count - removed = left + 1 := ⟨count - removed - 1, by omega⟩
          rw [if_pos ⟨hitem, .inr hroom⟩, hleft, show count - (removed + 1) = left by omega, List.take_succ_cons,
            ← List.map_take, omitAt_cons_zero,
            List.length_cons, List.length_map]
          exact congrArg (Prod.mk _) (by omega)
        · rw [if_neg (by tauto), show count - removed = 0 by omega, List.take_zero, List.take_zero, omitAt_none, omitAt_none]
    · have hshift : (if count = 0 then (occurrences val rest).map (· + 1) else ((occurrences val rest).map (· + 1)).take
        (count - removed)) =
          (if count = 0 then occurrences val rest else (occurrences val rest).take (count - removed)).map (· + 1) := by
        split_ifs
        · rfl
        · rw [List.map_take]
      rw [if_neg (by tauto), if_neg hitem, hshift, omitAt_cons, List.length_map]

/-- From the head the loop removes what is asked for. -/
theorem lremLoop_head (val : Value) {count : Int} (h : 0 ≤ count) (items : List Value) :
    lremLoop val count.toNat items 0 = (remaining val count items, (removals val count items).length) := by
  have hremovals : (if count.toNat = 0 then occurrences val items else (occurrences val items).take (count.toNat - 0)) =
      removals val count items := by
    unfold removals
    rcases h.lt_or_eq with h | rfl
    · rw [if_neg (by omega), if_pos h, Nat.sub_zero]
    · rfl
  rw [lremLoop_eq, hremovals, Nat.zero_add]
  rfl

/-- The positions in the list read backwards. -/
theorem removals_reverse (val : Value) (count : Int) (items : List Value) :
    removals val (-count) items.reverse = ((removals val count items).map fun i => items.length - 1 - i).reverse := by
  unfold removals
  rw [occurrences_reverse, List.length_reverse, List.length_map]
  rcases lt_trichotomy count 0 with h | rfl | h
  · rw [if_pos (by omega), if_neg (by omega), if_pos h, List.take_reverse, List.length_map, List.map_drop,
      show (-count).toNat = count.natAbs by omega]
  · rfl
  · have htake : (occurrences val items).take
      ((occurrences val items).length - ((occurrences val items).length - (-count).natAbs)) =
        (occurrences val items).take count.toNat := List.take_eq_take_iff.2 (by omega)
    rw [if_neg (by omega), if_pos (by omega), if_pos h, List.drop_reverse, List.length_map, ← List.map_take, htake]

theorem lt_of_mem_removals {val : Value} {count : Int} {items : List Value} :
    ∀ i ∈ removals val count items, i < items.length := by
  intro i hi
  unfold removals at hi
  split_ifs at hi
  · exact lt_of_mem_occurrences (List.mem_of_mem_take hi)
  · exact lt_of_mem_occurrences (List.mem_of_mem_drop hi)
  · exact lt_of_mem_occurrences hi

/-- What is left of the list read backwards is what is left of the list, read backwards. -/
theorem remaining_reverse (val : Value) (count : Int) (items : List Value) :
    remaining val (-count) items.reverse = (remaining val count items).reverse := by
  unfold remaining
  rw [removals_reverse]
  exact omitAt_reverse lt_of_mem_removals

/-- From the tail the loop removes what is asked for. -/
theorem lremLoop_tail (val : Value) {count : Int} (h : count < 0) (items : List Value) :
    lremLoop val count.natAbs items.reverse 0 = ((remaining val count items).reverse, (removals val count items).length) := by
  have hhead := lremLoop_head val (show 0 ≤ -count by omega) items.reverse
  rwa [remaining_reverse, removals_reverse, List.length_reverse, List.length_map,
    show (-count).toNat = count.natAbs by omega] at hhead

/-! ## LREM -/

theorem remaining_of_nil {val : Value} {count : Int} {items : List Value} (h : removals val count items = []) :
    remaining val count items = items := by
  unfold remaining
  rw [h, omitAt_none]

/-- A removal can be told: nothing is removed, or its event can be published, and the end of the key when nothing is left. -/
def RemovalTold (ctx : Ctx) (items : List Value) (count : Int) (val : Value) : Prop :=
  removals val count items = [] ∨ ctx.Tells .lrem (remaining val count items = [])

/-- LREM looks at the list and finds the occurrences. -/
theorem steps_LREM_found {out : Except (Exc Errors) Reply} {s' : Content F} (h : s.value (.bytes key) = some lst.obj)
    (count : Int) (val : Value)
    (hrest : Steps ctx ks s (if (removals val count lst.items).length ≠ 0 then do
        _after_write (.bytes key) .lrem
        if remaining val count lst.items ≠ [] then data_set (.bytes key) (.deque (remaining val count lst.items)) none true
        else
          let _ ← data_remove (.bytes key)
          _notify (.bytes key) .del
        return .int (removals val count lst.items).length
      else return .int (removals val count lst.items).length : K F Reply) out s') :
    Steps ctx ks s (LREM (.bytes key) count val) out s' := by
  have hloop : (if count ≥ 0 then lremLoop val count.toNat lst.items 0
      else ((lremLoop val count.natAbs lst.items.reverse 0).1.reverse, (lremLoop val count.natAbs lst.items.reverse 0).2)) =
      (remaining val count lst.items, (removals val count lst.items).length) := by
    split_ifs with hcount
    · exact lremLoop_head val hcount lst.items
    · rw [lremLoop_tail val (not_le.1 hcount), List.reverse_reverse]
  refine (steps_list (o := some lst) (purges_of_value h) h).bind ?_
  dsimp only
  rw [hloop]
  exact hrest

theorem steps_LREM (h : s.value (.bytes key) = some lst.obj) {count : Int} {val : Value}
    (htold : RemovalTold ctx lst.items count val) :
    Steps ctx ks s (LREM (.bytes key) count val) (.ok (.int (removals val count lst.items).length))
      (if removals val count lst.items = [] then s else s.leave (.bytes key) ⟨true, remaining val count lst.items⟩) := by
  refine steps_LREM_found h count val ?_
  by_cases hnone : removals val count lst.items = []
  · rw [if_pos hnone, hnone]
    exact .if_neg (by simp) (.pure _)
  · obtain ⟨hevent, hdel⟩ := htold.resolve_left hnone
    rw [if_neg hnone]
    refine .if_pos (by simpa using hnone) ((steps_after_write hevent).bind ?_)
    by_cases hleft : remaining val count lst.items = []
    · rw [Content.leave_empty s _ hleft]
      exact .if_neg (not_not.2 hleft) ((steps_remove key).bind ((steps_notify (hdel hleft)).bind (.pure _)))
    · rw [Content.leave_of_ne s _ hleft]
      exact .if_pos hleft ((steps_data_set key _).bind (.pure _))

/-- A removal that cannot be told raises. -/
theorem steps_LREM_untold (h : s.value (.bytes key) = some lst.obj) {count : Int} {val : Value}
    (huntold : ¬RemovalTold ctx lst.items count val) :
    ∃ s', Steps ctx ks s (LREM (.bytes key) count val) (.error .other) s' := by
  obtain ⟨hsome, htold⟩ := not_or.1 huntold
  have hcount : (removals val count lst.items).length ≠ 0 := by simpa using hsome
  by_cases hevent : ctx.EventReturns .lrem
  · obtain ⟨hleft, hdel⟩ := Classical.not_imp.1 fun hdel => htold ⟨hevent, hdel⟩
    refine ⟨s.erase (.bytes key), steps_LREM_found h count val (.if_pos hcount ((steps_after_write hevent).bind ?_))⟩
    exact .if_neg (not_not.2 hleft) ((steps_remove key).bind (steps_notify_error hdel).bind_error)
  · exact ⟨s, steps_LREM_found h count val (.if_pos hcount (steps_after_write_error hevent).bind_error)⟩

/-- LREM does what it is for: it replies how many occurrences it has removed, the other items stay, and the key is gone if
there are none. -/
def RemovesExactly (ctx : Ctx) (k : KState F) (key : Bytes) (items : List Value) (count : Int) (val : Value) : Prop :=
  ∃ isDeque, Gives (LREM (.bytes key) count val) ctx k (.ok (.int (removals val count items).length))
    ((k.store.content ctx.clock.mono).leave (.bytes key) ⟨isDeque, remaining val count items⟩)

/-- LREM does what it is for unless the list is empty, which it does not delete, or the removal cannot be told. -/
theorem removesExactly_iff (h : (k.store.content ctx.clock.mono).value (.bytes key) = some lst.obj) (count : Int) (val : Value) :
    RemovesExactly ctx k key lst.items count val ↔ lst.items ≠ [] ∧ RemovalTold ctx lst.items count val := by
  constructor
  · rintro ⟨isDeque, hexact⟩
    have htold : RemovalTold ctx lst.items count val := by
      by_contra huntold
      obtain ⟨s', hraises⟩ : ∃ s', Steps ctx ∅ (k.store.content ctx.clock.mono) (LREM (.bytes key) count val)
        (.error .other) s' :=
        steps_LREM_untold h huntold
      cases (hexact.unique (hraises.gives (.none k))).1
    refine ⟨fun hempty => ?_, htold⟩
    have hends := (steps_LREM h htold).gives (.none k)
    have hkey : (k.store.content ctx.clock.mono).erase (.bytes key) ≠ k.store.content ctx.clock.mono := Content.erase_ne h
    rw [hempty] at hends hexact
    rw [removals_nil, if_pos rfl] at hends
    exact hkey ((Content.leave_empty _ _ rfl).symm.trans (hexact.unique hends).2)
  · rintro ⟨hne, htold⟩
    have hends := (steps_LREM h htold).gives (.none k)
    by_cases hnone : removals val count lst.items = []
    · refine ⟨lst.isDeque, ?_⟩
      rw [if_pos hnone] at hends
      rw [remaining_of_nil hnone]
      exact (Content.leave_self h hne).symm ▸ hends
    · rw [if_neg hnone] at hends
      exact ⟨true, hends⟩

/-- `a b a`. -/
def abaItems : List Value := [bs "a", bs "b", bs "a"].map .bytes

end Kagni
