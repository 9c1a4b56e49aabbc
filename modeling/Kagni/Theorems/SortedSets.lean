import Kagni.Lemmas.SortedSet

/-!
# The two halves of a sorted set

A sorted set keeps every member twice: with its score in a dictionary, and with its score in an ordered list. Each change
updates both, one after the other, and finds the old pair by binary search.
-/

namespace Kagni

open Lib

variable {F : Type} [PyFloat F] [PyFloat.Ordered F]

namespace ZSet

/-- Every sorted set that changes make of an empty one is in order: its list is strictly increasing, its pairs are those of
the dictionary, one for each member, and no change of it raises. Adding changes the score of one member, and not when the
score is equal; removing deletes one member; the rank of a member is the number of smaller pairs, and its own pair stands
there. -/
theorem made_inOrder {z : ZSet F} (h : Made z) :
    z.Valid ∧ z.members.Perm z.scores.keys ∧ z.size = z.scores.size ∧ (∀ op : Op F, op.Number → (op.run z).1 = true) ∧
      (∀ (member : Bytes) (score : F), PyFloat.isNaN score = false → ∀ m, (z.add (.bytes member) score).2.score m =
        if m = .bytes member then some (((z.score m).filter fun current => PyFloat.eq current score).getD score) else z.score m) ∧
      (∀ (member : Bytes) (m : Value), (z.remove (.bytes member)).2.score m = if m = .bytes member then none else z.score m) ∧
      ∀ (member : Bytes) (score : F), z.score (.bytes member) = some score →
        z.rank (.bytes member) = some (some (z.pairs.countP fun q => decide (pairLt? q (score, .bytes member) = some true))) ∧
          z.pairs[z.pairs.countP fun q => decide (pairLt? q (score, .bytes member) = some true)]? =
            some (score, .bytes member) := by
  have hvalid := h.valid
  have hperm : z.members.Perm z.scores.keys := by
    refine (List.perm_ext_iff_of_nodup hvalid.nodup_members z.scores.nodup).2 ?_
    intro m
    rw [hvalid.mem_members, Dict.contains_eq_true_iff]
    rfl
  refine ⟨hvalid, hperm, ?_, fun op hop => (hvalid.run hop).1, fun member score hscore m => ?_, fun member m => ?_,
    fun member score hscore => hvalid.rank hscore⟩
  · have hlen := hperm.length_eq
    rw [members, Dict.keys, List.length_map, List.length_map] at hlen
    exact hlen
  · obtain ⟨b, z', heq, -, hothers, hown⟩ := hvalid.add member hscore
    rw [heq]
    split
    · rename_i hm
      subst hm
      rcases hown with ⟨-, rfl, current, hcurrent, hequal⟩ | ⟨rfl, hnew⟩
      · rw [hcurrent, Option.filter_some, if_pos hequal]
        rfl
      · rw [hnew]
        refine congrArg some ?_
        cases hcurrent : z.score (.bytes member) with
        | none => rfl
        | some current =>
          -- an equal score would have left everything as it was
          have hdiffer : PyFloat.eq current score = false := by
            by_contra hequal
            have hhash : (Value.bytes member).hashable = true := rfl
            simp [ZSet.add, hhash, hcurrent, Bool.not_eq_false _ ▸ hequal] at heq
          rw [Option.filter_some, if_neg (by simp [hdiffer])]
          rfl
    · rename_i hm
      exact hothers m hm
  · obtain ⟨z', heq, -, hget⟩ := hvalid.remove member
    rw [heq]
    exact hget m

/-- Two members, the second of which goes first, and an update that moves it behind. -/
theorem made_inOrder_moved :
    ((Op.add (bs "b") (3 : Int)).run ((Op.add (bs "b") (1 : Int)).run ((Op.add (bs "a") (2 : Int)).run .empty).2).2).2.Valid :=
  have hop : ∀ (member : Bytes) (score : Int), (Op.add member score).Number := fun _ _ => rfl
  (made_inOrder (.step (.step (.step .empty (hop _ 2)) (hop _ 1)) (hop _ 3))).1

end ZSet

end Kagni
