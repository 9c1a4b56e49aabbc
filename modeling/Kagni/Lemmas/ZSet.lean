import Kagni.ZSet

/-!
# The size of a sorted set

A sorted set keeps its members twice, with their scores in a dictionary and in order in a list. An operation that succeeds
keeps the dictionary no larger than the list; one that raises in the middle leaves the list as it was, so a sorted set never
runs out of members without running out of scores.
-/

namespace Kagni

open Lib

variable {F : Type}

/-! ## The search -/

theorem bisectLoop_le {α : Type} {a : List α} {goRight : α → Option Bool} {fuel lo hi i : Nat} (hle : lo ≤ hi)
    (h : bisectLoop a goRight fuel lo hi = some i) : i ≤ hi := by
  induction fuel generalizing lo hi with
  | zero => exact Option.some.inj h ▸ hle
  | succ fuel ih =>
    unfold bisectLoop at h
    split at h
    · rename_i hlt
      split at h
      · exact Option.some.inj h ▸ hle
      · split at h
        · cases h
        · exact ih (by omega) h
        · exact (ih (by omega) h).trans (by omega)
    · exact Option.some.inj h ▸ hle

theorem bisect_le {α : Type} {a : List α} {goRight : α → Option Bool} {i : Nat} (h : bisect a goRight = some i) : i ≤ a.length :=
  bisectLoop_le (Nat.zero_le _) h

theorem bisectLoop_isSome {α : Type} {a : List α} {goRight : α → Option Bool} (h : ∀ y ∈ a, goRight y ≠ none) (fuel lo hi : Nat) :
    bisectLoop a goRight fuel lo hi ≠ none := by
  induction fuel generalizing lo hi with
  | zero => exact Option.some_ne_none _
  | succ fuel ih =>
    unfold bisectLoop
    split
    · split
      · exact Option.some_ne_none _
      · rename_i y hy
        split
        · rename_i hnone
          exact absurd hnone (h y (List.mem_of_getElem? hy))
        · exact ih _ _
        · exact ih _ _
    · exact Option.some_ne_none _

namespace ZSet

/-- No more scores than members in order. -/
def Tight (z : ZSet F) : Prop := z.scores.size ≤ z.sorted.length

theorem tight_empty : (empty : ZSet F).Tight := Nat.le_refl 0

/-- A container that has a score has a member in order. -/
theorem Tight.pos {z : ZSet F} (h : z.Tight) {member : Value} (hm : z.scores.contains member = true) : 0 < z.sorted.length := by
  have hsize := Dict.size_erase hm
  unfold Tight at h
  omega

/-- What a removal leaves behind: no more scores than members, and members in order after an exception. -/
structure Left {α : Type} (r : Option α × ZSet F) : Prop where
  tight : r.2.Tight
  raised : r.1 = none → r.2.sorted ≠ []

/-- The members that are deleted have scores: each deletion makes the dictionary smaller by one. -/
theorem delScores_size (members : List Value) (scores : Dict Value F) :
    (delScores members scores).2.size ≤ scores.size ∧
      ((delScores members scores).1 = some () → (delScores members scores).2.size + members.length = scores.size) ∧
      ((delScores members scores).1 = none → members ≠ []) := by
  induction members generalizing scores with
  | nil => exact ⟨le_rfl, fun _ => rfl, nofun⟩
  | cons member rest ih =>
    unfold delScores
    split
    · rename_i hm
      have hsize := Dict.size_erase hm
      obtain ⟨h1, h2, -⟩ := ih (scores.erase member)
      refine ⟨by omega, fun h => ?_, fun _ => List.cons_ne_nil _ _⟩
      have := h2 h
      rw [List.length_cons]
      omega
    · exact ⟨le_rfl, nofun, fun _ => List.cons_ne_nil _ _⟩

/-- The members of a window are deleted, from the scores and from the list. -/
theorem left_delete {z : ZSet F} (h : z.Tight) {i j n : Nat} (hij : i ≤ j) :
    Left (match delScores (((z.sorted.take j).drop i).map Prod.snd) z.scores with
      | (none, scores) => ((none, ⟨scores, z.sorted⟩) : Option Nat × ZSet F)
      | (some (), scores) => (some n, ⟨scores, z.sorted.take i ++ z.sorted.drop j⟩)) := by
  obtain ⟨h1, h2, h3⟩ := delScores_size (((z.sorted.take j).drop i).map Prod.snd) z.scores
  unfold Tight at h
  split
  · rename_i scores heq
    rw [heq] at h1 h3
    refine ⟨h1.trans h, fun _ hnil => h3 rfl ?_⟩
    change z.sorted = [] at hnil
    simp [hnil]
  · rename_i scores heq
    rw [heq] at h2
    have hsize := h2 rfl
    refine ⟨?_, nofun⟩
    simp only [List.length_map, List.length_drop, List.length_take] at hsize
    simp only [Tight, List.length_append, List.length_take, List.length_drop]
    omega

theorem rankWindow_some {length : Nat} {start stop : Int} {i j : Nat} (h : rankWindow length start stop = some (i, j)) :
    i < j ∧ j ≤ length := by
  simp only [rankWindow, Option.ite_none_left_eq_some, Option.some.injEq, Prod.mk.injEq] at h
  obtain ⟨hne, hi, hj⟩ := h
  split at hj <;> omega

theorem left_remove_rank {z : ZSet F} (h : z.Tight) (start stop : Int) : Left (z.remove_rank start stop) := by
  unfold remove_rank
  split
  · exact ⟨h, nofun⟩
  · rename_i i j hwindow
    exact left_delete h (rankWindow_some hwindow).1.le

theorem removeMemberLoop_size (min max : Option Bytes) (min_open max_open : Bool) (pairs kept : List (F × Value)) (removed : Nat)
    (scores : Dict Value F) :
    (removeMemberLoop min min_open max max_open pairs kept removed scores).2.size ≤ scores.size ∧
      (∀ out, (removeMemberLoop min min_open max max_open pairs kept removed scores).1 = some out →
        (removeMemberLoop min min_open max max_open pairs kept removed scores).2.size + kept.length + pairs.length =
          scores.size + out.1.length) ∧
      ((removeMemberLoop min min_open max max_open pairs kept removed scores).1 = none → pairs ≠ []) := by
  induction pairs generalizing kept removed scores with
  | nil =>
    refine ⟨le_rfl, fun out hout => ?_, nofun⟩
    cases hout
    rfl
  | cons p rest ih =>
    unfold removeMemberLoop
    split
    · exact ⟨le_rfl, nofun, fun _ => List.cons_ne_nil _ _⟩
    · obtain ⟨h1, h2, -⟩ := ih (kept ++ [p]) removed scores
      refine ⟨h1, fun out hout => ?_, fun _ => List.cons_ne_nil _ _⟩
      have := h2 out hout
      rw [List.length_append, List.length_singleton] at this
      rw [List.length_cons]
      omega
    · split
      · rename_i hm
        have hsize := Dict.size_erase hm
        obtain ⟨h1, h2, -⟩ := ih kept (removed + 1) (scores.erase p.2)
        refine ⟨by omega, fun out hout => ?_, fun _ => List.cons_ne_nil _ _⟩
        have := h2 out hout
        rw [List.length_cons]
        omega
      · exact ⟨le_rfl, nofun, fun _ => List.cons_ne_nil _ _⟩

theorem left_remove_member {z : ZSet F} (h : z.Tight) (min : Option Bytes) (min_open : Bool) (max : Option Bytes)
    (max_open : Bool) :
    Left (z.remove_member min min_open max max_open) := by
  obtain ⟨h1, h2, h3⟩ := removeMemberLoop_size min max min_open max_open z.sorted [] 0 z.scores
  unfold remove_member
  unfold Tight at h
  split
  · rename_i scores heq
    rw [heq] at h1 h3
    exact ⟨h1.trans h, fun _ => h3 rfl⟩
  · rename_i kept removed scores heq
    rw [heq] at h2
    have hsize := h2 _ rfl
    rw [List.length_nil] at hsize
    refine ⟨?_, nofun⟩
    unfold Tight
    dsimp only at hsize ⊢
    omega

variable [PyFloat F]

theorem left_remove_score {z : ZSet F} (h : z.Tight) (lo : F) (lo_open : Bool) (hi : F) (hi_open : Bool) :
    Left (z.remove_score lo lo_open hi hi_open) := by
  unfold remove_score
  dsimp only
  split
  · exact ⟨h, nofun⟩
  · rename_i hlt
    exact left_delete h (not_le.1 hlt).le

theorem delSorted_some {z z' : ZSet F} {pair : F × Value} (h : z.delSorted pair = some z') :
    z'.scores = z.scores ∧ z'.sorted.length + 1 = z.sorted.length ∧ ∀ p ∈ z'.sorted, p ∈ z.sorted := by
  unfold delSorted at h
  split at h
  · cases h
  · split at h
    · rename_i i _ hi
      cases h
      refine ⟨rfl, ?_, fun p hp => List.mem_of_mem_eraseIdx hp⟩
      dsimp only
      rw [List.length_eraseIdx_of_lt hi]
      omega
    · cases h

theorem left_remove {z : ZSet F} (h : z.Tight) (member : Value) (hhash : member.hashable = true) : Left (z.remove member) := by
  unfold remove
  rw [if_pos hhash]
  unfold Tight at h
  split
  · exact ⟨h, nofun⟩
  · rename_i score hscore
    have hm : z.scores.contains member = true := Option.isSome_iff_exists.2 ⟨score, hscore⟩
    have hsize := Dict.size_erase hm
    dsimp only
    split
    · refine ⟨by unfold Tight; dsimp only; omega, fun _ hnil => ?_⟩
      change z.sorted = [] at hnil
      rw [hnil, List.length_nil] at h
      omega
    · rename_i z'' hz
      obtain ⟨h1, h2, -⟩ := delSorted_some hz
      refine ⟨?_, nofun⟩
      unfold Tight
      rw [h1]
      dsimp only at h2 ⊢
      omega

/-- Adding a member to the list and setting its score. -/
theorem insort_some {z z' : ZSet F} {member : Value} {score : F} {b : Bool} (h : z.insort member score = (some b, z')) :
    z'.scores = z.scores.set member score ∧ z'.sorted.length = z.sorted.length + 1 := by
  unfold insort at h
  split at h
  · cases h
  · rename_i i hi
    cases h
    exact ⟨rfl, List.length_insertIdx_of_le_length (bisect_le hi) _⟩

/-- After a member was added there is one, and there are no more scores than members. -/
theorem add_some {z z' : ZSet F} (hz : z.Tight) {member : Value} {score : F} {b : Bool} (h : z.add member score = (some b, z')) :
    z'.Tight ∧ z'.sorted ≠ [] := by
  suffices hlen : z'.Tight ∧ 0 < z'.sorted.length from ⟨hlen.1, List.ne_nil_of_length_pos hlen.2⟩
  unfold Tight at hz ⊢
  unfold add at h
  split at h
  · split at h
    · rename_i hscore
      obtain ⟨h1, h2⟩ := insort_some h
      have hnew : z.scores.contains member = false := by
        rw [Dict.contains, show z.scores.get member = none from hscore]
        rfl
      rw [h1, Dict.size_set, hnew, h2]
      simp
      omega
    · rename_i current hscore
      have hm : z.scores.contains member = true := Option.isSome_iff_exists.2 ⟨current, hscore⟩
      split at h
      · cases h
        exact ⟨hz, Tight.pos hz hm⟩
      · split at h
        · cases h
        · rename_i z'' hz''
          obtain ⟨h1, h2⟩ := insort_some h
          obtain ⟨h3, h4, -⟩ := delSorted_some hz''
          rw [h1, h3, Dict.size_set, hm, h2]
          simp
          omega
  · cases h

/-- The members in order are byte strings. -/
def BytesOnly (z : ZSet F) : Prop := ∀ p ∈ z.sorted, p.2.IsBytes

theorem pairLt?_ne_none {a b : F × Value} (ha : a.2.IsBytes) (hb : b.2.IsBytes) : pairLt? a b ≠ none := by
  obtain ⟨x, hx⟩ := (Value.isBytes_iff _).1 ha
  obtain ⟨y, hy⟩ := (Value.isBytes_iff _).1 hb
  unfold pairLt?
  rw [hx, hy]
  split
  · split
    · exact Option.some_ne_none _
    · exact Option.some_ne_none _
  · exact Option.some_ne_none _

theorem insort_ne_none {z : ZSet F} (hz : z.BytesOnly) {member : Value} (hm : member.IsBytes) (score : F) :
    (z.insort member score).1 ≠ none := by
  unfold insort
  split
  · rename_i hnone
    refine absurd hnone (bisectLoop_isSome (fun y hy h => ?_) _ _ _)
    exact pairLt?_ne_none (a := (score, member)) hm (hz y hy) (Option.map_eq_none_iff.1 h)
  · exact Option.some_ne_none _

/-- Comparing byte strings never raises, so a member that is a byte string is added to byte strings, or nothing changes. -/
theorem add_none {z z' : ZSet F} (hz : z.BytesOnly) {member : Value} (hm : member.IsBytes) {score : F}
    (h : z.add member score = (none, z')) : z' = z := by
  unfold add at h
  split at h
  · split at h
    · exact absurd (congrArg Prod.fst h) (insort_ne_none hz hm score)
    · split at h
      · cases h
      · split at h
        · cases h
          rfl
        · rename_i z'' hz''
          have hbytes : z''.BytesOnly := fun p hp => hz p ((delSorted_some hz'').2.2 p hp)
          exact absurd (congrArg Prod.fst h) (insort_ne_none hbytes hm score)
  · cases h
    rfl

end ZSet

end Kagni
