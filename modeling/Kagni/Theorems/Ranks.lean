import Kagni.Lemmas.ZsetRuns

/-!
# Ranges of ranks

Reading, removing and popping by rank go through one rule for negative and overlong ranges. On a live key that holds a sorted
set in order they agree: what is removed is what would have been read, and what is popped and what is left is the whole set.
-/

namespace Kagni

open Lib Lib.Prog

variable {F : Type} {ctx : Ctx} {k : KState F} {key : Bytes} {z : ZSet F}

/-! ## Windows -/

theorem rankWindow_all {length : Nat} (h : length ≠ 0) : ZSet.rankWindow length 0 (-1) = some (0, length) := by
  have hpast : ¬((-1 : Int) + length ≥ length) := by omega
  unfold ZSet.rankWindow
  simp only [lt_irrefl, if_false, show (-1 : Int) < 0 by decide, if_true, if_neg hpast]
  rw [if_neg (by omega)]
  exact congrArg some (Prod.ext rfl (by dsimp only; omega))

/-- The first ranks. -/
theorem rankWindow_first {length n : Nat} (h : length ≠ 0) (hn : 0 < n) :
    ZSet.rankWindow length 0 ((n : Int) - 1) = some (0, min n length) := by
  have hstop : ¬((n : Int) - 1 < 0) := by omega
  unfold ZSet.rankWindow
  simp only [lt_irrefl, if_false, if_neg hstop]
  rw [if_neg (by omega)]
  refine congrArg some (Prod.ext rfl ?_)
  dsimp only
  split
  · omega
  · omega

/-- The last ranks. -/
theorem rankWindow_last {length n : Nat} (h : length ≠ 0) (hn : 0 < n) :
    ZSet.rankWindow length (-(n : Int)) (-1) = some (length - n, length) := by
  have hstart : -(n : Int) < 0 := by omega
  have hpast : ¬((-1 : Int) + length ≥ length) := by omega
  unfold ZSet.rankWindow
  simp only [if_pos hstart, show (-1 : Int) < 0 by decide, if_true, if_neg hpast]
  by_cases hn' : -(n : Int) + length < 0
  · simp only [if_pos hn']
    rw [if_neg (by omega)]
    exact congrArg some (Prod.ext (by dsimp only; omega) (by dsimp only; omega))
  · simp only [if_neg hn']
    rw [if_neg (by omega)]
    exact congrArg some (Prod.ext (by dsimp only; omega) (by dsimp only; omega))

theorem sliceRanks_nil {α : Type} (start stop : Int) : sliceRanks ([] : List α) start stop = [] := by
  unfold sliceRanks
  split
  · rfl
  · simp

theorem sliceRanks_all {α : Type} (l : List α) : sliceRanks l 0 (-1) = l := by
  cases l with
  | nil => exact sliceRanks_nil ..
  | cons x l =>
    have hlen : (x :: l).length ≠ 0 := Nat.succ_ne_zero _
    unfold sliceRanks
    rw [rankWindow_all hlen]
    exact (List.drop_zero ..).trans (List.take_length ..)

theorem sliceRanks_first {α : Type} (l : List α) {n : Nat} (hn : 0 < n) : sliceRanks l 0 ((n : Int) - 1) = l.take n := by
  cases l with
  | nil => rw [sliceRanks_nil, List.take_nil]
  | cons x l =>
    have hlen : (x :: l).length ≠ 0 := Nat.succ_ne_zero _
    unfold sliceRanks
    rw [rankWindow_first hlen hn]
    exact (List.drop_zero ..).trans (List.take_eq_take_min ..).symm

theorem sliceRanks_last {α : Type} (l : List α) {n : Nat} (hn : 0 < n) :
    sliceRanks l (-(n : Int)) (-1) = l.drop (l.length - n) := by
  cases l with
  | nil => rw [sliceRanks_nil, List.drop_nil]
  | cons x l =>
    have hlen : (x :: l).length ≠ 0 := Nat.succ_ne_zero _
    unfold sliceRanks
    rw [rankWindow_last hlen hn]
    dsimp only
    rw [List.take_length]

section Commands

variable [PyFloat F]

/-- A range command in its rank form. -/
theorem zrangeWith_rank (hz : HoldsZset ctx k key z) {a b : Value} {start stop : Int} (ha : toLL a = some start)
    (hb : toLL b = some stop)
    (rev withscores back : Bool) : zrangeWith (.bytes key) a b ⟨.rank, rev, withscores, none⟩ back ctx k =
      (.ok (_interleave (sliceRanks (if back then z.sorted.reverse else z.sorted) start stop) withscores), k) := by
  have hbounds : (_parse_bounds a b .rank rev : K F _) ctx k = (.ok (.rank start stop, false), k) := by
    unfold _parse_bounds
    rw [ha, hb]
    cases rev <;> rfl
  unfold zrangeWith
  rw [bind_ok ctx k hbounds]
  dsimp only
  rw [bind_ok ctx k (zset_run hz)]
  rfl

theorem ZRANGE_rank (hz : HoldsZset ctx k key z) {a b : Value} {start stop : Int} (ha : toLL a = some start)
    (hb : toLL b = some stop) :
    ZRANGE (.bytes key) a b [] ctx k = (.ok (_interleave (sliceRanks z.sorted start stop) false), k) :=
  zrangeWith_rank hz ha hb false false false

theorem ZREVRANGE_rank (hz : HoldsZset ctx k key z) {a b : Value} {start stop : Int} (ha : toLL a = some start)
    (hb : toLL b = some stop) :
    ZREVRANGE (.bytes key) a b [] ctx k = (.ok (_interleave (sliceRanks z.sorted.reverse start stop) false), k) :=
  zrangeWith_rank hz ha hb true false true

/-- The whole set with its scores. -/
theorem ZRANGE_all (hz : HoldsZset ctx k key z) :
    ZRANGE (.bytes key) (.bytes (bs "0")) (.bytes (bs "-1")) [.bytes (bs "WITHSCORES")] ctx k =
      (.ok (_interleave z.sorted true), k) := by
  have hoptions : (_parse_range_options [.bytes (bs "WITHSCORES")] : K F _) ctx k = (.ok ⟨.rank, false, true, none⟩, k) := by
    have hupper : (upperArg (.bytes (bs "WITHSCORES")) : K F _) ctx k = (.ok (bs "WITHSCORES"), k) :=
      congrArg (fun b => (Except.ok b, k)) (by decide +kernel)
    have hby : ¬(bs "WITHSCORES" = bs "BYSCORE" ∨ bs "WITHSCORES" = bs "BYLEX") := by decide +kernel
    have hrev : bs "WITHSCORES" ≠ bs "REV" := by decide +kernel
    unfold _parse_range_options
    rw [rangeOptions_cons, bind_assoc, bind_ok ctx k hupper]
    simp only [hby, hrev, and_false, if_false, and_self, if_true]
    rfl
  unfold ZRANGE
  have hstart : toLL (.bytes (bs "0")) = some 0 := by decide +kernel
  have hstop : toLL (.bytes (bs "-1")) = some (-1) := by decide +kernel
  rw [bind_ok ctx k hoptions, zrangeWith_rank hz hstart hstop, if_neg Bool.false_ne_true, sliceRanks_all]

variable [PyFloat.Ordered F]

/-! ## Removals and ranks -/

/-- A range of ranks is removed and counted exactly if it is empty, or its event can be published. -/
theorem ZREMRANGEBYRANK_iff (hz : HoldsZset ctx k key z) (hvalid : z.Valid) (start stop : Int) :
    (∃ k', ZREMRANGEBYRANK (.bytes key) start stop ctx k = (.ok (.int (sliceRanks z.sorted start stop).length), k') ∧
      Leaves k k' key (z.sorted.filter fun p => decide (p.2 ∉ (sliceRanks z.sorted start stop).map Prod.snd))) ↔
        sliceRanks z.sorted start stop = [] ∨ ctx.EventReturns .zremrangebyrank := by
  obtain ⟨z', heq, hvalid', hsorted⟩ := hvalid.remove_rank start stop
  have hrun : ZREMRANGEBYRANK (.bytes key) start stop ctx k =
      afterRemoval (.bytes key) z' (sliceRanks z.sorted start stop).length .zremrangebyrank ctx (k.putZset key z') := by
    unfold ZREMRANGEBYRANK
    rw [bind_ok ctx k (zset_run hz)]
    dsimp only
    rw [heq, bind_ok ctx k (inPlace_run key _ z' k)]
  rw [hrun, ← hsorted, after_removal_iff hz _ _ hvalid', List.length_eq_zero_iff]

theorem zrank_run (hz : HoldsZset ctx k key z) (hvalid : z.Valid) (member : Bytes) :
    (∃ i : Nat, z.members[i]? = some (.bytes member) ∧ ∀ reverse, _zrank (.bytes key) (.bytes member) [] reverse ctx k =
        (.ok (.int (if reverse then (z.size : Int) - 1 - i else i)), k)) ∨
      .bytes member ∉ z.members ∧ ∀ reverse, _zrank (.bytes key) (.bytes member) [] reverse ctx k = (.ok .NIL, k) := by
  have hrun (rank : Option Nat) (hrank : z.rank (.bytes member) = some rank) (reverse : Bool) :
      _zrank (.bytes key) (.bytes member) [] reverse ctx k =
        (.ok (rank.elim .NIL fun i => .int (if reverse then (z.size : Int) - 1 - i else i)), k) := by
    unfold _zrank
    rw [bind_ok ctx k (show flagOptions (F := F) (bs "WITHSCORE") [] ctx k = (.ok (), k) from rfl), bind_ok ctx k (zset_run hz)]
    dsimp only
    rw [hrank, bind_ok ctx k (show orFail (some rank) ctx k = (.ok rank, k) from rfl)]
    cases rank <;> rfl
  cases hscore : z.score (.bytes member) with
  | none =>
    refine .inr ⟨fun hmem => ?_, hrun none ?_⟩
    · have := hvalid.mem_members.1 hmem
      rw [Dict.contains, show z.scores.get (.bytes member) = none from hscore] at this
      cases this
    · have hhash : (Value.bytes member).hashable = true := rfl
      unfold ZSet.rank
      rw [if_pos hhash, hscore]
  | some score =>
    obtain ⟨hrank, hget⟩ := hvalid.rank hscore
    refine .inl ⟨_, ?_, hrun _ hrank⟩
    rw [ZSet.members, List.getElem?_map]
    exact congrArg (Option.map Prod.snd) hget

/-! ## Popping -/

/-- The end of a pop: its event, the end of an emptied key, and the event of that. -/
def popEnd (key : Value) (event : Event) (z : ZSet F) (reply : Reply) : K F Reply := do
  _after_write key event
  dropEmptyZset key z
  if !(← is_live key) then _notify key .del
  return reply

omit [PyFloat.Ordered F] in
/-- A key is live exactly if something is left of it. -/
theorem is_live_left (hz : HoldsZset ctx k key z) {left : List (F × Value)} (h : Leaves k k' key left) :
    is_live (.bytes key) ctx k' = (.ok (decide (left ≠ [])), k') := by
  unfold is_live
  rw [bind_entry rfl]
  by_cases hnil : left = []
  · rw [h.gone hnil, decide_eq_false (not_not.2 hnil)]
    rfl
  · obtain ⟨e, z', hget, hget', -⟩ := h.rest hnil
    obtain ⟨e', hget'', hlive, -⟩ := hz
    rw [hget] at hget''
    cases hget''
    rw [hget', decide_eq_true hnil]
    exact congrArg (fun b => (Except.ok b, k')) hlive

omit [PyFloat.Ordered F] in
/-- A pop comes to its end exactly if its event can be published, and that of the end of the key when nothing is left. -/
theorem popEnd_iff (hz : HoldsZset ctx k key z) {z' : ZSet F} (hvalid : z'.Valid)
    (hput : k₁.store.storage = (k.putZset key z').store.storage)
    (event : Event) (reply : Reply) :
    (∃ k', popEnd (.bytes key) event z' reply ctx k₁ = (.ok reply, k') ∧ Leaves k k' key z'.sorted) ↔
      ctx.Tells event (z'.sorted = []) := by
  unfold popEnd
  by_cases hevent : ctx.EventReturns event
  · obtain ⟨k₂, hwrite, hsame⟩ := after_write_run hevent key k₁
    have hleaves := leaves_put hz hvalid (hsame.trans hput)
    rw [bind_ok ctx k₁ hwrite, bind_ok ctx k₂ (drop_empty_run ctx key z' k₂), bind_ok ctx _ (is_live_left hz hleaves)]
    generalize (if z'.sorted = [] then { k₂ with store.storage := k₂.store.storage.erase (.bytes key) } else k₂) = k₃ at hleaves ⊢
    by_cases hnil : z'.sorted = []
    · rw [if_pos (by simp [hnil])]
      by_cases hdel : ctx.EventReturns .del
      · obtain ⟨k₄, hnotify, hsame'⟩ := notify_run hdel key k₃
        refine iff_of_true ⟨k₄, ?_, hleaves.congr (congrArg Store.storage hsame')⟩ ⟨hevent, fun _ => hdel⟩
        rw [bind_ok ctx k₃ hnotify]
        rfl
      · obtain ⟨k₄, hnotify, -⟩ := notify_throws hdel key k₃
        rw [bind_error ctx k₃ hnotify]
        exact iff_of_false (by rintro ⟨k', hrun, -⟩; cases hrun) fun h => hdel (h.2 hnil)
    · rw [if_neg (by simp [hnil])]
      exact iff_of_true ⟨k₃, rfl, hleaves⟩ ⟨hevent, fun h => absurd h hnil⟩
  · obtain ⟨k₂, hwrite, -⟩ := after_write_throws hevent key k₁
    rw [bind_error ctx k₁ hwrite]
    exact iff_of_false (by rintro ⟨k', hrun, -⟩; cases hrun) fun h => hevent h.1

/-- A pop takes the pairs of a range of ranks. -/
theorem zpop_run (hz : HoldsZset ctx k key z) (hvalid : z.Valid) {n : Nat} (hn : 0 < n) (left : Bool) :
    ∃ z' k₁, z'.Valid ∧ z'.sorted = (if left then z.sorted.drop n else z.sorted.take (z.sorted.length - n)) ∧
      k₁.store.storage = (k.putZset key z').store.storage ∧
      _zpop (.bytes key) (some (n : Int)) left ctx k = popEnd (.bytes key) (if left then .zpopmin else .zpopmax) z'
        (_interleave (if left then z.sorted.take n else (z.sorted.drop (z.sorted.length - n)).reverse) true) ctx k₁ := by
  have hrange : sliceRanks z.sorted (if left then (0, (n : Int) - 1) else (-(n : Int), -1)).1
    (if left then (0, (n : Int) - 1) else (-(n : Int), -1)).2 =
      if left then z.sorted.take n else z.sorted.drop (z.sorted.length - n) := by
    cases left with
    | true => exact sliceRanks_first z.sorted hn
    | false => exact sliceRanks_last z.sorted hn
  have hrest : (z.sorted.filter fun p => decide
    (p.2 ∉ (if left then z.sorted.take n else z.sorted.drop (z.sorted.length - n)).map Prod.snd)) =
      if left then z.sorted.drop n else z.sorted.take (z.sorted.length - n) := by
    cases left with
    | true =>
      have hslice := hvalid.filter_slice (Nat.zero_le n)
      rw [List.take_zero, List.nil_append, List.drop_zero] at hslice
      exact hslice.symm
    | false =>
      have hslice := hvalid.filter_slice (Nat.sub_le z.sorted.length n)
      rw [List.drop_length, List.append_nil, List.take_length] at hslice
      exact hslice.symm
  generalize hstart : (if left then (0, (n : Int) - 1) else (-(n : Int), -1)) = range at hrange
  generalize htaken : (if left then z.sorted.take n else z.sorted.drop (z.sorted.length - n)) = taken at hrange hrest
  -- an empty range leaves the sorted set as it was
  obtain ⟨z', k₁, hstep, hvalid', hsorted, hput⟩ : ∃ z' k₁,
      (if taken = [] then pure z else do return (← inPlace (.bytes key) (z.remove_rank range.1 range.2)).2 : K F (ZSet F))
        ctx k = (.ok z', k₁) ∧
        z'.Valid ∧ z'.sorted = (if left then z.sorted.drop n else z.sorted.take (z.sorted.length - n)) ∧
        k₁.store.storage = (k.putZset key z').store.storage := by
    obtain ⟨z', heq, hvalid', hsorted⟩ := hvalid.remove_rank range.1 range.2
    rw [hrange] at heq hsorted
    split
    · rename_i hnil
      refine ⟨z, k, rfl, hvalid, ?_, hz.put_self.symm⟩
      rw [← hrest, hnil]
      exact (List.filter_eq_self.2 fun p _ => by simp).symm
    · refine ⟨z', k.putZset key z', ?_, hvalid', hsorted.trans hrest, rfl⟩
      rw [heq]
      rfl
  refine ⟨z', k₁, hvalid', hsorted, hput, ?_⟩
  have hnonneg : ¬((n : Int) < 0) := by omega
  have hsome : (some (n : Int) = some 0) ↔ n = 0 := by simp
  unfold _zpop
  simp only [Option.any_some, decide_eq_true_eq, if_neg hnonneg]
  rw [bind_ok ctx k (zset_run hz)]
  dsimp only
  rw [if_neg (mt hsome.1 hn.ne')]
  simp only [Option.getD_some, hstart, hrange]
  have hreply : (if left then taken else taken.reverse) = if left then z.sorted.take n
      else (z.sorted.drop (z.sorted.length - n)).reverse := by
    rw [← htaken]
    cases left <;> rfl
  rw [bind_ok ctx k hstep, hreply]
  rfl

/-- A pop replies the pairs it takes and leaves the others exactly if its events can be published. -/
theorem pop_iff (hz : HoldsZset ctx k key z) (hvalid : z.Valid) {n : Nat} (hn : 0 < n) (left : Bool) :
    (∃ k', _zpop (.bytes key) (some (n : Int)) left ctx k =
        (.ok (_interleave (if left then z.sorted.take n else (z.sorted.drop (z.sorted.length - n)).reverse) true), k') ∧
          (n = 0 → k' = k) ∧
      (n ≠ 0 ∨ z.sorted ≠ [] → Leaves k k' key (if left then z.sorted.drop n else z.sorted.take (z.sorted.length - n)))) ↔
        n = 0 ∨ ctx.Tells (if left then .zpopmin else .zpopmax) (z.sorted.length ≤ n) := by
  obtain ⟨z', k₁, hvalid', hsorted, hput, hrun⟩ := zpop_run hz hvalid hn left
  have hnil : z'.sorted = [] ↔ z.sorted.length ≤ n := by
    rw [hsorted]
    cases left with
    | true => exact List.drop_eq_nil_iff
    | false =>
      rw [if_neg Bool.false_ne_true, ← List.length_eq_zero_iff, List.length_take]
      omega
  rw [hrun, ← hnil, or_iff_right hn.ne', ← popEnd_iff hz hvalid' hput, ← hsorted]
  refine exists_congr ?_
  intro k'
  refine and_congr_right ?_
  intro _
  exact ⟨fun h => h.2 (.inl hn.ne'), fun h => ⟨fun h0 => absurd h0 hn.ne', fun _ => h⟩⟩

/-! ## Agreement -/

end Commands

end Kagni
