import Kagni.Commands.Basic
import Kagni.Lemmas.Content
import Kagni.Lib.Subsequence

/-!
# LCS finds a longest common subsequence

The table of lengths is that of the longest common subsequences of the prefixes, and the walk back through the directions
spells one. The index reply comes from a second walk, which matches the rightmost places of its bytes.
-/

namespace Kagni

open Lib Lib.Prog

variable {F : Type}

/-! ## The table -/

/-- A cell of the table: the length, and a direction in which a longest common subsequence goes on. -/
structure LcsCell (a : Bytes) (x : UInt8) (b : Bytes) (y : UInt8) (v d : Nat) : Prop where
  length : IsGreatest (commonLengths (a ++ [x]) (b ++ [y])) v
  diagonal : d = 1 ↔ x = y
  up : d = 2 → IsGreatest (commonLengths a (b ++ [y])) v
  left : d ≠ 1 → d ≠ 2 → IsGreatest (commonLengths (a ++ [x]) b) v

/-- The columns of a row after the bytes `done`. -/
def LcsRow (a done b : Bytes) (row : List Nat) : Prop :=
  ∀ k ≤ b.length, ∃ v, row[k]? = some v ∧ IsGreatest (commonLengths a (done ++ b.take k)) v

/-- Every direction is one of a cell. -/
def LcsDirs (a b : Bytes) (dirs : List (List Nat)) : Prop :=
  dirs.length = a.length + 1 ∧ ∀ i j x y, a[i]? = some x → b[j]? = some y →
    ∃ v d, (dirs[i + 1]?).bind (·[j + 1]?) = some d ∧ LcsCell (a.take i) x (b.take j) y v d

theorem lcsCell_spec (prefer_up : Bool) {a b : Bytes} {x y : UInt8} {diag up left : Nat}
    (hdiag : IsGreatest (commonLengths a b) diag)
    (hup : IsGreatest (commonLengths a (b ++ [y])) up) (hleft : IsGreatest (commonLengths (a ++ [x]) b) left) :
    LcsCell a x b y (if x = y then (diag + 1, 1) else if up > left ∨ (prefer_up ∧ up = left) then (up, 2) else (left, 3)).1
      (if x = y then (diag + 1, 1) else if up > left ∨ (prefer_up ∧ up = left) then (up, 2) else (left, 3)).2 := by
  by_cases hxy : x = y
  · subst hxy
    rw [if_pos rfl]
    exact ⟨isGreatest_concat_self hdiag x, by simp, nofun, fun h => absurd rfl h⟩
  · have hmax := isGreatest_concat_of_ne hxy hup hleft
    rw [if_neg hxy]
    split
    · rename_i htake
      rw [max_eq_left (by omega)] at hmax
      exact ⟨hmax, by simp [hxy], fun _ => hup, fun _ h => absurd rfl h⟩
    · rename_i htake
      rw [max_eq_right (by omega)] at hmax
      exact ⟨hmax, by simp [hxy], nofun, fun _ _ => hleft⟩

/-- A row is computed from the one above it. -/
theorem lcsRow_spec (prefer_up : Bool) {a done b : Bytes} {x : UInt8} {prev : List Nat} {left : Nat}
    (hprev : LcsRow a done b prev)
    (hleft : IsGreatest (commonLengths (a ++ [x]) done) left) (k : Nat) {y : UInt8} (hy : b[k]? = some y) :
    ∃ v d, (lcsRow prefer_up x b prev left)[k]? = some (v, d) ∧ LcsCell a x (done ++ b.take k) y v d := by
  induction b generalizing done prev left k with
  | nil => cases hy
  | cons z b ih =>
    obtain ⟨diag, hdiag, hdiag'⟩ := hprev 0 (Nat.zero_le _)
    obtain ⟨up, hup, hup'⟩ := hprev 1 (by simp)
    obtain ⟨prev, rfl⟩ : ∃ rest, prev = diag :: up :: rest := by
      rcases prev with _ | ⟨d, _ | ⟨u, rest⟩⟩
      · cases hdiag
      · cases hup
      · obtain rfl := Option.some.inj hdiag
        obtain rfl := Option.some.inj hup
        exact ⟨rest, rfl⟩
    rw [List.take_zero, List.append_nil] at hdiag'
    have hcell := lcsCell_spec prefer_up hdiag' hup' hleft
    rw [lcsRow]
    cases k with
    | zero =>
      obtain rfl := Option.some.inj hy
      refine ⟨_, _, rfl, ?_⟩
      rw [List.take_zero, List.append_nil]
      exact hcell
    | succ k =>
      have hrow : LcsRow a (done ++ [z]) b (up :: prev) := by
        intro k hk
        obtain ⟨v, hv, hv'⟩ := hprev (k + 1) (Nat.succ_le_succ hk)
        exact ⟨v, hv, by rwa [List.append_assoc]⟩
      obtain ⟨v, d, hget, hcell⟩ := ih hrow hcell.length k hy
      refine ⟨v, d, hget, ?_⟩
      rw [List.append_assoc] at hcell
      exact hcell

/-- The table over all rows. -/
theorem lcsTable_spec (prefer_up : Bool) {done a b : Bytes} {prev : List Nat} {dirs : List (List Nat)}
    (hprev : LcsRow done [] b prev)
    (hdirs : LcsDirs done b dirs) :
    LcsRow (done ++ a) [] b (lcsTable prefer_up b a prev dirs).1 ∧
      LcsDirs (done ++ a) b (lcsTable prefer_up b a prev dirs).2 := by
  induction a generalizing done prev dirs with
  | nil =>
    rw [List.append_nil]
    exact ⟨hprev, hdirs⟩
  | cons x a ih =>
    have hcells := fun k y hy => lcsRow_spec prefer_up (x := x) hprev (isGreatest_nil_right (done ++ [x])) k (y := y) hy
    have hrow : LcsRow (done ++ [x]) [] b (0 :: (lcsRow prefer_up x b prev 0).map Prod.fst) := by
      intro k hk
      cases k with
      | zero => exact ⟨0, rfl, isGreatest_nil_right _⟩
      | succ k =>
        obtain ⟨v, d, hget, hcell⟩ := hcells k _ (List.getElem?_eq_getElem hk)
        refine ⟨v, ?_, ?_⟩
        · rw [List.getElem?_cons_succ, List.getElem?_map, hget]
          rfl
        · rw [take_concat (List.getElem?_eq_getElem hk)]
          exact hcell.length
    have hnew : LcsDirs (done ++ [x]) b (dirs ++ [0 :: (lcsRow prefer_up x b prev 0).map Prod.snd]) := by
      refine ⟨by rw [List.length_append, List.length_append, hdirs.1]; rfl, fun i j z y hz hy => ?_⟩
      rcases lt_or_ge i done.length with hi | hi
      · rw [List.getElem?_append_left hi] at hz
        rw [List.getElem?_append_left (by rw [hdirs.1]; omega), List.take_append_of_le_length (Nat.le_of_lt hi)]
        exact hdirs.2 i j z y hz hy
      · obtain rfl : i = done.length := by
          have hlen := (List.getElem?_eq_some_iff.1 hz).1
          rw [List.length_append, List.length_singleton] at hlen
          omega
        rw [List.getElem?_concat_length] at hz
        obtain rfl := Option.some.inj hz
        obtain ⟨v, d, hget, hcell⟩ := hcells j y hy
        refine ⟨v, d, ?_, ?_⟩
        · rw [← hdirs.1, List.getElem?_concat_length, Option.bind_some, List.getElem?_cons_succ, List.getElem?_map, hget]
          rfl
        · rw [List.take_left']
          · exact hcell
          · rfl
    have hrest := ih hrow hnew
    rw [List.append_assoc] at hrest
    exact hrest

/-! ## The walk back -/

/-- The bytes of a run. -/
def runText (a : Bytes) (run : Option (Nat × Nat × Nat)) : Bytes :=
  (run.map fun r => (a.take (r.1 + 1)).drop (r.1 + 1 - r.2.2)).getD []

/-- A run starts where the walk stands. -/
def RunAt (i j : Nat) (run : Option (Nat × Nat × Nat)) : Prop := ∀ r ∈ run, i + r.2.2 = r.1 + 1 ∧ j + r.2.2 = r.2.1 + 1

theorem runAt_none (i j : Nat) : RunAt i j none := fun r hr => by cases hr

theorem lcsText_append (a : Bytes) (found : List LcsMatch) (run : Option (Nat × Nat × Nat)) :
    lcsText a (found ++ (run.map lcsMatch).toList) = runText a run ++ lcsText a found := by
  cases run with
  | none => rw [Option.map_none, Option.toList_none, List.append_nil]; rfl
  | some r => rw [Option.map_some, Option.toList_some, lcsText, List.reverse_append]; rfl

/-- A run that goes on takes one more byte in front. -/
theorem runText_extend {a : Bytes} {x : UInt8} {i j : Nat} {run : Option (Nat × Nat × Nat)} (hx : a[i]? = some x)
    (hrun : RunAt (i + 1) (j + 1) run) :
    RunAt i j (some ((run.map fun r => (r.1, r.2.1, r.2.2 + 1)).getD (i, j, 1))) ∧
      runText a (some ((run.map fun r => (r.1, r.2.1, r.2.2 + 1)).getD (i, j, 1))) = x :: runText a run := by
  obtain ⟨hlt, hget⟩ := List.getElem?_eq_some_iff.1 hx
  cases run with
  | none =>
    refine ⟨fun r hr => ?_, ?_⟩
    · obtain rfl := Option.some.inj hr
      exact ⟨rfl, rfl⟩
    · change (a.take (i + 1)).drop (i + 1 - 1) = [x]
      rw [take_concat hx, Nat.add_sub_cancel]
      exact List.drop_left' (List.length_take_of_le (Nat.le_of_lt hlt))
  | some r =>
    obtain ⟨hi, hj⟩ := hrun r rfl
    refine ⟨fun r' hr' => ?_, ?_⟩
    · obtain rfl := Option.some.inj hr'
      exact ⟨by simp only [Option.map_some, Option.getD_some]; omega, by simp only [Option.map_some, Option.getD_some]; omega⟩
    · change (a.take (r.1 + 1)).drop (r.1 + 1 - (r.2.2 + 1)) = x :: (a.take (r.1 + 1)).drop (r.1 + 1 - r.2.2)
      have hstart : r.1 + 1 - (r.2.2 + 1) = i := by omega
      have hnext : r.1 + 1 - r.2.2 = i + 1 := by omega
      have hlen : i < (a.take (r.1 + 1)).length := by
        rw [List.length_take]
        omega
      rw [hstart, hnext, List.drop_eq_getElem_cons hlen, List.getElem_take, hget]

/-- The walk spells a longest common subsequence of the prefixes where it starts, in front of the run and of what it has found. -/
theorem lcsWalk_spec {a b : Bytes} {dirs : List (List Nat)} (hdirs : LcsDirs a b dirs) {fuel i j : Nat} (hfuel : i + j ≤ fuel)
    (hi : i ≤ a.length)
    (hj : j ≤ b.length) {run : Option (Nat × Nat × Nat)} (hrun : RunAt i j run) (found : List LcsMatch) :
    ∃ c : Bytes, c.Sublist (a.take i) ∧ c.Sublist (b.take j) ∧ IsGreatest (commonLengths (a.take i) (b.take j)) c.length ∧
      lcsText a (lcsWalk dirs fuel i j run found) = c ++ runText a run ++ lcsText a found := by
  induction fuel generalizing i j run found with
  | zero =>
    obtain rfl : i = 0 := by omega
    refine ⟨[], List.nil_sublist _, List.nil_sublist _, isGreatest_nil_left _, ?_⟩
    rw [lcsWalk]
    · exact lcsText_append a found run
    · omega
  | succ fuel ih =>
    rcases Nat.eq_zero_or_pos i with rfl | hipos
    · refine ⟨[], List.nil_sublist _, List.nil_sublist _, isGreatest_nil_left _, ?_⟩
      rw [lcsWalk]
      · exact lcsText_append a found run
      · omega
    rcases Nat.eq_zero_or_pos j with rfl | hjpos
    · refine ⟨[], List.nil_sublist _, List.nil_sublist _, isGreatest_nil_right _, ?_⟩
      rw [lcsWalk]
      · exact lcsText_append a found run
      · omega
    obtain ⟨i, rfl⟩ := Nat.exists_eq_add_of_le' hipos
    obtain ⟨j, rfl⟩ := Nat.exists_eq_add_of_le' hjpos
    obtain ⟨x, hx⟩ : ∃ x, a[i]? = some x := ⟨_, List.getElem?_eq_getElem hi⟩
    obtain ⟨y, hy⟩ : ∃ y, b[j]? = some y := ⟨_, List.getElem?_eq_getElem hj⟩
    obtain ⟨v, d, hd, hcell⟩ := hdirs.2 i j x y hx hy
    rw [lcsWalk, hd, Option.getD_some, take_concat hx, take_concat hy]
    by_cases hdiag : d = 1
    · obtain rfl := hcell.diagonal.1 hdiag
      obtain ⟨hrun', htext⟩ := runText_extend hx hrun
      obtain ⟨c, hca, hcb, hmax, hwalk⟩ := ih (by omega) (by omega) (by omega) hrun' found
      refine ⟨c ++ [x], hca.append_right [x], hcb.append_right [x], ?_, ?_⟩
      · rw [List.length_append]
        exact isGreatest_concat_self hmax x
      · rw [if_pos hdiag, hwalk, htext]
        simp
    · rw [if_neg hdiag]
      dsimp only
      have hclose : ∀ c : Bytes, c ++ runText a none ++ lcsText a (found ++ (run.map lcsMatch).toList) = c ++ runText a run ++
          lcsText a found := by
        intro c
        rw [lcsText_append, runText, Option.map_none, Option.getD_none, List.append_nil, List.append_assoc]
      by_cases hup : d = 2
      · obtain ⟨c, hca, hcb, hmax, hwalk⟩ :=
          ih (by omega) (by omega) hj (runAt_none i (j + 1)) (found ++ (run.map lcsMatch).toList)
        rw [take_concat hy] at hcb hmax
        refine ⟨c, hca.trans (List.sublist_append_left ..), hcb, ?_, ?_⟩
        · rw [hmax.unique (hcell.up hup)]
          exact hcell.length
        · rw [if_pos hup, hwalk, hclose]
      · obtain ⟨c, hca, hcb, hmax, hwalk⟩ :=
          ih (by omega) hi (by omega) (runAt_none (i + 1) j) (found ++ (run.map lcsMatch).toList)
        rw [take_concat hx] at hca hmax
        refine ⟨c, hca, hcb.trans (List.sublist_append_left ..), ?_, ?_⟩
        · rw [hmax.unique (hcell.left hdiag hup)]
          exact hcell.length
        · rw [if_neg hup, hwalk, hclose]

/-- What `_lcs_runs` finds: the greatest length, and runs that spell a common subsequence of that length. -/
theorem lcs_runs_spec (a b : Bytes) (prefer_up : Bool) :
    IsGreatest (commonLengths a b) (_lcs_runs a b prefer_up).1 ∧ (lcsText a (_lcs_runs a b prefer_up).2).Sublist a ∧
      (lcsText a (_lcs_runs a b prefer_up).2).Sublist b ∧ (lcsText a (_lcs_runs a b prefer_up).2).length =
        (_lcs_runs a b prefer_up).1 := by
  unfold _lcs_runs
  split
  · rename_i hempty
    refine ⟨?_, List.nil_sublist _, List.nil_sublist _, rfl⟩
    rcases hempty with rfl | rfl
    · exact isGreatest_nil_left b
    · exact isGreatest_nil_right a
  · have hstart : LcsRow [] [] b (List.replicate (b.length + 1) 0) := fun k hk =>
      ⟨0, by rw [List.getElem?_replicate, if_pos (Nat.lt_succ_of_le hk)], isGreatest_nil_left _⟩
    have hnone : LcsDirs [] b [[]] := ⟨rfl, fun i j x y hx => by cases hx⟩
    obtain ⟨hrow, hdirs⟩ := lcsTable_spec prefer_up (a := a) hstart hnone
    rw [List.nil_append] at hrow hdirs
    generalize lcsTable prefer_up b a (List.replicate (b.length + 1) 0) [[]] = table at hrow hdirs
    obtain ⟨last, dirs⟩ := table
    obtain ⟨v, hv, hmax⟩ := hrow b.length le_rfl
    rw [List.nil_append, List.take_length] at hmax
    obtain ⟨c, hca, hcb, hlength, hwalk⟩ := lcsWalk_spec hdirs le_rfl le_rfl le_rfl (runAt_none a.length b.length) []
    rw [List.take_length] at hca hcb hlength
    rw [List.take_length] at hlength
    have htext : lcsText a (lcsWalk dirs (a.length + b.length) a.length b.length none []) = c := by
      rw [hwalk]
      exact (List.append_nil _).trans (List.append_nil c)
    dsimp only
    rw [htext, hv, Option.getD_some]
    exact ⟨hmax, hca, hcb, hlength.unique hmax⟩

/-! ## The index reply -/

/-- A pair of segments: where they start in either string, and how long they are. -/
structure LcsSegment where
  a : Nat
  b : Nat
  cells : Nat

namespace LcsSegment

/-- The segment lies inside both strings, where it covers equal bytes. -/
structure Covers (a b : Bytes) (g : LcsSegment) : Prop where
  pos : 0 < g.cells
  inA : g.a + g.cells ≤ a.length
  inB : g.b + g.cells ≤ b.length
  equal : (a.drop g.a).take g.cells = (b.drop g.b).take g.cells

/-- The bytes of a segment. -/
def text (a : Bytes) (g : LcsSegment) : Bytes := (a.drop g.a).take g.cells

/-- The segment ends before the places `i` and `j`. -/
def EndsBy (i j : Nat) (g : LcsSegment) : Prop := g.a + g.cells ≤ i ∧ g.b + g.cells ≤ j

/-- The segment as the walk holds it. -/
def run (g : LcsSegment) : Int × Int × Int := (g.a, g.b, g.cells)

/-- The segment in the reply. -/
def reply (with_match_len : Bool) (g : LcsSegment) : Reply :=
  .list ([.list [.int g.a, .int (g.a + g.cells - 1)], .list [.int g.b, .int (g.b + g.cells - 1)]] ++ if with_match_len then
    [.int g.cells] else [])

/-- The segments that are long enough. -/
def replies (o : LcsOptions) (segments : List LcsSegment) : List Reply :=
  (segments.filter fun g => o.min_match_len ≤ g.cells).map (reply o.with_match_len)

theorem idxMatch_run (o : LcsOptions) (g : LcsSegment) :
    idxMatch o (some g.run) = if o.min_match_len ≤ g.cells then [g.reply o.with_match_len] else [] := rfl

theorem replies_cons (o : LcsOptions) (g : LcsSegment) (segments : List LcsSegment) :
    replies o (g :: segments) = idxMatch o (some g.run) ++ replies o segments := by
  rw [idxMatch_run]
  unfold replies
  rw [List.filter_cons]
  by_cases h : o.min_match_len ≤ g.cells
  · rw [if_pos h, if_pos (decide_eq_true h)]
    rfl
  · rw [if_neg h, if_neg (by simpa using h)]
    rfl

theorem Covers.length_text {a b : Bytes} {g : LcsSegment} (h : g.Covers a b) : (g.text a).length = g.cells := by
  rw [text, List.length_take, List.length_drop]
  have hin := h.inA
  omega

end LcsSegment

theorem take_drop_cons {a : Bytes} {k : Nat} {x : UInt8} (h : a[k]? = some x) (n : Nat) :
    (a.drop k).take (n + 1) = x :: (a.drop (k + 1)).take n := by
  obtain ⟨hlt, hget⟩ := List.getElem?_eq_some_iff.1 h
  rw [List.drop_eq_getElem_cons hlt, hget, List.take_succ_cons]

/-- The search finds the last place of a byte, and what comes before it still fits in front. -/
theorem seek_spec {a c : Bytes} {x : UInt8} {n : Nat} (h : (c ++ [x]).Sublist (a.take n)) :
    ∃ k < n, seek a x ((n : Int) - 1) = k ∧ a[k]? = some x ∧ c.Sublist (a.take k) := by
  have hnat : ∃ k < n, seekNat a x n = k + 1 ∧ a[k]? = some x ∧ c.Sublist (a.take k) := by
    induction n with
    | zero =>
      rw [List.take_zero, List.sublist_nil] at h
      exact absurd h (List.concat_ne_nil x c)
    | succ n ih =>
      obtain ⟨hbefore, hskip⟩ := sublist_take_succ h
      rw [seekNat]
      split
      · exact ⟨n, Nat.lt_succ_self n, rfl, ‹_›, hbefore⟩
      · obtain ⟨k, hk, hseek⟩ := ih (hskip ‹_›)
        exact ⟨k, Nat.lt_succ_of_lt hk, hseek⟩
  obtain ⟨k, hk, hseek, hrest⟩ := hnat
  refine ⟨k, hk, ?_, hrest⟩
  rw [seek, if_neg (by omega), show ((n : Int) - 1).toNat + 1 = n by omega, hseek]
  omega

/-- One byte in front of a segment. -/
theorem LcsSegment.covers_extend {a b : Bytes} {k l n : Nat} {x : UInt8} (ha : a[k]? = some x) (hb : b[l]? = some x)
    (h : n = 0 ∨ (⟨k + 1, l + 1, n⟩ : LcsSegment).Covers a b) : (⟨k, l, n + 1⟩ : LcsSegment).Covers a b := by
  have hk := (List.getElem?_eq_some_iff.1 ha).1
  have hl := (List.getElem?_eq_some_iff.1 hb).1
  refine ⟨Nat.succ_pos n, ?_, ?_, ?_⟩
  · rcases h with rfl | h
    · exact hk
    · have hin := h.inA
      dsimp only at hin ⊢
      omega
  · rcases h with rfl | h
    · exact hl
    · have hin := h.inB
      dsimp only at hin ⊢
      omega
  · dsimp only
    rw [take_drop_cons ha, take_drop_cons hb]
    rcases h with rfl | h
    · rfl
    · exact congrArg _ h.equal

theorem idxWalk_none (o : LcsOptions) (a b : Bytes) (x : UInt8) (rest : Bytes) (i j : Int) : idxWalk o a b (x :: rest) i j none =
    idxWalk o a b rest (seek a x i - 1) (seek b x j - 1) (some (seek a x i, seek b x j, 1)) := rfl

theorem idxWalk_some (o : LcsOptions) (a b : Bytes) (x : UInt8) (rest : Bytes) (i j : Int) (g : LcsSegment) :
    idxWalk o a b (x :: rest) i j (some g.run) = if seek a x i = g.a - 1 ∧ seek b x j = g.b - 1 then
        idxWalk o a b rest (seek a x i - 1) (seek b x j - 1) (some ((g.a : Int) - 1, (g.b : Int) - 1, (g.cells : Int) + 1))
      else idxMatch o (some g.run) ++ idxWalk o a b rest (seek a x i - 1) (seek b x j - 1)
        (some (seek a x i, seek b x j, 1)) := rfl

/-- The walk covers the bytes it has left with segments, in front of the one it holds. -/
theorem idxWalk_spec {a b rest : Bytes} {i j : Nat} (held : Option LcsSegment) (ha : rest.reverse.Sublist (a.take i))
    (hb : rest.reverse.Sublist (b.take j)) (hheld : ∀ g ∈ held, g.Covers a b ∧ i = g.a ∧ j = g.b) :
    ∃ segments : List LcsSegment,
      (∀ o, idxWalk o a b rest ((i : Int) - 1) ((j : Int) - 1) (held.map LcsSegment.run) = LcsSegment.replies o segments) ∧
      (∀ g ∈ segments, g.Covers a b) ∧ segments.Pairwise (fun g g' => g'.EndsBy g.a g.b) ∧
      segments.reverse.flatMap (LcsSegment.text a) = rest.reverse ++ (held.map (LcsSegment.text a)).getD [] ∧
      ∀ g ∈ segments, g.EndsBy (held.elim i fun g => g.a + g.cells) (held.elim j fun g => g.b + g.cells) := by
  induction rest generalizing i j held with
  | nil =>
    refine ⟨held.toList, fun o => ?_, ?_, ?_, ?_, ?_⟩
    · cases held with
      | none => rfl
      | some g =>
        rw [Option.toList_some, LcsSegment.replies_cons]
        exact (List.append_nil _).symm
    · cases held with
      | none => nofun
      | some g => exact List.forall_mem_singleton.2 (hheld g rfl).1
    · cases held with
      | none => exact .nil
      | some g => exact List.pairwise_singleton ..
    · cases held with
      | none => rfl
      | some g => exact List.append_nil _
    · cases held with
      | none => nofun
      | some g => exact List.forall_mem_singleton.2 ⟨le_rfl, le_rfl⟩
  | cons x rest ih =>
    rw [List.reverse_cons] at ha hb ⊢
    obtain ⟨k, hk, hseekA, hxA, hrestA⟩ := seek_spec ha
    obtain ⟨l, hl, hseekB, hxB, hrestB⟩ := seek_spec hb
    have hsingle := LcsSegment.covers_extend hxA hxB (.inl rfl)
    have htext : ∀ n, LcsSegment.text a ⟨k, l, n + 1⟩ = x :: (a.drop (k + 1)).take n := take_drop_cons hxA
    cases held with
    | none =>
      obtain ⟨segments, hwalk, hcover, hpair, hspell, hends⟩ := ih (some ⟨k, l, 1⟩) hrestA hrestB fun g hg => by
        obtain rfl := Option.some.inj hg
        exact ⟨hsingle, rfl, rfl⟩
      refine ⟨segments, fun o => ?_, hcover, hpair, ?_, fun g hg => ?_⟩
      · rw [← hwalk o, Option.map_none, idxWalk_none, hseekA, hseekB]
        rfl
      · rw [hspell, Option.map_some, Option.getD_some, htext]
        simp
      · obtain ⟨h, h'⟩ := hends g hg
        exact ⟨le_trans h hk, le_trans h' hl⟩
    | some r =>
      obtain ⟨hr, rfl, rfl⟩ := hheld r rfl
      by_cases hnext : (k : Int) = r.a - 1 ∧ (l : Int) = r.b - 1
      · -- both places are next to the segment, which goes on
        have hka : k + 1 = r.a := by omega
        have hlb : l + 1 = r.b := by omega
        have hlonger : (⟨k, l, r.cells + 1⟩ : LcsSegment).Covers a b :=
          LcsSegment.covers_extend hxA hxB (.inr (by rw [hka, hlb]; exact hr))
        obtain ⟨segments, hwalk, hcover, hpair, hspell, hends⟩ := ih (some ⟨k, l, r.cells + 1⟩) hrestA hrestB fun g hg => by
          obtain rfl := Option.some.inj hg
          exact ⟨hlonger, rfl, rfl⟩
        refine ⟨segments, fun o => ?_, hcover, hpair, ?_, fun g hg => ?_⟩
        · rw [← hwalk o, Option.map_some, idxWalk_some, hseekA, hseekB, if_pos hnext, ← hnext.1, ← hnext.2]
          rfl
        · rw [hspell, Option.map_some, Option.getD_some, htext, hka]
          simp [LcsSegment.text]
        · obtain ⟨h, h'⟩ := hends g hg
          simp only [Option.elim_some] at h h' ⊢
          exact ⟨by omega, by omega⟩
      · obtain ⟨segments, hwalk, hcover, hpair, hspell, hends⟩ := ih (some ⟨k, l, 1⟩) hrestA hrestB fun g hg => by
          obtain rfl := Option.some.inj hg
          exact ⟨hsingle, rfl, rfl⟩
        have hbefore : ∀ g ∈ segments, g.EndsBy r.a r.b := fun g hg => by
          obtain ⟨h, h'⟩ := hends g hg
          exact ⟨le_trans h hk, le_trans h' hl⟩
        refine ⟨r :: segments, fun o => ?_, List.forall_mem_cons.2 ⟨hr, hcover⟩, .cons hbefore hpair, ?_,
          List.forall_mem_cons.2 ⟨⟨le_rfl, le_rfl⟩, ?_⟩⟩
        · rw [LcsSegment.replies_cons, ← hwalk o, Option.map_some, idxWalk_some, hseekA, hseekB, if_neg hnext]
          rfl
        · rw [List.reverse_cons, List.flatMap_append, hspell, Option.map_some, Option.getD_some, htext, List.flatMap_singleton]
          simp
        · intro g hg
          obtain ⟨h, h'⟩ := hbefore g hg
          simp only [Option.elim_some]
          exact ⟨by omega, by omega⟩

/-! ## The command -/

/-- The segments of two strings: in order from the end, apart in both strings, and spelling the subsequence. -/
structure LcsSegments (a b lcs : Bytes) (segments : List LcsSegment) : Prop where
  covers : ∀ g ∈ segments, g.Covers a b
  ordered : segments.Pairwise fun g g' => g'.EndsBy g.a g.b
  sum : (segments.map LcsSegment.cells).sum = lcs.length
  spells : segments.reverse.flatMap (LcsSegment.text a) = lcs
  all : ∀ m : Int, m ≤ 1 → (segments.filter fun g => m ≤ g.cells) = segments

/-- Every common subsequence is walked into segments. -/
theorem exists_segments {a b lcs : Bytes} (ha : lcs.Sublist a) (hb : lcs.Sublist b) : ∃ segments, LcsSegments a b lcs segments ∧
    ∀ o, idxWalk o a b lcs.reverse ((a.length : Int) - 1) ((b.length : Int) - 1) none = LcsSegment.replies o segments := by
  obtain ⟨segments, hwalk, hcover, hpair, hspell, -⟩ := idxWalk_spec none
    (show lcs.reverse.reverse.Sublist (a.take a.length) by rwa [List.reverse_reverse, List.take_length])
    (show lcs.reverse.reverse.Sublist (b.take b.length) by rwa [List.reverse_reverse, List.take_length]) nofun
  have htext : segments.reverse.flatMap (LcsSegment.text a) = lcs := by
    rw [hspell, List.reverse_reverse]
    exact List.append_nil lcs
  refine ⟨segments, ⟨hcover, hpair, ?_, htext, fun m hm => ?_⟩, hwalk⟩
  · rw [← htext, List.length_flatMap, List.map_reverse, List.sum_reverse]
    exact congrArg List.sum (List.map_congr_left fun g hg => (hcover g hg).length_text.symm)
  · refine List.filter_eq_self.2 fun g hg => decide_eq_true ?_
    have hpos := (hcover g hg).pos
    omega

section Command

variable {ctx : Ctx} {ks : Set Bytes} {s : Content F} {key1 key2 : Bytes}

theorem steps_lcsCheck {key : Bytes} (hctx : ctx.Purges ks s key) {o : Option Bytes}
    (h : s.value (.bytes key) = o.map fun b => .raw (.bytes b)) :
    Steps ctx ks s (lcsCheck (.bytes key)) (.ok ()) s := by
  refine (steps_get hctx).bind ?_
  rw [h]
  cases o with
  | none => exact .pure ()
  | some b => exact .if_neg (by simp [kind_of]) (.pure ())

/-- What LCS replies, by its options. -/
def lcsAnswer (o : LcsOptions) (a b : Bytes) : Reply :=
  if o.len_only then .int (_lcs_runs a b false).1
  else if !o.idx then .bytes (lcsText a (_lcs_runs a b false).2)
  else .list [.bytes (bs "matches"),
    .list (idxWalk o a b (lcsText a (_lcs_runs a b false).2).reverse ((a.length : Int) - 1) ((b.length : Int) - 1) none),
    .bytes (bs "len"), .int (_lcs_runs a b false).1]

theorem steps_LCS {o1 o2 : Option Bytes} (hctx1 : ctx.Purges ks s key1) (hctx2 : ctx.Purges ks s key2)
    (h1 : s.value (.bytes key1) = o1.map fun b => .raw (.bytes b)) (h2 : s.value (.bytes key2) = o2.map fun b => .raw (.bytes b))
    {options : List Value} {o : LcsOptions} (hoptions : Yields (F := F) ctx (lcsOptions ⟨false, false, 1, false⟩ options) o)
    (hboth : ¬(o.len_only = true ∧ o.idx = true)) :
    Steps ctx ks s (LCS (.bytes key1) (.bytes key2) options) (.ok (lcsAnswer o (o1.getD []) (o2.getD []))) s := by
  refine (steps_lcsCheck hctx1 h1).bind ((steps_lcsCheck hctx2 h2).bind ((Steps.of_run hoptions).bind (.check hboth ?_)))
  refine (steps_string hctx1 h1).bind ((steps_string hctx2 h2).bind ?_)
  unfold lcsAnswer
  split_ifs with hlen hidx
  · exact .pure _
  · exact .pure _
  · exact .pure _

/-- A MINMATCHLEN below 1 is 1. -/
theorem yields_minmatchlen {text : Bytes} {m : Int} (hm : toLL (.bytes text) = some m) :
    Yields (F := F) ctx (lcsOptions ⟨false, false, 1, false⟩ [.bytes (bs "IDX"), .bytes (bs "MINMATCHLEN"), .bytes text])
      ⟨false, true, max m 1, false⟩ := by
  rw [lcsOptions]
  refine Yields.bind (.pure (bs "IDX")) ?_
  rw [if_neg (by decide), if_pos rfl, lcsOptions]
  refine Yields.bind (.pure (bs "MINMATCHLEN")) ?_
  rw [if_neg (by decide), if_neg (by decide), if_pos rfl]
  dsimp only
  rw [hm]
  exact Yields.bind (.pure m) (.pure _)

/-- LCS answers with the greatest length `n`, with the subsequence `lcs` and with the segments, as its options ask; a
MINMATCHLEN drops the segments that are shorter. -/
structure LcsAnswers (ctx : Ctx) (ks : Set Bytes) (s : Content F) (key1 key2 : Bytes) (n : Nat) (lcs : Bytes)
    (segments : List LcsSegment) : Prop where
  len : ∀ options o, Yields (F := F) ctx (lcsOptions ⟨false, false, 1, false⟩ options) o → o.len_only = true → o.idx = false →
    Steps ctx ks s (LCS (.bytes key1) (.bytes key2) options) (.ok (.int n)) s
  plain : ∀ options o, Yields (F := F) ctx (lcsOptions ⟨false, false, 1, false⟩ options) o → o.len_only = false → o.idx = false →
    Steps ctx ks s (LCS (.bytes key1) (.bytes key2) options) (.ok (.bytes lcs)) s
  idx : ∀ options o, Yields (F := F) ctx (lcsOptions ⟨false, false, 1, false⟩ options) o → o.len_only = false → o.idx = true →
    Steps ctx ks s (LCS (.bytes key1) (.bytes key2) options)
      (.ok (.list [.bytes (bs "matches"), .list (LcsSegment.replies o segments), .bytes (bs "len"), .int n])) s
  minmatchlen : ∀ text m, toLL (.bytes text) = some m →
    Steps ctx ks s (LCS (.bytes key1) (.bytes key2) [.bytes (bs "IDX"), .bytes (bs "MINMATCHLEN"), .bytes text])
      (.ok (.list [.bytes (bs "matches"), .list ((segments.filter fun g => m ≤ g.cells).map (LcsSegment.reply false)),
        .bytes (bs "len"), .int n])) s

end Command

/-- `ohmytext` and `mynewtext` under two keys. -/
def twoTexts : Content Int :=
  (((∅ : Content Int).assign (.bytes (bs "k")) (.raw (.bytes (bs "ohmytext")))).assign (.bytes (bs "l"))
    (.raw (.bytes (bs "mynewtext"))))

end Kagni
