import Kagni.Atomics.Set
import Kagni.Footprints.Aggregate
import Kagni.Lemmas.SortedSet

/-!
# Sorted-set commands, as a whole or not at all

A change of a sorted set in order does not raise when its members are byte strings and no score is NaN. Scores come from
arguments and from sums that have been checked, and the result of an aggregate is complete before it is stored.
-/

namespace Kagni

open Lib Lib.Prog

variable {F : Type}

namespace Watch

variable [PyFloat F] {w : Watch F} {key : Value} {α : Type}

/-- When the command is calm, the container is in order. -/
def Fine (w : Watch F) (z : ZSet F) : Prop := w.calm → z.Valid

/-- A valid sorted set is in order. -/
theorem Fine.inOrder {z : ZSet F} (h : w.Fine z) : w.calm → (Obj.zset z).InOrder := h

/-- An empty sorted set is valid. -/
theorem fine_empty (w : Watch F) : w.Fine .empty := fun hc => by
  obtain ⟨_⟩ := (w.floats hc).ordered
  exact ZSet.valid_empty

/-- The container under a key is in order. -/
theorem fine_of_start {o : Option (ZSet F)} (ho : w.start.value key = o.map .zset) {z : ZSet F} (hz : o = some z) : w.Fine z := by
  subst hz
  exact fun hc => w.inOrder hc key _ ho

/-- When the command is calm, the change of the container does not raise and leaves it in order. -/
def Tame (w : Watch F) (r : Option α × ZSet F) : Prop := w.calm → r.1 ≠ none ∧ r.2.Valid

/-- A removal or an addition that went through leaves a valid set. -/
theorem Tame.fine {r : Option α × ZSet F} (h : w.Tame r) : w.Fine r.2 := fun hc => (h hc).2

/-- The changes of a sorted set in order. -/
theorem tame_op {z : ZSet F} (hz : w.Fine z) (op : ZSet.Op F) (hop : w.calm → op.Number) {r : Option α × ZSet F}
    (hr : op.run z = (r.1.isSome, r.2)) : w.Tame r := fun hc => by
  obtain ⟨_⟩ := (w.floats hc).ordered
  obtain ⟨hsome, hvalid⟩ := (hz hc).run (hop hc)
  rw [hr] at hsome hvalid
  exact ⟨Option.isSome_iff_ne_none.1 hsome, hvalid⟩

/-- A byte string with a number for its score can be added. -/
theorem tame_add {z : ZSet F} (hz : w.Fine z) {member : Value} (hmember : w.calm → member.IsBytes) {score : F}
    (hscore : PyFloat.isNaN score = false) : w.Tame (z.add member score) := fun hc => by
  obtain ⟨b, rfl⟩ := (Value.isBytes_iff member).1 (hmember hc)
  exact tame_op hz (.add b score) (fun _ => hscore) rfl hc

/-- One member can be removed. -/
theorem tame_remove {z : ZSet F} (hz : w.Fine z) {member : Value} (hmember : w.calm → member.IsBytes) :
    w.Tame (z.remove member) := fun hc => by
  obtain ⟨b, rfl⟩ := (Value.isBytes_iff member).1 (hmember hc)
  exact tame_op hz (.remove b) (fun _ => trivial) rfl hc

/-- A range of ranks can be removed. -/
theorem tame_remove_rank {z : ZSet F} (hz : w.Fine z) (start stop : Int) : w.Tame (z.remove_rank start stop) :=
  tame_op hz (.remove_rank start stop) (fun _ => trivial) rfl

/-- A range of scores can be removed. -/
theorem tame_remove_score {z : ZSet F} (hz : w.Fine z) (lo : F) (lo_open : Bool) (hi : F) (hi_open : Bool) :
    w.Tame (z.remove_score lo lo_open hi hi_open) := tame_op hz (.remove_score lo lo_open hi hi_open) (fun _ => trivial) rfl

/-- A range of names can be removed. -/
theorem tame_remove_member {z : ZSet F} (hz : w.Fine z) (min : Option Bytes) (min_open : Bool) (max : Option Bytes)
    (max_open : Bool) :
    w.Tame (z.remove_member min min_open max max_open) :=
  tame_op hz (.remove_member min min_open max max_open) (fun _ => trivial) rfl

/-! ## Writes -/

/-- The set is written before what went wrong is raised. -/
theorem commits_inPlace {r : Option α × ZSet F} (hr : w.Tame r) : w.Commits (inPlace key r) fun p => w.Fine p.2 := by
  refine (commits_store_value hr.fine.inOrder).bind ?_
  intro _ _
  exact (commits_orFail fun hc => (hr hc).1).bind fun _ _ => .pure hr.fine

/-- The score of a byte string is looked up. -/
theorem commits_scoreOf (z : Option (ZSet F)) {member : Value} (hmember : w.calm → member.IsBytes) :
    w.Commits (scoreOf z member) fun o => z = none → o = none := by
  cases z with
  | none => exact .pure fun _ => rfl
  | some z => exact (commits_needHash hmember).bind fun _ _ => .pure nofun

/-- The container under a key that has one, or a new one. -/
theorem commits_zsetOrNew {z : Option (ZSet F)} (hkey : w.calm → key.IsBytes) (hnew : z = none → w.start.value key = none)
    (hz : ∀ z', z = some z' → w.Fine z') : w.Commits (zsetOrNew key z) w.Fine := by
  cases z with
  | none => exact (commits_setitem hkey (.inr (hnew rfl)) w.fine_empty.inOrder).bind fun _ _ => .pure w.fine_empty
  | some z => exact .pure (hz z rfl)

/-- An empty sorted set goes. -/
theorem commits_dropEmptyZset (hkey : w.calm → key.IsBytes) (z : ZSet F) : w.Commits (dropEmptyZset key z) fun _ => True :=
  commits_drop hkey

/-- ZADD with INCR checks the sum before it writes. -/
theorem atomic_zaddIncr {z : Option (ZSet F)} {pair : F × Value} (hkey : w.calm → key.IsBytes)
    (hnew : z = none → w.start.value key = none)
    (hz : ∀ z', z = some z' → w.Fine z') (hmember : w.calm → pair.2.IsBytes) (fl : ZaddFlags) :
    w.Atomic (zaddIncr key fl z pair) w.Answers := by
  refine (reads_of_computes (computes_scoreOf z pair.2)).andThen ?_
  intro current _
  refine .ite (fun _ => .pure fun _ => rfl) ?_
  intro _
  refine .check fun hnan => ?_
  refine .ite (fun _ => .pure fun _ => rfl) fun _ => ((commits_zsetOrNew hkey hnew hz).bind fun z' hz' => ?_).atomic
  refine (commits_inPlace (tame_add hz' hmember (eq_false_of_ne_true hnan))).bind ?_
  intro _ _
  exact (commits_after_write hkey .zadd).bind fun _ _ => .pure fun _ => rfl

/-- The pairs are added in turn, and none is refused. -/
theorem commits_zaddLoop {pairs : List (F × Value)} {z : Option (ZSet F)} (hkey : w.calm → key.IsBytes)
    (hnew : z = none → w.start.value key = none) (hz : ∀ z', z = some z' → w.Fine z')
    (hpairs : ∀ p ∈ pairs, PyFloat.isNaN p.1 = false ∧ (w.calm → p.2.IsBytes)) (fl : ZaddFlags) (added changed : Nat) :
    w.Commits (zaddLoop key fl pairs z added changed) fun _ => True := by
  induction pairs generalizing z added changed with
  | nil => exact .pure trivial
  | cons p rest ih =>
    obtain ⟨⟨hscore, hmember⟩, hrest⟩ := List.forall_mem_cons.1 hpairs
    have hnext : ∀ z' : ZSet F, w.Fine z' → ∀ added changed,
        w.Commits (zaddLoop key fl rest (some z') added changed) fun _ => True :=
      fun z' hz' => ih nofun (fun z'' h => Option.some.inj h ▸ hz') hrest
    refine (commits_scoreOf z hmember).bind ?_
    intro current hcurrent
    cases current with
    | none =>
      refine .ite (fun _ => ih hnew hz hrest _ _) ?_
      intro _
      refine (commits_zsetOrNew hkey hnew hz).bind ?_
      intro z' hz'
      exact (commits_inPlace (tame_add hz' hmember hscore)).bind fun r hr => hnext _ hr _ _
    | some current =>
      refine .ite (fun _ => ih hnew hz hrest _ _) fun _ => ?_
      cases z with
      | none => cases hcurrent rfl
      | some z => exact (commits_inPlace (tame_add (hz z rfl) hmember hscore)).bind fun r hr => hnext _ hr _ _

/-- ZADD reads its flags and pairs, and checks the kind, first. -/
theorem atomic_ZADD {args : List Value} (hkey : w.calm → key.IsBytes) (hargs : w.calm → ∀ v ∈ args, v.IsBytes) :
    w.Atomic (ZADD key args) w.Answers := by
  refine (reads_of_computes (computes_parse_zadd_flags args)).andThen ?_
  intro parsed hparsed
  obtain ⟨fl, rest⟩ := parsed
  obtain rfl : rest = args.dropWhile zaddFlag := hparsed
  refine .check fun _ => .check fun _ => .check fun _ => ?_
  refine (reads_of_computes (computes_zaddPairs _)).andThen ?_
  intro pairs hpairs
  refine (reads_zset key).andThen ?_
  intro z hz
  refine Atomic.ite (fun _ => .pure fun _ => ?_) fun _ => ?_
  · split <;> rfl
  have hnew : z = none → w.start.value key = none := fun h => by rw [hz, h]; rfl
  have hmembers : ∀ p ∈ pairs, w.calm → p.2.IsBytes := fun p hp hc => by
    obtain ⟨q, hq, hqp⟩ := List.mem_map.1 (hpairs p hp).2
    exact hqp ▸ hargs hc q.2 ((List.dropWhile_suffix _).subset (mem_of_mem_pairsOf hq).2)
  split
  · exact atomic_zaddIncr hkey hnew (fun _ => fine_of_start hz) (hmembers _ (by simp)) fl
  · exact .raise
  · refine Commits.atomic ?_
    refine (commits_zaddLoop hkey hnew (fun _ => fine_of_start hz) (fun p hp => ⟨(hpairs p hp).1, hmembers p hp⟩) fl 0 0).bind ?_
    intro r _
    exact .ite (fun _ => (commits_after_write hkey .zadd).bind fun _ _ => .pure fun _ => rfl) fun _ => .pure fun _ => rfl

/-- ZINCRBY reads the increment and checks the kind and the sum first. -/
theorem atomic_ZINCRBY {member : Value} (increment : Value) (hkey : w.calm → key.IsBytes) (hmember : w.calm → member.IsBytes) :
    w.Atomic (ZINCRBY key increment member) w.Answers := by
  refine (reads_of_computes (computes_floatArg _ increment)).andThen ?_
  intro increment _
  refine (reads_zset key).andThen ?_
  intro z hz
  refine (reads_of_computes (computes_scoreOf z member)).andThen ?_
  intro current _
  refine .check fun hnan => ?_
  have hnew : z = none → w.start.value key = none := fun h => by rw [hz, h]; rfl
  refine Commits.atomic ?_
  refine (commits_zsetOrNew hkey hnew fun _ => fine_of_start hz).bind ?_
  intro z' hz'
  refine (commits_inPlace (tame_add hz' hmember (eq_false_of_ne_true hnan))).bind ?_
  intro _ _
  exact (commits_after_write hkey .zincr).bind fun _ _ => .pure fun _ => rfl

/-! ## Reads -/

theorem reads_ZCARD (key : Value) : w.Reads (ZCARD key) fun _ => True := (reads_zset key).bind fun _ _ => .pure trivial

theorem reads_ZSCORE (key member : Value) : w.Reads (ZSCORE key member) fun _ => True := by
  refine (reads_zset key).bind ?_
  intro _ _
  exact (reads_of_computes (computes_scoreOf _ member)).bind fun _ _ => .pure trivial

theorem reads_ZMSCORE (key : Value) (vals : List Value) : w.Reads (ZMSCORE key vals) fun _ => True := by
  unfold ZMSCORE
  refine .check fun _ => ?_
  refine (reads_zset key).bind ?_
  intro z _
  refine (reads_mapM (Q := fun _ => True) fun member _ => ?_).bind fun _ _ => .pure trivial
  exact (reads_of_computes (computes_scoreOf z member)).bind fun _ _ => .pure trivial

/-- ZRANK and ZREVRANK write nothing. -/
theorem reads_zrank (key member : Value) (options : List Value) (reverse : Bool) :
    w.Reads (_zrank key member options reverse) fun _ => True := by
  refine (reads_of_computes (computes_flagOptions _ options)).bind ?_
  intro _ _
  refine (reads_zset key).bind ?_
  intro z _
  cases z with
  | none => exact .bind (Q := fun rank => rank = none) (.pure rfl) fun rank hrank => hrank ▸ .pure trivial
  | some z =>
    refine (reads_of_computes (computes_orFail _)).bind ?_
    intro rank _
    cases rank with
    | none => exact .pure trivial
    | some rank =>
      refine .ite (fun _ => .pure trivial) ?_
      intro _
      exact (reads_of_computes (computes_orFail _)).bind fun _ _ => .pure trivial

/-- A window is only read. -/
theorem reads_zrangeWith (key start stop : Value) (o : RangeOptions) (rev : Bool) :
    w.Reads (zrangeWith key start stop o rev) fun _ => True := by
  refine (reads_of_computes (computes_parse_bounds start stop o.mode o.rev)).bind ?_
  intro parsed _
  refine (reads_zset key).bind ?_
  intro z _
  cases z with
  | none => exact .pure trivial
  | some z =>
    refine .ite (fun _ => .pure trivial) fun _ => ?_
    exact (reads_of_computes (computes_range_pairs z _ rev)).bind fun _ _ => .pure trivial

theorem reads_ZRANGE (key start stop : Value) (options : List Value) : w.Reads (ZRANGE key start stop options) fun _ => True :=
  (reads_of_computes (computes_parse_range_options options)).bind fun o _ => reads_zrangeWith key start stop o o.rev

theorem reads_ZREVRANGE (key start stop : Value) (options : List Value) :
    w.Reads (ZREVRANGE key start stop options) fun _ => True :=
  (reads_of_computes (computes_rangeOptions _ _ options)).bind fun _ _ => reads_zrangeWith key start stop _ true

/-- ZRANGEBYSCORE and ZREVRANGEBYSCORE write nothing. -/
theorem reads_legacy_score_range (key first second : Value) (options : List Value) (reverse : Bool) :
    w.Reads (_legacy_score_range key first second options reverse) fun _ => True :=
  (reads_of_computes (computes_rangeOptions _ _ options)).bind fun _ _ => reads_zrangeWith key first second _ reverse

/-- ZRANGEBYLEX and ZREVRANGEBYLEX write nothing. -/
theorem reads_legacy_lex_range (key first second : Value) (options : List Value) (reverse : Bool) :
    w.Reads (_legacy_lex_range key first second options reverse) fun _ => True :=
  (reads_of_computes (computes_rangeOptions _ _ options)).bind fun _ _ => reads_zrangeWith key first second _ reverse

theorem reads_ZCOUNT (key min_ max_ : Value) : w.Reads (ZCOUNT key min_ max_) fun _ => True := by
  refine (reads_of_computes (computes_score_bound min_)).bind ?_
  intro _ _
  refine (reads_of_computes (computes_score_bound max_)).bind ?_
  intro _ _
  refine (reads_zset key).bind ?_
  intro z _
  cases z <;> exact .pure trivial

theorem reads_ZLEXCOUNT (key min_ max_ : Value) : w.Reads (ZLEXCOUNT key min_ max_) fun _ => True := by
  refine (reads_of_computes (computes_parse_bounds min_ max_ .bylex false)).bind ?_
  intro parsed _
  refine (reads_zset key).bind ?_
  intro z _
  cases z with
  | none => exact .pure trivial
  | some z =>
    refine .ite (fun _ => .pure trivial) fun _ => ?_
    exact (reads_of_computes (computes_range_pairs z _ false)).bind fun _ _ => .pure trivial

theorem reads_ZSCAN (key cursor : Value) (options : List Value) : w.Reads (ZSCAN key cursor options) fun _ => True := by
  refine (reads_of_computes (computes_parse_scan_cursor cursor)).bind ?_
  intro _ _
  refine (reads_of_computes (computes_parse_scan_options none options)).bind ?_
  intro pattern _
  refine (reads_of_computes (computes_compilePattern pattern)).bind ?_
  intro rgx _
  refine (reads_zset key).bind ?_
  intro o _
  cases o with
  | none => exact .pure trivial
  | some z => exact (reads_filterM fun p _ => reads_of_computes (computes_patternMatches rgx p.2)).bind fun _ _ => .pure trivial

/-- ZRANDMEMBER writes nothing. -/
theorem reads_ZRANDMEMBER (key : Value) (count : Option Int) (options : List Value) :
    w.Reads (ZRANDMEMBER key count options) fun _ => True := by
  have hmembers : ∀ {z : ZSet F}, z.size ≠ 0 → z.members ≠ [] :=
    fun hne hnil => hne (by rw [ZSet.size, List.map_eq_nil_iff.1 hnil]; rfl)
  cases count with
  | none =>
    unfold ZRANDMEMBER
    refine .check fun _ => ?_
    refine (reads_zset key).bind ?_
    intro z _
    refine .ite (fun _ => .pure trivial) ?_
    intro hne
    exact (reads_of_returns (.choice (hmembers hne))).bind fun _ _ => .pure trivial
  | some count =>
    refine (reads_of_computes (computes_flagOptions _ options)).bind ?_
    intro _ _
    refine (reads_zset key).bind ?_
    intro z _
    refine .ite (fun _ => .pure trivial) ?_
    intro hne
    refine (reads_of_returns (.pick (hmembers hne) count)).bind ?_
    intro picked _
    refine .ite (fun _ => .pure trivial) ?_
    intro _
    refine (reads_mapM (Q := fun _ => True) fun member _ => ?_).bind fun _ _ => .pure trivial
    exact (reads_of_computes (computes_orFail _)).bind fun _ _ => .pure trivial

/-! ## Removals -/

/-- A slice has items of the list. -/
theorem sliceRanks_sub {items : List α} {start stop : Int} {x : α} (h : x ∈ sliceRanks items start stop) : x ∈ items := by
  unfold sliceRanks at h
  split at h
  · cases h
  · exact List.mem_of_mem_take (List.mem_of_mem_drop h)

/-- The members are removed in turn. -/
theorem commits_zremLoop {vals : List Value} (hvals : w.calm → ∀ v ∈ vals, v.IsBytes) {z : ZSet F}
    (hz : w.Fine z) (removed : Nat) :
    w.Commits (zremLoop key vals z removed) fun _ => True := by
  induction vals generalizing z removed with
  | nil => exact .pure trivial
  | cons member rest ih =>
    have htame := tame_remove hz fun hc => hvals hc member List.mem_cons_self
    exact (commits_inPlace htame).bind fun r hr => ih (fun hc v hv => hvals hc v (List.mem_cons_of_mem _ hv)) hr _

/-- A removal is told of, and the number that is replied can be sent. -/
theorem commits_afterRemoval (hkey : w.calm → key.IsBytes) (z : ZSet F) (removed : Nat) (event : Event) :
    w.Commits (afterRemoval key z removed event) w.Answers := by
  have hend : w.Commits (dropEmptyZset key z >>= fun _ => pure (.int removed) : K F Reply) w.Answers :=
    (commits_dropEmptyZset hkey z).bind fun _ _ => .pure fun _ => rfl
  exact .ite (fun _ => (commits_after_write hkey event).bind fun _ _ => hend) fun _ => hend

/-- ZREM checks the kind first. -/
theorem atomic_ZREM {vals : List Value} (hkey : w.calm → key.IsBytes) (hvals : w.calm → ∀ v ∈ vals, v.IsBytes) :
    w.Atomic (ZREM key vals) w.Answers := by
  unfold ZREM
  refine .check fun _ => ?_
  refine (reads_zset key).andThen ?_
  intro o ho
  cases o with
  | none => exact .pure fun _ => rfl
  | some z => exact ((commits_zremLoop hvals (fine_of_start ho rfl) 0).bind fun r _ => commits_afterRemoval hkey _ _ _).atomic

/-- A removal of a range. -/
theorem commits_removeRange (hkey : w.calm → key.IsBytes) {r : Option Nat × ZSet F} (hr : w.Tame r) (event : Event) :
    w.Commits (do
      let (removed, z) ← inPlace key r
      afterRemoval key z removed event : K F Reply) w.Answers :=
  (commits_inPlace hr).bind fun _ _ => commits_afterRemoval hkey _ _ event

/-- ZREMRANGEBYRANK checks the kind first. -/
theorem atomic_ZREMRANGEBYRANK (start stop : Int) (hkey : w.calm → key.IsBytes) :
    w.Atomic (ZREMRANGEBYRANK key start stop) w.Answers := by
  refine (reads_zset key).andThen ?_
  intro o ho
  cases o with
  | none => exact .pure fun _ => rfl
  | some z => exact (commits_removeRange hkey (tame_remove_rank (fine_of_start ho rfl) start stop) .zremrangebyrank).atomic

/-- ZREMRANGEBYSCORE reads its bounds and checks the kind first. -/
theorem atomic_ZREMRANGEBYSCORE (min_ max_ : Value) (hkey : w.calm → key.IsBytes) :
    w.Atomic (ZREMRANGEBYSCORE key min_ max_) w.Answers := by
  refine (reads_of_computes (computes_score_bound min_)).andThen ?_
  intro lo _
  refine (reads_of_computes (computes_score_bound max_)).andThen ?_
  intro hi _
  refine (reads_zset key).andThen ?_
  intro o ho
  cases o with
  | none => exact .pure fun _ => rfl
  | some z =>
    exact (commits_removeRange hkey (tame_remove_score (fine_of_start ho rfl) lo.1 lo.2 hi.1 hi.2) .zremrangebyscore).atomic

/-- ZREMRANGEBYLEX likewise. -/
theorem atomic_ZREMRANGEBYLEX (min_ max_ : Value) (hkey : w.calm → key.IsBytes) :
    w.Atomic (ZREMRANGEBYLEX key min_ max_) w.Answers := by
  refine (reads_of_computes (computes_lex_bound min_ true)).andThen ?_
  intro lo _
  refine (reads_of_computes (computes_lex_bound max_ false)).andThen ?_
  intro hi _
  refine (reads_zset key).andThen ?_
  intro o ho
  cases o with
  | none => exact .pure fun _ => rfl
  | some z =>
    refine .ite (fun _ => .pure fun _ => rfl) fun _ => ?_
    exact (commits_removeRange hkey (tame_remove_member (fine_of_start ho rfl) lo.1 lo.2.1 hi.1 hi.2.1) .zremrangebylex).atomic

/-- Members and scores can be sent. -/
theorem encodes_interleave {pairs : List (F × Value)} (h : ∀ p ∈ pairs, p.2.IsBytes) (withscores : Bool) :
    (_interleave pairs withscores).Encodes := by
  refine Reply.encodes_list ?_
  intro r hr
  obtain ⟨p, hp, hr⟩ := List.mem_flatMap.1 hr
  rcases List.mem_cons.1 hr with rfl | hr
  · exact Reply.encodes_ofValue (h p hp)
  cases withscores with
  | false => cases hr
  | true =>
    obtain rfl := List.mem_singleton.1 hr
    rfl

/-- ZPOPMIN and ZPOPMAX check the count and the kind first. -/
theorem atomic_zpop (count : Option Int) (left : Bool) (hkey : w.calm → key.IsBytes) :
    w.Atomic (_zpop key count left) w.Answers := by
  unfold _zpop
  refine .check fun _ => ?_
  refine (reads_zset key).andThen ?_
  intro o ho
  cases o with
  | none => exact .pure fun _ => rfl
  | some z =>
    refine .ite (fun _ => .pure fun _ => rfl) fun _ =>
      (Commits.bind (Q := fun _ => True) (.ite (fun _ => .pure trivial) fun _ => ?_) fun z' _ => ?_).atomic
    · exact (commits_inPlace (tame_remove_rank (fine_of_start ho rfl) _ _)).bind fun _ _ => .pure trivial
    have hsorted : w.calm → ∀ p ∈ z.sorted, p.2.IsBytes := fun hc => (w.typed hc key _ ho).1.2
    have htaken : ∀ start stop,
        w.Answers (_interleave (if left then sliceRanks z.sorted start stop else (sliceRanks z.sorted start stop).reverse)
        true) := by
      intro start stop hc
      refine encodes_interleave (fun p hp => ?_) true
      have hmem : p ∈ sliceRanks z.sorted start stop := by
        split at hp
        · exact hp
        · exact List.mem_reverse.1 hp
      exact hsorted hc p (sliceRanks_sub hmem)
    refine (commits_after_write hkey _).bind ?_
    intro _ _
    refine (commits_dropEmptyZset hkey z').bind ?_
    intro _ _
    refine (commits_is_live hkey).bind ?_
    intro _ _
    refine .ite (fun _ => ?_) fun _ => .pure (htaken _ _)
    exact (commits_notify hkey .del).bind fun _ _ => .pure (htaken _ _)

/-! ## Aggregates -/

/-- The sources are only read, and their aggregate is valid. -/
theorem reads_aggregate (op : ZOp) (keys : List (Value × F)) (aggregate : Aggregate) :
    w.Reads (_aggregate op keys aggregate) w.Fine := by
  refine (reads_mapM (Q := fun source : Option (ZSet F) × F => ∀ z, source.1 = some z → w.Fine z) fun k _ => ?_).bind
    fun sources hsources => ?_
  · exact (reads_zset k.1).bind fun o ho => .pure fun z => fine_of_start ho
  have hmembers : w.calm → ∀ v ∈ (aggregateScores op aggregate sources).keys, v.IsBytes := fun hc =>
    keys_aggregateScores (fun source hs z hz => (hsources source hs z hz hc).bytes) op aggregate
  refine Reads.fold w.fine_empty ?_
  intro z hz p hp
  have htame : w.calm → (z.add p.1 (if PyFloat.isNaN p.2 then PyFloat.zero else p.2)).2.Valid := fun hc => by
    refine (tame_add hz (fun _ => hmembers hc p.1 (List.mem_map_of_mem hp)) ?_ hc).2
    split
    · exact (w.floats hc).zero
    · exact eq_false_of_ne_true ‹_›
  split
  · rename_i z' heq
    rw [heq] at htame
    exact .pure htame
  · exact .raise

/-- The store forms read all their sources before they write. -/
theorem atomic_zopStore {dest : Value} (op : ZOp) (command : Cmd) (event : Event) (allow_weights : Bool) (numkeys : Int)
    (rest : List Value)
    (hdest : w.calm → dest.IsBytes) (hfree : dest ∈ w.free) :
    w.Atomic (zopStore op command event allow_weights dest numkeys rest) w.Answers := by
  refine (reads_of_computes (computes_parse_zset_op command allow_weights false numkeys rest)).andThen ?_
  intro parsed _
  refine (reads_aggregate op parsed.1 parsed.2.1).andThen ?_
  intro result hresult
  refine .ite (fun _ => ?_) fun _ => ?_
  · exact ((commits_remove hdest).bind fun _ _ => .pure fun _ => rfl).atomic
  · refine Commits.atomic ?_
    refine (commits_setitem hdest (.inl hfree) hresult.inOrder).bind ?_
    intro _ _
    exact (commits_after_write hdest event).bind fun _ _ => .pure fun _ => rfl

/-- ZUNION, ZINTER and ZDIFF write nothing. -/
theorem reads_zopRead (op : ZOp) (command : Cmd) (allow_weights : Bool) (numkeys : Int) (rest : List Value) :
    w.Reads (zopRead op command allow_weights numkeys rest) fun _ => True := by
  refine (reads_of_computes (computes_parse_zset_op command allow_weights true numkeys rest)).bind ?_
  intro parsed _
  exact (reads_aggregate op parsed.1 parsed.2.1).bind fun _ _ => .pure trivial

end Watch

end Kagni
