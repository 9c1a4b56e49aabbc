import Kagni.Dispatch
import Kagni.Lemmas.Windows

/-!
# Windows agree in every command

Nine commands read, count or remove a window of a sorted set, by score or by member, in either direction. On a live key that
holds a sorted set in order each of them means the same window: the pairs inside the bounds, in rank order.
-/

namespace Kagni

open Lib Lib.Prog

variable {F : Type} {ctx : Ctx} {k : KState F} {key : Bytes} {z : ZSet F}

/-! ## LIMIT -/

/-- `LIMIT offset count`: drop and take. A negative count takes everything, a negative offset nothing. -/
def limited {α : Type} (limit : Option (Int × Int)) (l : List α) : List α :=
  match limit with
  | none => l
  | some (offset, count) =>
    if offset < 0 then []
    else if count < 0 then l.drop offset.toNat
    else (l.drop offset.toNat).take count.toNat

theorem slice_eq {α : Type} (l : List α) {offset count : Int} (ho : 0 ≤ offset) (hc : 0 ≤ count) :
    slice l offset (offset + count) = (l.drop offset.toNat).take count.toNat := by
  have hbound {i : Int} (hi : 0 ≤ i) : sliceBound l.length i = min i.toNat l.length := if_neg (not_lt.2 hi)
  unfold slice
  rw [hbound ho, hbound (by omega), List.drop_take, Int.toNat_add ho hc]
  by_cases hlen : offset.toNat ≤ l.length
  · rw [Nat.min_eq_left hlen]
    have hleft : (l.drop offset.toNat).length = l.length - offset.toNat := List.length_drop
    by_cases hcount : offset.toNat + count.toNat ≤ l.length
    · rw [Nat.min_eq_left hcount, Nat.add_sub_cancel_left]
    · rw [Nat.min_eq_right (by omega), List.take_of_length_le (by omega), List.take_of_length_le (by omega)]
  · have hall : l.length ≤ offset.toNat := (not_le.1 hlen).le
    rw [Nat.min_eq_right hall, List.drop_eq_nil_of_le (Nat.le_refl _), List.drop_eq_nil_of_le hall, List.take_nil, List.take_nil]

theorem limit_pairs_eq {α : Type} (limit : Option (Int × Int)) (l : List α) : _limit_pairs l limit = limited limit l := by
  cases limit with
  | none => rfl
  | some range =>
    obtain ⟨offset, count⟩ := range
    unfold _limit_pairs limited
    dsimp only
    by_cases ho : offset < 0
    · rw [if_pos ho, if_pos ho]
    rw [if_neg ho, if_neg ho]
    by_cases hc : count < 0
    · rw [if_pos hc, if_pos hc, slice_eq l (not_lt.1 ho) (Int.natCast_nonneg _), Int.toNat_natCast]
      exact List.take_of_length_le (by rw [List.length_drop]; omega)
    · rw [if_neg hc, if_neg hc, slice_eq l (not_lt.1 ho) (not_lt.1 hc)]

/-! ## Options -/

/-- The options of a legacy command mean the same to ZRANGE, whatever the mode and the direction. -/
theorem rangeOptions_embed {g : RangeGrammar} (hg : g.mode = false) (m : RangeMode) (r : Bool) {options : List Value}
    {o o' : RangeOptions}
    (h : (rangeOptions g o options : K F _) ctx k = (.ok o', k)) :
    (rangeOptions ⟨true, true, true⟩ { o with mode := m, rev := r } options : K F _) ctx k =
      (.ok { o' with mode := m, rev := r }, k) ∧
      o'.mode = o.mode ∧ o'.rev = o.rev ∧ (g.withscores = false → o'.withscores = o.withscores) := by
  have hscores : ¬(bs "WITHSCORES" = bs "BYSCORE" ∨ bs "WITHSCORES" = bs "BYLEX") ∧ bs "WITHSCORES" ≠ bs "REV" := by
    decide +kernel
  have hlimit : ¬(bs "LIMIT" = bs "BYSCORE" ∨ bs "LIMIT" = bs "BYLEX") ∧ bs "LIMIT" ≠ bs "REV" ∧
    bs "LIMIT" ≠ bs "WITHSCORES" := by decide +kernel
  -- LIMIT takes three arguments, so the induction is on their number
  induction hn : options.length using Nat.strong_induction_on generalizing options o with
  | _ n ih =>
    cases options with
    | nil =>
      obtain rfl : o = o' := Except.ok.inj (congrArg Prod.fst h)
      exact ⟨rfl, rfl, rfl, fun _ => rfl⟩
    | cons opt rest =>
      subst hn
      rw [rangeOptions_cons] at h ⊢
      cases opt with
      | bytes b =>
        have hupper : (upperArg (.bytes b) : K F _) ctx k = (.ok (upper b), k) := rfl
        rw [bind_ok ctx k hupper] at h ⊢
        simp only [hg, Bool.false_eq_true, false_and, if_false] at h
        by_cases hw : g.withscores = true ∧ upper b = bs "WITHSCORES"
        · rw [if_pos hw] at h
          obtain ⟨hby, hrev⟩ := hscores
          obtain ⟨hfull, hmode, hrev', -⟩ := ih rest.length (Nat.lt_succ_self _) h rfl
          simp only [hby, hrev, and_false, if_false, hw.2, and_self, if_true]
          exact ⟨hfull, hmode, hrev', fun hno => absurd hw.1 (by simp [hno])⟩
        rw [if_neg hw] at h
        by_cases hl : g.limit = true ∧ upper b = bs "LIMIT"
        · rw [if_pos hl] at h
          obtain ⟨hby, hrev, hws⟩ := hlimit
          simp only [hby, hrev, hws, and_false, if_false, hl.2, and_self, if_true]
          rcases rest with _ | ⟨a, _ | ⟨c, rest⟩⟩
          · cases h
          · cases h
          · dsimp only at h ⊢
            cases hparse : parseLimit (F := F) o.limit a c ctx k with
            | mk out k' =>
              obtain ⟨out', hout, -⟩ := Computes.run (computes_parseLimit o.limit a c) ctx
              have hsame := hout k
              rw [hparse] at hsame
              obtain ⟨rfl, rfl⟩ := Prod.mk.inj hsame
              cases out with
              | error e =>
                rw [bind_error ctx k' hparse] at h
                cases h
              | ok limit =>
                rw [bind_ok ctx k' hparse] at h ⊢
                exact ih rest.length (by simp only [List.length_cons]; omega) h rfl
        · rw [if_neg hl] at h
          cases h
      | _ => cases h

theorem names_iff {v : Value} {name : Bytes} : v.names name = true ↔ ∃ b, v = .bytes b ∧ upper b = name := by
  cases v with
  | bytes b => simp [Value.names]
  | _ => simp [Value.names]

/-- The mode and the direction, before the options of a legacy command. -/
theorem parse_range_options_by {g : RangeGrammar} (hg : g.mode = false) {m : RangeMode} {name : Bytes}
    (hm : m = .byscore ∧ name = bs "BYSCORE" ∨ m = .bylex ∧ name = bs "BYLEX" ∧ g.withscores = false) {options : List Value}
    {o : RangeOptions}
    (h : (rangeOptions g .none options : K F _) ctx k = (.ok o, k)) {by_ rev_ : Value} (hby : by_.names name = true)
    (hrev : rev_.names (bs "REV") = true) (rev : Bool) :
    (_parse_range_options (if rev then by_ :: rev_ :: options else by_ :: options) : K F _) ctx k =
      (.ok { o with mode := m, rev }, k) := by
  obtain ⟨b, rfl, hb⟩ := names_iff.1 hby
  obtain ⟨c, rfl, hc⟩ := names_iff.1 hrev
  have hname : upper b = bs "BYSCORE" ∨ upper b = bs "BYLEX" := by
    rcases hm with ⟨-, rfl⟩ | ⟨-, rfl, -⟩
    · exact .inl hb
    · exact .inr hb
  have hmode : (if upper b = bs "BYSCORE" then RangeMode.byscore else .bylex) = m := by
    rcases hm with ⟨rfl, rfl⟩ | ⟨rfl, rfl, -⟩
    · rw [if_pos hb]
    · rw [if_neg (by rw [hb]; decide +kernel)]
  obtain ⟨hfull, -, -, hws⟩ := rangeOptions_embed hg m rev h
  -- the mode first
  have hloop : (rangeOptions ⟨true, true, true⟩ .none (if rev then .bytes b :: .bytes c :: options else .bytes b :: options) :
    K F _) ctx k =
      (.ok { o with mode := m, rev }, k) := by
    have hupper (b : Bytes) : (upperArg (.bytes b) : K F _) ctx k = (.ok (upper b), k) := rfl
    have hnone : ¬(RangeOptions.none.mode ≠ .rank) := fun h => h rfl
    cases rev with
    | false =>
      rw [if_neg Bool.false_ne_true, rangeOptions_cons, bind_ok ctx k (hupper b)]
      simp only [hname, and_self, if_true, hnone, if_false, hmode]
      exact hfull
    | true =>
      rw [if_pos rfl, rangeOptions_cons, bind_ok ctx k (hupper b)]
      simp only [hname, and_self, if_true, hnone, if_false, hmode]
      rw [rangeOptions_cons, bind_ok ctx k (hupper c)]
      simp only [if_false, hc, and_self, if_true, RangeOptions.none, Bool.false_eq_true]
      exact hfull
  unfold _parse_range_options
  rw [bind_ok ctx k hloop]
  have hcheck : ¬(o.withscores = true ∧ m = .bylex) := by
    rintro ⟨ho, rfl⟩
    rcases hm with ⟨hm, -⟩ | ⟨-, -, hg'⟩
    · cases hm
    · rw [hws hg'] at ho
      cases ho
  have hrank : m ≠ .rank := by
    rcases hm with ⟨rfl, -⟩ | ⟨rfl, -⟩ <;> nofun
  simp only [hcheck, hrank, and_false, if_false]
  rfl

/-- A `LIMIT` alone. -/
theorem limit_option_run {a b : Value} {offset count : Int} (ha : toLL a = some offset) (hb : toLL b = some count)
    (withscores : Bool) :
    (rangeOptions ⟨false, withscores, true⟩ .none [.bytes (bs "LIMIT"), a, b] : K F _) ctx k =
      (.ok { RangeOptions.none with limit := some (offset, count) }, k) := by
  have hupper : (upperArg (.bytes (bs "LIMIT")) : K F _) ctx k = (.ok (bs "LIMIT"), k) :=
    congrArg (fun b => (Except.ok b, k)) (by decide +kernel)
  have hscores : bs "LIMIT" ≠ bs "WITHSCORES" := by decide +kernel
  have hlimit : (parseLimit none a b : K F _) ctx k = (.ok (offset, count), k) := by
    unfold parseLimit
    rw [ha, hb]
    rfl
  rw [rangeOptions_cons, bind_ok ctx k hupper]
  simp only [Bool.false_eq_true, false_and, hscores, and_false, and_self, if_false, if_true, RangeOptions.none]
  rw [bind_ok ctx k hlimit]
  rfl

/-! ## Ranges -/

section Commands

variable [PyFloat F]

/-- The bounds of a window in a mode, and the pairs inside it. -/
inductive WindowOf : RangeMode → Value → Value → (F × Value → Bool) → Prop
  | score {min max : Value} {lo hi : F} {lo_open hi_open : Bool} (hlo : ScoreBound min lo lo_open)
    (hhi : ScoreBound max hi hi_open) :
    WindowOf .byscore min max fun p => scoreWindow lo lo_open hi hi_open p.1
  | lex (lo hi : LexEnd) : WindowOf .bylex lo.raw hi.raw fun p => lexInside lo hi p.2

/-- Its bounds parse, from either end, and it is dead only when no pair is inside. -/
theorem WindowOf.parse {mode : RangeMode} {min max : Value} {inside : F × Value → Bool} (h : WindowOf mode min max inside)
    [PyFloat.Ordered F]
    (hvalid : z.Valid) (ctx : Ctx) (k : KState F) : ∃ parsed dead,
      (∀ rev, _parse_bounds (if rev then max else min) (if rev then min else max) mode rev ctx k = (.ok (parsed, dead), k)) ∧
      (dead = true → z.sorted.filter inside = []) ∧
      (dead = false → ∀ rev, _range_pairs z parsed rev ctx k =
        (.ok (if rev then (z.sorted.filter inside).reverse else z.sorted.filter inside), k)) := by
  cases h with
  | @score min max lo hi lo_open hi_open hlo hhi =>
    refine ⟨.score lo lo_open hi hi_open, false, fun rev => ?_, nofun, fun _ rev => ?_⟩
    · cases rev
      all_goals
        unfold _parse_bounds
        refine (bind_ok ctx k (score_bound_run hlo ctx k)).trans ?_
        exact bind_ok ctx k (score_bound_run hhi ctx k)
    · unfold _range_pairs
      dsimp only
      rw [hvalid.score_pairs hlo.number hhi.number]
      rfl
  | lex lo hi =>
    refine ⟨.lex (lo.parsed true).1 (lo.parsed true).2.1 (hi.parsed false).1 (hi.parsed false).2.1,
      (lo.parsed true).2.2 || (hi.parsed false).2.2, fun rev => ?_, fun hdead => ?_, fun hlive rev => ?_⟩
    · cases rev
      all_goals
        unfold _parse_bounds
        refine (bind_ok ctx k (lex_bound_run lo true ctx k)).trans ?_
        exact bind_ok ctx k (lex_bound_run hi false ctx k)
    · exact List.filter_eq_nil_iff.2 fun p _ => by rw [lexInside_dead hdead]; exact Bool.false_ne_true
    · unfold _range_pairs
      dsimp only
      rw [hvalid.member_pairs (lexInside_bytes hlive)]
      rfl

variable [PyFloat.Ordered F]

/-- A range command in a window: the pairs inside it, in either direction, cut by LIMIT. -/
theorem zrangeWith_window (hz : HoldsZset ctx k key z) (hvalid : z.Valid) {o : RangeOptions} {min max : Value}
    {inside : F × Value → Bool}
    (hwindow : WindowOf o.mode min max inside) (back : Bool) :
    zrangeWith (.bytes key) (if o.rev then max else min) (if o.rev then min else max) o back ctx k =
      (.ok (_interleave (limited o.limit (if back then (z.sorted.filter inside).reverse else z.sorted.filter inside))
        o.withscores), k) := by
  obtain ⟨parsed, dead, hparse, hdead, hlive⟩ := hwindow.parse hvalid ctx k
  unfold zrangeWith
  rw [bind_ok ctx k (hparse o.rev)]
  dsimp only
  rw [bind_ok ctx k (zset_run hz)]
  dsimp only
  cases dead with
  | true =>
    have hlimited : limited o.limit (if back then (z.sorted.filter inside).reverse else z.sorted.filter inside) = [] := by
      rw [hdead rfl, List.reverse_nil, ite_self]
      unfold limited
      split
      · rfl
      · rw [List.drop_nil, List.take_nil, ite_self, ite_self]
    rw [hlimited, if_pos rfl]
    rfl
  | false =>
    rw [if_neg Bool.false_ne_true, bind_ok ctx k (hlive rfl back), limit_pairs_eq]
    rfl

theorem ZRANGE_window (hz : HoldsZset ctx k key z) (hvalid : z.Valid) {options : List Value} {o : RangeOptions}
    (ho : (_parse_range_options options : K F _) ctx k = (.ok o, k)) {min max : Value} {inside : F × Value → Bool}
    (hwindow : WindowOf o.mode min max inside) :
    ZRANGE (.bytes key) (if o.rev then max else min) (if o.rev then min else max) options ctx k =
      (.ok (_interleave (limited o.limit (if o.rev then (z.sorted.filter inside).reverse else z.sorted.filter inside))
        o.withscores), k) := by
  unfold ZRANGE
  rw [bind_ok ctx k ho]
  exact zrangeWith_window hz hvalid hwindow o.rev

/-- The legacy commands: the mode is in the name, and the bounds come as minimum and maximum. -/
theorem legacy_window (hz : HoldsZset ctx k key z) (hvalid : z.Valid) {g : RangeGrammar} (hg : g.mode = false)
    {options : List Value}
    {o : RangeOptions} (ho : (rangeOptions g .none options : K F _) ctx k = (.ok o, k)) {mode : RangeMode} {min max : Value}
    {inside : F × Value → Bool} (hwindow : WindowOf mode min max inside) (back : Bool) :
    (do let o ← rangeOptions g .none options
        zrangeWith (.bytes key) min max { o with mode } back : K F Reply) ctx k =
      (.ok (_interleave (limited o.limit (if back then (z.sorted.filter inside).reverse else z.sorted.filter inside))
        o.withscores), k) := by
  obtain ⟨-, -, hrev, -⟩ := rangeOptions_embed hg mode false ho
  have hfront : ¬o.rev = true := by
    rw [hrev]
    exact Bool.false_ne_true
  have hrun := zrangeWith_window (o := { o with mode }) hz hvalid hwindow back
  dsimp only at hrun
  rw [if_neg hfront, if_neg hfront] at hrun
  rw [bind_ok ctx k ho]
  exact hrun

/-! ## Counts -/

theorem ZCOUNT_window (hz : HoldsZset ctx k key z) (hvalid : z.Valid) {min max : Value} {lo hi : F} {lo_open hi_open : Bool}
    (hlo : ScoreBound min lo lo_open) (hhi : ScoreBound max hi hi_open) :
    ZCOUNT (.bytes key) min max ctx k =
      (.ok (.int (z.sorted.filter fun p => scoreWindow lo lo_open hi hi_open p.1).length), k) := by
  unfold ZCOUNT
  rw [bind_ok ctx k (score_bound_run hlo ctx k)]
  dsimp only
  rw [bind_ok ctx k (score_bound_run hhi ctx k)]
  dsimp only
  rw [bind_ok ctx k (zset_run hz)]
  dsimp only
  rw [hvalid.score_pairs hlo.number hhi.number]
  rfl

theorem ZLEXCOUNT_window (hz : HoldsZset ctx k key z) (hvalid : z.Valid) (lo hi : LexEnd) :
    ZLEXCOUNT (.bytes key) lo.raw hi.raw ctx k = (.ok (.int (z.sorted.filter fun p => lexInside lo hi p.2).length), k) := by
  obtain ⟨parsed, dead, hparse, hdead, hlive⟩ := (WindowOf.lex lo hi).parse hvalid ctx k
  have hforward : _parse_bounds lo.raw hi.raw .bylex false ctx k = (.ok (parsed, dead), k) := hparse false
  unfold ZLEXCOUNT
  rw [bind_ok ctx k hforward]
  dsimp only
  rw [bind_ok ctx k (zset_run hz)]
  dsimp only
  cases dead with
  | true =>
    rw [if_pos rfl, hdead rfl]
    rfl
  | false =>
    rw [if_neg Bool.false_ne_true, bind_ok ctx k (hlive rfl false)]
    rfl

/-! ## Removals -/

/-- What ZREMRANGEBYSCORE does to the members of a window. -/
theorem ZREMRANGEBYSCORE_run (hz : HoldsZset ctx k key z) (hvalid : z.Valid) {min max : Value} {lo hi : F}
    {lo_open hi_open : Bool}
    (hlo : ScoreBound min lo lo_open) (hhi : ScoreBound max hi hi_open) :
    ∃ z', z'.Valid ∧ z'.sorted = z.sorted.filter (fun p => !scoreWindow lo lo_open hi hi_open p.1) ∧
      ZREMRANGEBYSCORE (.bytes key) min max ctx k =
        afterRemoval (.bytes key) z' (z.sorted.filter fun p => scoreWindow lo lo_open hi hi_open p.1).length .zremrangebyscore ctx
          (k.putZset key z') := by
  obtain ⟨z', heq, hvalid', hsorted⟩ := hvalid.remove_score_window hlo.number hhi.number lo_open hi_open
  refine ⟨z', hvalid', hsorted, ?_⟩
  unfold ZREMRANGEBYSCORE
  rw [bind_ok ctx k (score_bound_run hlo ctx k)]
  dsimp only
  rw [bind_ok ctx k (score_bound_run hhi ctx k)]
  dsimp only
  rw [bind_ok ctx k (zset_run hz)]
  dsimp only
  rw [heq, bind_ok ctx k (inPlace_run key _ z' k)]

theorem ZREMRANGEBYSCORE_window (hz : HoldsZset ctx k key z) (hvalid : z.Valid) {min max : Value} {lo hi : F}
    {lo_open hi_open : Bool}
    (hlo : ScoreBound min lo lo_open) (hhi : ScoreBound max hi hi_open) :
    (∃ k', ZREMRANGEBYSCORE (.bytes key) min max ctx k =
        (.ok (.int (z.sorted.filter fun p => scoreWindow lo lo_open hi hi_open p.1).length), k') ∧
      Leaves k k' key (z.sorted.filter fun p => !scoreWindow lo lo_open hi hi_open p.1)) ↔
        z.sorted.filter (fun p => scoreWindow lo lo_open hi hi_open p.1) = [] ∨ ctx.EventReturns .zremrangebyscore := by
  obtain ⟨z', hvalid', hsorted, hrun⟩ := ZREMRANGEBYSCORE_run hz hvalid hlo hhi
  rw [hrun, ← hsorted, after_removal_iff hz _ _ hvalid', List.length_eq_zero_iff]

theorem ZREMRANGEBYLEX_window (hz : HoldsZset ctx k key z) (hvalid : z.Valid) (lo hi : LexEnd) :
    (∃ k', ZREMRANGEBYLEX (.bytes key) lo.raw hi.raw ctx k =
      (.ok (.int (z.sorted.filter fun p => lexInside lo hi p.2).length), k') ∧
      (z.sorted ≠ [] → Leaves k k' key (z.sorted.filter fun p => !lexInside lo hi p.2))) ↔
        z.sorted.filter (fun p => lexInside lo hi p.2) = [] ∨ ctx.EventReturns .zremrangebylex := by
  unfold ZREMRANGEBYLEX
  rw [bind_ok ctx k (lex_bound_run lo true ctx k)]
  dsimp only
  rw [bind_ok ctx k (lex_bound_run hi false ctx k), bind_ok ctx k (zset_run hz)]
  dsimp only
  cases hdead : (lo.parsed true).2.2 || (hi.parsed false).2.2 with
  | true =>
    -- no member is looked at
    have hnone : z.sorted.filter (fun p => lexInside lo hi p.2) = [] :=
      List.filter_eq_nil_iff.2 fun p _ => by rw [lexInside_dead hdead]; exact Bool.false_ne_true
    have hall : z.sorted.filter (fun p => !lexInside lo hi p.2) = z.sorted :=
      List.filter_eq_self.2 fun p _ => by rw [lexInside_dead hdead]; rfl
    rw [if_pos rfl, hnone, hall]
    refine iff_of_true ⟨k, rfl, fun hne => ?_⟩ (.inl rfl)
    obtain ⟨e, hget, -, hvalue⟩ := hz
    exact ⟨fun _ _ => rfl, fun hnil => absurd hnil hne, fun _ => ⟨e, z, hget, by rw [← hvalue, hget], hvalid, rfl⟩⟩
  | false =>
    obtain ⟨z', heq, hvalid', hsorted⟩ :=
      hvalid.remove_member (lo.parsed true).1 (lo.parsed true).2.1 (hi.parsed false).1 (hi.parsed false).2.1
      (lexInside lo hi) (lexInside_bytes hdead)
    rw [if_neg Bool.false_ne_true, heq, bind_ok ctx k (inPlace_run key _ z' k), ← hsorted, ← List.length_eq_zero_iff]
    constructor
    · rintro ⟨k', hrun, -⟩
      exact after_removal_returns hrun
    · intro hevent
      obtain ⟨k', hrun, hleaves⟩ := after_removal_run hz hevent hvalid'
      exact ⟨k', hrun, fun _ => hleaves⟩

/-! ## Agreement -/

/-- `ZRANGE` under the options of a legacy command, with the mode named before them. -/
theorem ZRANGE_by (hz : HoldsZset ctx k key z) (hvalid : z.Valid) {g : RangeGrammar} (hg : g.mode = false)
    {mode : RangeMode} {name : Bytes}
    (hm : mode = .byscore ∧ name = bs "BYSCORE" ∨ mode = .bylex ∧ name = bs "BYLEX" ∧ g.withscores = false) {options : List Value}
    {o : RangeOptions} (ho : (rangeOptions g .none options : K F _) ctx k = (.ok o, k)) {min max : Value}
    {inside : F × Value → Bool}
    (hwindow : WindowOf mode min max inside) {by_ rev_ : Value} (hby : by_.names name = true)
    (hrev : rev_.names (bs "REV") = true) :
    ZRANGE (.bytes key) min max (by_ :: options) ctx k =
        (.ok (_interleave (limited o.limit (z.sorted.filter inside)) o.withscores), k) ∧
      ZRANGE (.bytes key) max min (by_ :: rev_ :: options) ctx k =
        (.ok (_interleave (limited o.limit (z.sorted.filter inside).reverse) o.withscores), k) :=
  ⟨ZRANGE_window hz hvalid (parse_range_options_by hg hm ho hby hrev false) hwindow,
    ZRANGE_window hz hvalid (parse_range_options_by hg hm ho hby hrev true) hwindow⟩

end Commands

/-- A client subscribes to a pattern that does not compile, and another one turns the notifications on. -/
def jammedServer : Server Int :=
  ((Server.init 0 none ∅ fun _ => true).step Ctx.jammed.env (.send ⟨0, 0⟩ 0 [bs "PSUBSCRIBE", backwardRange])).step Ctx.jammed.env
    (.send ⟨0, 0⟩ 1 [bs "CONFIG", bs "SET", bs "notify-keyspace-events", bs "KEA"])

example : jammedServer.ctx Ctx.jammed.env ⟨0, 0⟩ = Ctx.jammed := rfl

end Kagni
