import Kagni.Footprints.Set

/-!
# Sorted sets obey the discipline

What an operation of the container leaves behind has members it had before, or the one that was added. The writes change the
container in place, and may leave it empty when one of them raises, so they obey no discipline in which a sorted set must not
be empty.
-/

namespace Kagni

open Lib Lib.Prog

variable {F : Type} {d : Discipline} {S : Set Value} {key : Value}

/-! ## Values that may be stored -/

namespace Discipline

/-- What may be stored of the members of a sorted set. -/
structure zset (d : Discipline) (z : ZSet F) : Prop where
  scores : ∀ v ∈ z.scores.keys, d.permits (.store v)
  sorted : ∀ p ∈ z.sorted, d.permits (.store p.2)

/-- A sorted set of permitted members may be stored where empty ones may. -/
theorem obj_zset {z : ZSet F} (hempty : ¬d.nonempty) (h : d.zset z) : d.obj (.zset z) :=
  ⟨⟨h.scores, h.sorted⟩, fun hne => absurd hne hempty⟩

/-- The members of a stored sorted set are permitted. -/
theorem zset_of_obj {z : ZSet F} (h : d.obj (.zset z)) : d.zset z := ⟨h.1.1, h.1.2⟩

/-- An empty sorted set has no members. -/
theorem zset_empty (d : Discipline) : d.zset (F := F) .empty := ⟨nofun, nofun⟩

/-- A sorted set whose members are among another's. -/
theorem zset_sub {z z' : ZSet F} (h : d.zset z) (hscores : ∀ v ∈ z'.scores.keys, v ∈ z.scores.keys)
    (hsorted : ∀ p ∈ z'.sorted, p ∈ z.sorted) : d.zset z' :=
  ⟨fun v hv => h.scores v (hscores v hv), fun p hp => h.sorted p (hsorted p hp)⟩

end Discipline

/-- The keys that are left were there. -/
theorem mem_keys_erase {ν : Type} {scores : Dict Value ν} {member v : Value} (h : v ∈ (scores.erase member).keys) :
    v ∈ scores.keys := by
  obtain ⟨p, hp, rfl⟩ := List.mem_map.1 h
  exact List.mem_map.2 ⟨p, List.mem_of_mem_filter hp, rfl⟩

/-- The scores that are left were there. -/
theorem mem_keys_delScores {ν : Type} {members : List Value} {scores : Dict Value ν} {v : Value}
    (h : v ∈ (ZSet.delScores members scores).2.keys) : v ∈ scores.keys := by
  induction members generalizing scores with
  | nil => exact h
  | cons member rest ih =>
    unfold ZSet.delScores at h
    split at h
    · exact mem_keys_erase (ih h)
    · exact h

namespace Discipline

/-- A removal by rank leaves members that were there. -/
theorem zset_remove_rank {z : ZSet F} (h : d.zset z) (start stop : Int) : d.zset (z.remove_rank start stop).2 := by
  unfold ZSet.remove_rank
  split
  · exact h
  · rename_i i j _
    have hdel : ∀ v ∈ (ZSet.delScores (((z.sorted.take j).drop i).map Prod.snd) z.scores).2.keys, v ∈ z.scores.keys :=
      fun v => mem_keys_delScores
    split
    · rename_i scores heq
      rw [heq] at hdel
      exact zset_sub h hdel fun p hp => hp
    · rename_i scores heq
      rw [heq] at hdel
      refine zset_sub h hdel ?_
      intro p hp
      rcases List.mem_append.1 hp with hp | hp
      · exact List.mem_of_mem_take hp
      · exact List.mem_of_mem_drop hp

/-- The loop of a removal by name keeps scores and pairs that were there. -/
theorem removeMemberLoop_sub (min max : Option Bytes) (min_open max_open : Bool) (pairs kept : List (F × Value)) (removed : Nat)
    (scores : Dict Value F) :
    (∀ v ∈ (ZSet.removeMemberLoop min min_open max max_open pairs kept removed scores).2.keys, v ∈ scores.keys) ∧
      ∀ out, (ZSet.removeMemberLoop min min_open max max_open pairs kept removed scores).1 = some out →
        ∀ p ∈ out.1, p ∈ kept ∨ p ∈ pairs := by
  induction pairs generalizing kept removed scores with
  | nil =>
    refine ⟨fun v hv => hv, fun out hout p hp => .inl ?_⟩
    cases hout
    exact hp
  | cons q rest ih =>
    unfold ZSet.removeMemberLoop
    split
    · exact ⟨fun v hv => hv, nofun⟩
    · refine ⟨(ih ..).1, fun out hout p hp => ?_⟩
      rcases (ih ..).2 out hout p hp with hp | hp
      · rcases List.mem_append.1 hp with hp | hp
        · exact .inl hp
        · exact .inr (by simp [List.mem_singleton.1 hp])
      · exact .inr (List.mem_cons_of_mem _ hp)
    · split
      · refine ⟨fun v hv => mem_keys_erase ((ih ..).1 v hv), fun out hout p hp => ?_⟩
        exact ((ih ..).2 out hout p hp).imp_right (List.mem_cons_of_mem _)
      · exact ⟨fun v hv => hv, nofun⟩

/-- A removal by name leaves members that were there. -/
theorem zset_remove_member {z : ZSet F} (h : d.zset z) (min : Option Bytes) (min_open : Bool) (max : Option Bytes)
    (max_open : Bool) :
    d.zset (z.remove_member min min_open max max_open).2 := by
  obtain ⟨hscores, hkept⟩ := removeMemberLoop_sub min max min_open max_open z.sorted [] 0 z.scores
  unfold ZSet.remove_member
  split
  · rename_i scores heq
    rw [heq] at hscores
    exact zset_sub h hscores fun p hp => hp
  · rename_i kept removed scores heq
    rw [heq] at hscores hkept
    exact zset_sub h hscores fun p hp => (hkept _ rfl p hp).resolve_left (by simp)

variable [PyFloat F]

/-- A removal by score leaves members that were there. -/
theorem zset_remove_score {z : ZSet F} (h : d.zset z) (lo : F) (lo_open : Bool) (hi : F) (hi_open : Bool) :
    d.zset (z.remove_score lo lo_open hi hi_open).2 := by
  unfold ZSet.remove_score
  dsimp only
  split
  · exact h
  · have hdel : ∀ v ∈ (ZSet.delScores (((z.sorted.take (z._score_bounds lo lo_open hi hi_open).2).drop
        (z._score_bounds lo lo_open hi hi_open).1).map Prod.snd) z.scores).2.keys, v ∈ z.scores.keys :=
          fun v => mem_keys_delScores
    split
    · rename_i scores heq
      rw [heq] at hdel
      exact zset_sub h hdel fun p hp => hp
    · rename_i scores heq
      rw [heq] at hdel
      refine zset_sub h hdel ?_
      intro p hp
      rcases List.mem_append.1 hp with hp | hp
      · exact List.mem_of_mem_take hp
      · exact List.mem_of_mem_drop hp

/-- Without a pair of the order the others are left. -/
theorem zset_delSorted {z z' : ZSet F} (h : d.zset z) {pair : F × Value} (hz : z.delSorted pair = some z') : d.zset z' := by
  unfold ZSet.delSorted at hz
  split at hz
  · cases hz
  · split at hz
    · cases hz
      exact zset_sub h (fun v hv => hv) fun p hp => List.mem_of_mem_eraseIdx hp
    · cases hz

/-- A removal of one member leaves the others. -/
theorem zset_remove {z : ZSet F} (h : d.zset z) (member : Value) : d.zset (z.remove member).2 := by
  have herase : d.zset { z with scores := z.scores.erase member } := zset_sub h (fun v => mem_keys_erase) fun p hp => hp
  unfold ZSet.remove
  split
  · split
    · exact h
    · dsimp only
      split
      · exact herase
      · rename_i z'' heq
        exact zset_delSorted herase heq
  · exact h

/-- A permitted member may be sorted in. -/
theorem zset_insort {z : ZSet F} (h : d.zset z) {member : Value} (hmember : d.permits (.store member)) (score : F) :
    d.zset (z.insort member score).2 := by
  unfold ZSet.insort
  split
  · exact h
  · refine ⟨fun v hv => ?_, fun p hp => ?_⟩
    · obtain ⟨s, hs⟩ := (Dict.mem_keys_iff _ v).1 hv
      rw [Dict.get_set] at hs
      split at hs
      · rename_i hvm
        rw [hvm]
        exact hmember
      · exact h.scores v ((Dict.mem_keys_iff _ v).2 ⟨s, hs⟩)
    · rcases List.eq_or_mem_of_mem_insertIdx hp with rfl | hp
      · exact hmember
      · exact h.sorted p hp

/-- A permitted member may be added. -/
theorem zset_add {z : ZSet F} (h : d.zset z) {member : Value} (hmember : member.hashable = true → d.permits (.store member))
    (score : F) :
    d.zset (z.add member score).2 := by
  unfold ZSet.add
  split
  · rename_i hhash
    split
    · exact zset_insort h (hmember hhash) score
    · split
      · exact h
      · split
        · exact h
        · rename_i z' hz
          exact zset_insort (zset_delSorted h hz) (hmember hhash) score
  · exact h

end Discipline

/-! ## Parsing -/

/-- A bound by name is read. -/
theorem computes_lex_bound (raw : Value) (is_min : Bool) : Computes (_lex_bound raw is_min : K F _) fun _ => True := by
  cases raw with
  | bytes b =>
    refine .ite (fun _ => .pure trivial) ?_
    intro _
    refine .ite (fun _ => .pure trivial) ?_
    intro _
    split
    · exact .pure trivial
    · exact .pure trivial
    · exact .raise _
  | array items => exact .raise _
  | _ => exact .raise _

/-- A LIMIT is read once. -/
theorem computes_parseLimit (limit : Option (Int × Int)) (offset count : Value) :
    Computes (parseLimit limit offset count : K F _) fun _ => True := by
  unfold parseLimit
  intro S
  refine built_check fun _ => ?_
  refine (computes_orThrow _ _).bind ?_
  intro _ _
  exact (computes_orThrow _ _).bind fun _ _ => .pure trivial

/-- One round of the option loop. -/
theorem rangeOptions_cons (g : RangeGrammar) (o : RangeOptions) (opt : Value) (rest : List Value) :
    (rangeOptions g o (opt :: rest) : K F RangeOptions) = (do
      let opt ← upperArg opt
      if g.mode ∧ (opt = bs "BYSCORE" ∨ opt = bs "BYLEX") then
        if o.mode ≠ .rank then throw_ .SYNTAX
        rangeOptions g { o with mode := if opt = bs "BYSCORE" then .byscore else .bylex } rest
      else if g.mode ∧ opt = bs "REV" then
        if o.rev then throw_ .SYNTAX
        rangeOptions g { o with rev := true } rest
      else if g.withscores ∧ opt = bs "WITHSCORES" then rangeOptions g { o with withscores := true } rest
      else if g.limit ∧ opt = bs "LIMIT" then
        match rest with
        | offset :: count :: rest =>
          let limit ← parseLimit o.limit offset count
          rangeOptions g { o with limit := some limit } rest
        | _ => throw_ .SYNTAX
      else throw_ .SYNTAX) := by
  delta rangeOptions
  rcases rest with _ | ⟨a, _ | ⟨b, rest⟩⟩ <;> rfl

/-- The options of a range are read from the arguments. -/
theorem computes_rangeOptions (g : RangeGrammar) (o : RangeOptions) (options : List Value) :
    Computes (rangeOptions g o options : K F _) fun _ => True := by
  intro S
  -- LIMIT takes three arguments, so the induction is on their number
  induction hn : options.length using Nat.strong_induction_on generalizing options o with
  | _ n ih =>
    cases options with
    | nil => exact .pure trivial
    | cons opt rest =>
      have hrest : ∀ o tail, tail.length ≤ rest.length → Built Asking S (rangeOptions g o tail : K F _) fun _ => True :=
        fun o tail h => ih tail.length (by simp at hn; omega) o tail rfl
      rw [rangeOptions_cons]
      refine (computes_upperArg opt).bind ?_
      intro _ _
      refine .ite (fun _ => ?_) fun _ => .ite (fun _ => ?_) fun _ => .ite (fun _ => hrest _ rest le_rfl) fun _ => .ite
        (fun _ => ?_) fun _ => .raise _
      · exact built_check fun _ => hrest _ rest le_rfl
      · exact built_check fun _ => hrest _ rest le_rfl
      · split
        · rename_i offset count tail
          exact (computes_parseLimit _ offset count).bind fun _ _ => hrest _ tail (by simp; omega)
        · exact .raise _

/-- Likewise those of the legacy ranges. -/
theorem computes_parse_range_options (options : List Value) : Computes (_parse_range_options options : K F _) fun _ => True := by
  intro S
  refine (computes_rangeOptions _ _ options).bind ?_
  intro o _
  refine built_check fun _ => ?_
  exact built_check fun _ => .pure trivial

variable [PyFloat F]

/-- A bound by score is read. -/
theorem computes_score_bound (raw : Value) : Computes (_score_bound raw : K F (F × Bool)) fun _ => True := by
  refine (computes_asBytes raw).bind ?_
  intro _ _
  exact (computes_floatArg _ _).bind fun _ _ => .pure trivial

/-- The two bounds of a range are read. -/
theorem computes_parse_bounds (start_raw stop_raw : Value) (mode : RangeMode) (rev : Bool) :
    Computes (_parse_bounds start_raw stop_raw mode rev : K F (Bounds F × Bool)) fun _ => True := by
  intro S
  cases mode with
  | rank =>
    refine (computes_orThrow _ _).bind ?_
    intro _ _
    exact (computes_orThrow _ _).bind fun _ _ => .pure trivial
  | byscore =>
    refine (computes_score_bound _).bind ?_
    intro _ _
    exact (computes_score_bound _).bind fun _ _ => .pure trivial
  | bylex =>
    refine (computes_lex_bound _ true).bind ?_
    intro _ _
    exact (computes_lex_bound _ false).bind fun _ _ => .pure trivial

/-- The pairs of a range are computed from the set. -/
theorem computes_range_pairs (z : ZSet F) (parsed : Bounds F) (rev : Bool) :
    Computes (_range_pairs z parsed rev : K F _) fun _ => True := by
  intro S
  cases parsed with
  | rank start stop => exact .pure trivial
  | score lo lo_open hi hi_open => exact .pure trivial
  | lex lo lo_open hi hi_open => exact (computes_orFail _).bind fun _ _ => .pure trivial

omit [PyFloat F] in
/-- The flags of ZADD stand before the pairs. -/
theorem computes_zaddFlags (fl : ZaddFlags) (args : List Value) :
    Computes (zaddFlags fl args : K F _) fun r => r.2 = args.dropWhile zaddFlag := by
  intro S
  induction args generalizing fl with
  | nil => exact .pure rfl
  | cons arg rest ih =>
    refine (computes_upperArg arg).bind ?_
    intro opt hopt
    have hflag : ∀ name, opt = name → zaddFlag arg = true → ∀ fl, Built Asking S (zaddFlags fl rest : K F _) fun r =>
        r.2 = (arg :: rest).dropWhile zaddFlag := by
      intro name _ h fl
      rw [List.dropWhile_cons_of_pos h]
      exact ih fl
    refine .ite (fun h => hflag _ h (by simp [zaddFlag, (hopt _).1 h]) _) fun h1 => ?_
    refine .ite (fun h => hflag _ h (by simp [zaddFlag, (hopt _).1 h]) _) fun h2 => ?_
    refine .ite (fun h => hflag _ h (by simp [zaddFlag, (hopt _).1 h]) _) fun h3 => ?_
    refine .ite (fun h => hflag _ h (by simp [zaddFlag, (hopt _).1 h]) _) fun h4 => ?_
    refine .ite (fun h => hflag _ h (by simp [zaddFlag, (hopt _).1 h]) _) fun h5 => ?_
    refine .ite (fun h => hflag _ h (by simp [zaddFlag, (hopt _).1 h]) _) fun h6 => .pure ?_
    rw [List.dropWhile_cons_of_neg]
    simp only [zaddFlag, Bool.or_eq_true, ← hopt]
    tauto

omit [PyFloat F] in
/-- Likewise with the combinations that are refused. -/
theorem computes_parse_zadd_flags (args : List Value) :
    Computes (_parse_zadd_flags args : K F _) fun r => r.2 = args.dropWhile zaddFlag := by
  intro S
  refine (computes_zaddFlags _ args).bind ?_
  intro r hr
  refine built_check fun _ => ?_
  exact built_check fun _ => .pure hr

/-- The pairs of ZADD have numbers for scores and members of the arguments. -/
theorem computes_zaddPairs (args : List Value) :
    Computes (zaddPairs args : K F (List (F × Value))) fun pairs =>
      ∀ p ∈ pairs, PyFloat.isNaN p.1 = false ∧ p.2 ∈ (pairsOf args).map Prod.snd := by
  intro S
  induction args using List.twoStepInduction with
  | nil => exact .pure nofun
  | singleton a => exact .pure nofun
  | cons_cons score member rest ih _ =>
    refine (computes_number _ score).bind ?_
    intro x hx
    refine ih.bind ?_
    intro pairs hpairs
    refine .pure ?_
    exact List.forall_mem_cons.2 ⟨⟨hx, List.mem_cons_self⟩, fun p hp => (hpairs p hp).imp_right (List.mem_cons_of_mem _)⟩

/-! ## Writes -/

omit [PyFloat F] in
/-- A removal writes what it leaves, where empty sets may be. -/
theorem disciplined_inPlace {α : Type} {r : Option α × ZSet F} (hempty : ¬d.nonempty) (hlook : d.permits (.look key))
    (hseen : key ∈ S)
    (h : d.zset r.2) : Disciplined d S (inPlace key r : K F _) fun p => d.zset p.2 := by
  refine (disciplined_store_value (Discipline.obj_zset hempty h) hlook hseen).bind ?_
  intro _ _
  exact (of_computes (computes_orFail _)).bind fun _ _ => .pure h

omit [PyFloat F] in
/-- A member is looked up only if it can be one. -/
theorem computes_scoreOf (z : Option (ZSet F)) (member : Value) :
    Computes (scoreOf z member : K F _) fun _ => z.isSome = true → member.hashable = true := by
  cases z with
  | none => exact .pure nofun
  | some z => exact (computes_needHash member).bind fun _ h => .pure fun _ => h

omit [PyFloat F] in
/-- An empty sorted set goes. -/
theorem disciplined_dropEmptyZset (hseen : key ∈ S) (z : ZSet F) :
    Disciplined d S (dropEmptyZset key z : K F Unit) fun _ => True :=
  .ite (fun _ => disciplined_discard (.inl hseen) (.pure trivial)) fun _ => .pure trivial

/-- What may be said of the container a write finds: it may be stored, and if there is one, so may its key. -/
def Discipline.Found (d : Discipline) (key : Value) (z : Option (ZSet F)) : Prop :=
  ∀ z', z = some z' → d.permits (.create key) ∧ d.zset z'

omit [PyFloat F] in
/-- A new sorted set is stored empty, before its first member. -/
theorem disciplined_zsetOrNew {z : Option (ZSet F)} (hempty : ¬d.nonempty) (hkey : key.hashable = true → d.permits (.create key))
    (hseen : key ∈ S) (hz : d.Found key z) :
    Disciplined d S (zsetOrNew key z : K F (ZSet F)) fun z => d.permits (.create key) ∧ d.zset z := by
  cases z with
  | some z => exact .pure (hz z rfl)
  | none =>
    have hobj := Discipline.obj_zset (F := F) hempty d.zset_empty
    exact (disciplined_setitem hkey hobj (.inl hseen)).bind fun _ h => .pure ⟨hkey h, d.zset_empty⟩

/-- ZADD with INCR writes the set it looked at, or a new one. -/
theorem disciplined_zaddIncr {z : Option (ZSet F)} {pair : F × Value} (hempty : ¬d.nonempty) (hlook : d.permits (.look key))
    (hkey : key.hashable = true → d.permits (.create key)) (hseen : key ∈ S) (hz : d.Found key z)
    (hval : pair.2.hashable = true → d.permits (.store pair.2)) (fl : ZaddFlags) :
    Disciplined d S (zaddIncr key fl z pair : K F Reply) fun _ => True := by
  refine (of_computes (computes_scoreOf z pair.2)).bind ?_
  intro current _
  refine .ite (fun _ => .pure trivial) ?_
  intro _
  refine built_check fun _ => ?_
  refine .ite (fun _ => .pure trivial) ?_
  intro _
  refine (disciplined_zsetOrNew hempty hkey hseen hz).bind ?_
  intro z hz
  refine (disciplined_inPlace hempty hlook hseen (Discipline.zset_add hz.2 hval _)).bind ?_
  intro _ _
  exact (disciplined_after_write hz.1 .zadd).bind fun _ _ => .pure trivial

/-- The pairs are added in turn. -/
theorem disciplined_zaddLoop {pairs : List (F × Value)} {z : Option (ZSet F)} (hempty : ¬d.nonempty)
    (hlook : d.permits (.look key))
    (hkey : key.hashable = true → d.permits (.create key)) (hseen : key ∈ S) (hz : d.Found key z)
    (hval : ∀ p ∈ pairs, p.2.hashable = true → d.permits (.store p.2)) (fl : ZaddFlags) {added changed : Nat}
    (hdone : added ≠ 0 ∨ changed ≠ 0 → d.permits (.create key)) :
    Disciplined d S (zaddLoop key fl pairs z added changed : K F _) fun r => r.1 ≠ 0 ∨ r.2 ≠ 0 → d.permits (.create key) := by
  induction pairs generalizing z added changed with
  | nil => exact .pure hdone
  | cons p rest ih =>
    obtain ⟨hp, hrest⟩ := List.forall_mem_cons.1 hval
    refine (of_computes (computes_scoreOf z p.2)).bind ?_
    intro current _
    cases current with
    | none =>
      refine .ite (fun _ => ih hz hrest hdone) fun _ => ?_
      refine (disciplined_zsetOrNew hempty hkey hseen hz).bind ?_
      intro z hz
      refine (disciplined_inPlace hempty hlook hseen (Discipline.zset_add hz.2 hp _)).bind ?_
      intro r hr
      exact ih (fun z' hz' => Option.some.inj hz' ▸ ⟨hz.1, hr⟩) hrest fun _ => hz.1
    | some current =>
      refine .ite (fun _ => ih hz hrest hdone) fun _ => ?_
      cases z with
      | none => exact .raise _
      | some z =>
        obtain ⟨hmade, hz⟩ := hz z rfl
        refine (disciplined_inPlace hempty hlook hseen (Discipline.zset_add hz hp _)).bind ?_
        intro r hr
        exact ih (fun z' hz' => Option.some.inj hz' ▸ ⟨hmade, hr⟩) hrest fun _ => hmade

/-- ZADD adds the members of its arguments. -/
theorem disciplined_ZADD {args : List Value} (hempty : ¬d.nonempty) (hlook : d.permits (.look key))
    (hkey : key.hashable = true → d.permits (.create key))
    (hval : ∀ v ∈ (pairsOf (args.dropWhile zaddFlag)).map Prod.snd, v.hashable = true → d.permits (.store v)) :
    Disciplined d S (ZADD key args : K F Reply) fun _ => True := by
  refine (of_computes (computes_parse_zadd_flags args)).bind ?_
  intro parsed hparsed
  obtain ⟨fl, rest⟩ := parsed
  replace hparsed : rest = args.dropWhile zaddFlag := hparsed
  subst hparsed
  refine built_check fun _ => ?_
  refine built_check fun _ => ?_
  refine built_check fun _ => ?_
  refine (of_computes (computes_zaddPairs _)).bind ?_
  intro pairs hpairs
  refine (looks_zset hlook).andThen ?_
  intro z hz
  have hseen := Set.mem_insert key S
  have hfound : d.Found key z := fun z' h => ⟨(hz z' h).1, Discipline.zset_of_obj (hz z' h).2⟩
  have hmembers : ∀ p ∈ pairs, p.2.hashable = true → d.permits (.store p.2) := fun p hp => hval p.2 (hpairs p hp).2
  refine .ite (fun _ => .pure trivial) fun _ => ?_
  split
  · exact disciplined_zaddIncr hempty hlook hkey hseen hfound (hmembers _ (by simp)) fl
  · exact .raise _
  · refine (disciplined_zaddLoop hempty hlook hkey hseen hfound hmembers fl (by simp)).bind ?_
    intro r hr
    exact .ite (fun h => (disciplined_after_write (hr h) .zadd).bind fun _ _ => .pure trivial) fun _ => .pure trivial

/-- ZINCRBY adds its one member. -/
theorem disciplined_ZINCRBY {member : Value} (hempty : ¬d.nonempty) (hlook : d.permits (.look key))
    (hkey : key.hashable = true → d.permits (.create key)) (hval : member.hashable = true → d.permits (.store member))
    (increment : Value) : Disciplined d S (ZINCRBY key increment member : K F Reply) fun _ => True := by
  refine (of_computes (computes_floatArg _ increment)).bind ?_
  intro increment _
  refine (looks_zset hlook).andThen ?_
  intro z hz
  have hseen := Set.mem_insert key S
  have hfound : d.Found key z := fun z' h => ⟨(hz z' h).1, Discipline.zset_of_obj (hz z' h).2⟩
  refine (of_computes (computes_scoreOf z member)).bind ?_
  intro current _
  refine built_check fun _ => ?_
  refine (disciplined_zsetOrNew hempty hkey hseen hfound).bind ?_
  intro z hz
  refine (disciplined_inPlace hempty hlook hseen (Discipline.zset_add hz.2 hval _)).bind ?_
  intro _ _
  exact (disciplined_after_write hz.1 .zincr).bind fun _ _ => .pure trivial

/-! ## Reads -/

omit [PyFloat F] in
theorem disciplined_ZCARD (hlook : d.permits (.look key)) : Disciplined d S (ZCARD key : K F Reply) fun _ => True :=
  (looks_zset hlook).andThen fun _ _ => .pure trivial

theorem disciplined_ZSCORE (hlook : d.permits (.look key)) (member : Value) :
    Disciplined d S (ZSCORE key member : K F Reply) fun _ => True := by
  refine (looks_zset hlook).andThen ?_
  intro _ _
  exact (of_computes (computes_scoreOf _ member)).bind fun _ _ => .pure trivial

theorem disciplined_ZMSCORE (hlook : d.permits (.look key)) (vals : List Value) :
    Disciplined d S (ZMSCORE key vals : K F Reply) fun _ => True := by
  unfold ZMSCORE
  refine built_check fun _ => ?_
  refine (looks_zset hlook).andThen ?_
  intro z _
  refine .bind (built_mapM (Q := fun _ => True) fun member _ => ?_) fun _ _ => .pure trivial
  exact (of_computes (computes_scoreOf z member)).bind fun _ _ => .pure trivial

/-- ZRANK and ZREVRANK look at their key. -/
theorem disciplined_zrank (hlook : d.permits (.look key)) (member : Value) (options : List Value) (reverse : Bool) :
    Disciplined d S (_zrank key member options reverse : K F Reply) fun _ => True := by
  refine (of_computes (computes_flagOptions _ options)).bind ?_
  intro _ _
  refine (looks_zset hlook).andThen ?_
  intro z _
  cases z with
  | none => exact .bind (Q := fun rank => rank = none) (.pure rfl) fun rank hrank => hrank ▸ .pure trivial
  | some z =>
    refine (of_computes (computes_orFail _)).bind ?_
    intro rank _
    cases rank with
    | none => exact .pure trivial
    | some rank =>
      refine .ite (fun _ => .pure trivial) fun _ => ?_
      exact (of_computes (computes_orFail _)).bind fun _ _ => .pure trivial

/-- The range of a sorted set is read. -/
theorem disciplined_zrangeWith (hlook : d.permits (.look key)) (start stop : Value) (o : RangeOptions) (rev : Bool) :
    Disciplined d S (zrangeWith key start stop o rev : K F Reply) fun _ => True := by
  refine (of_computes (computes_parse_bounds start stop o.mode o.rev)).bind ?_
  intro parsed _
  refine (looks_zset hlook).andThen ?_
  intro z _
  cases z with
  | none => exact .pure trivial
  | some z =>
    refine .ite (fun _ => .pure trivial) fun _ => ?_
    exact (of_computes (computes_range_pairs z _ rev)).bind fun _ _ => .pure trivial

theorem disciplined_ZRANGE (hlook : d.permits (.look key)) (start stop : Value) (options : List Value) :
    Disciplined d S (ZRANGE key start stop options : K F Reply) fun _ => True :=
  (of_computes (computes_parse_range_options options)).bind fun o _ => disciplined_zrangeWith hlook start stop o o.rev

theorem disciplined_ZREVRANGE (hlook : d.permits (.look key)) (start stop : Value) (options : List Value) :
    Disciplined d S (ZREVRANGE key start stop options : K F Reply) fun _ => True :=
  (of_computes (computes_rangeOptions _ _ options)).bind fun _ _ => disciplined_zrangeWith hlook start stop _ true

/-- ZRANGEBYSCORE and ZREVRANGEBYSCORE look at their key. -/
theorem disciplined_legacy_score_range (hlook : d.permits (.look key)) (first second : Value) (options : List Value)
    (reverse : Bool) :
    Disciplined d S (_legacy_score_range key first second options reverse : K F Reply) fun _ => True :=
  (of_computes (computes_rangeOptions _ _ options)).bind fun _ _ => disciplined_zrangeWith hlook first second _ reverse

/-- ZRANGEBYLEX and ZREVRANGEBYLEX look at their key. -/
theorem disciplined_legacy_lex_range (hlook : d.permits (.look key)) (first second : Value) (options : List Value)
    (reverse : Bool) :
    Disciplined d S (_legacy_lex_range key first second options reverse : K F Reply) fun _ => True :=
  (of_computes (computes_rangeOptions _ _ options)).bind fun _ _ => disciplined_zrangeWith hlook first second _ reverse

theorem disciplined_ZCOUNT (hlook : d.permits (.look key)) (min_ max_ : Value) :
    Disciplined d S (ZCOUNT key min_ max_ : K F Reply) fun _ => True := by
  refine (of_computes (computes_score_bound min_)).bind ?_
  intro _ _
  refine (of_computes (computes_score_bound max_)).bind ?_
  intro _ _
  refine (looks_zset hlook).andThen ?_
  intro z _
  cases z <;> exact .pure trivial

theorem disciplined_ZLEXCOUNT (hlook : d.permits (.look key)) (min_ max_ : Value) :
    Disciplined d S (ZLEXCOUNT key min_ max_ : K F Reply) fun _ => True := by
  refine (of_computes (computes_parse_bounds min_ max_ .bylex false)).bind ?_
  intro parsed _
  refine (looks_zset hlook).andThen ?_
  intro z _
  cases z with
  | none => exact .pure trivial
  | some z =>
    refine .ite (fun _ => .pure trivial) fun _ => ?_
    exact (of_computes (computes_range_pairs z _ false)).bind fun _ _ => .pure trivial

/-! ## Removals -/

/-- The members are removed in turn. -/
theorem disciplined_zremLoop {z : ZSet F} (hempty : ¬d.nonempty) (hlook : d.permits (.look key)) (hseen : key ∈ S) (hz : d.zset z)
    (vals : List Value) (removed : Nat) : Disciplined d S (zremLoop key vals z removed : K F _) fun r => d.zset r.1 := by
  induction vals generalizing z removed with
  | nil => exact .pure hz
  | cons member rest ih =>
    exact (disciplined_inPlace hempty hlook hseen (Discipline.zset_remove hz member)).bind fun r hr => ih hr _

omit [PyFloat F] in
/-- A removal is told of, and an empty set goes. -/
theorem disciplined_afterRemoval (hold : d.permits (.create key)) (hseen : key ∈ S) (z : ZSet F) (removed : Nat) (event : Event) :
    Disciplined d S (afterRemoval key z removed event : K F Reply) fun _ => True := by
  have hend : Disciplined d S (dropEmptyZset key z >>= fun _ => pure (.int removed) : K F Reply) fun _ => True :=
    (disciplined_dropEmptyZset hseen z).bind fun _ _ => .pure trivial
  exact .ite (fun _ => (disciplined_after_write hold event).bind fun _ _ => hend) fun _ => hend

/-- ZREM removes members of the set it looked at. -/
theorem disciplined_ZREM (hempty : ¬d.nonempty) (hlook : d.permits (.look key)) (vals : List Value) :
    Disciplined d S (ZREM key vals : K F Reply) fun _ => True := by
  have hseen := Set.mem_insert key S
  unfold ZREM
  refine built_check fun _ => ?_
  refine (looks_zset hlook).andThen ?_
  intro o ho
  cases o with
  | none => exact .pure trivial
  | some z =>
    obtain ⟨hold, hz⟩ := ho z rfl
    refine (disciplined_zremLoop hempty hlook hseen (Discipline.zset_of_obj hz) vals 0).bind ?_
    intro r _
    exact disciplined_afterRemoval hold hseen _ _ _

omit [PyFloat F] in
/-- A removal of a range. -/
theorem disciplined_removeRange (hempty : ¬d.nonempty) (hlook : d.permits (.look key)) (hseen : key ∈ S)
    (hold : d.permits (.create key))
    {r : Option Nat × ZSet F} (hr : d.zset r.2) (event : Event) :
    Disciplined d S (do
      let (removed, z) ← inPlace key r
      afterRemoval key z removed event : K F Reply) fun _ => True :=
  (disciplined_inPlace hempty hlook hseen hr).bind fun _ _ => disciplined_afterRemoval hold hseen _ _ event

omit [PyFloat F] in
/-- ZREMRANGEBYRANK removes a range of ranks. -/
theorem disciplined_ZREMRANGEBYRANK (hempty : ¬d.nonempty) (hlook : d.permits (.look key)) (start stop : Int) :
    Disciplined d S (ZREMRANGEBYRANK key start stop : K F Reply) fun _ => True := by
  refine (looks_zset hlook).andThen ?_
  intro o ho
  cases o with
  | none => exact .pure trivial
  | some z =>
    obtain ⟨hold, hz⟩ := ho z rfl
    have hr := Discipline.zset_remove_rank (Discipline.zset_of_obj hz) start stop
    exact disciplined_removeRange hempty hlook (Set.mem_insert key S) hold hr .zremrangebyrank

/-- ZREMRANGEBYSCORE removes a range of scores. -/
theorem disciplined_ZREMRANGEBYSCORE (hempty : ¬d.nonempty) (hlook : d.permits (.look key)) (min_ max_ : Value) :
    Disciplined d S (ZREMRANGEBYSCORE key min_ max_ : K F Reply) fun _ => True := by
  refine (of_computes (computes_score_bound min_)).bind ?_
  intro lo _
  refine (of_computes (computes_score_bound max_)).bind ?_
  intro hi _
  refine (looks_zset hlook).andThen ?_
  intro o ho
  cases o with
  | none => exact .pure trivial
  | some z =>
    obtain ⟨hold, hz⟩ := ho z rfl
    have hr := Discipline.zset_remove_score (Discipline.zset_of_obj hz) lo.1 lo.2 hi.1 hi.2
    exact disciplined_removeRange hempty hlook (Set.mem_insert key S) hold hr .zremrangebyscore

omit [PyFloat F] in
/-- ZREMRANGEBYLEX removes a range of names. -/
theorem disciplined_ZREMRANGEBYLEX (hempty : ¬d.nonempty) (hlook : d.permits (.look key)) (min_ max_ : Value) :
    Disciplined d S (ZREMRANGEBYLEX key min_ max_ : K F Reply) fun _ => True := by
  refine (of_computes (computes_lex_bound min_ true)).bind ?_
  intro lo _
  refine (of_computes (computes_lex_bound max_ false)).bind ?_
  intro hi _
  refine (looks_zset hlook).andThen ?_
  intro o ho
  cases o with
  | none => exact .pure trivial
  | some z =>
    obtain ⟨hold, hz⟩ := ho z rfl
    refine .ite (fun _ => .pure trivial) fun _ => ?_
    have hr := Discipline.zset_remove_member (Discipline.zset_of_obj hz) lo.1 lo.2.1 hi.1 hi.2.1
    exact disciplined_removeRange hempty hlook (Set.mem_insert key S) hold hr .zremrangebylex

/-- ZPOPMIN and ZPOPMAX take pairs from an end. -/
theorem disciplined_zpop (hempty : ¬d.nonempty) (hlook : d.permits (.look key)) (count : Option Int) (left : Bool) :
    Disciplined d S (_zpop key count left : K F Reply) fun _ => True := by
  have hseen := Set.mem_insert key S
  unfold _zpop
  refine built_check fun _ => ?_
  refine (looks_zset hlook).andThen ?_
  intro o ho
  cases o with
  | none => exact .pure trivial
  | some z =>
    obtain ⟨hold, hz⟩ := ho z rfl
    refine .ite (fun _ => .pure trivial) ?_
    intro _
    refine .bind (Q := fun _ => True) (.ite (fun _ => .pure trivial) fun _ => ?_) fun z _ => ?_
    · have hr := Discipline.zset_remove_rank (Discipline.zset_of_obj hz)
      exact (disciplined_inPlace hempty hlook hseen (hr _ _)).bind fun _ _ => .pure trivial
    refine (disciplined_after_write hold _).bind ?_
    intro _ _
    refine (disciplined_dropEmptyZset hseen z).bind ?_
    intro _ _
    refine (disciplined_is_live hlook).bind ?_
    intro live _
    refine .ite (fun _ => ?_) fun _ => .pure trivial
    exact (disciplined_notify hold .del).bind fun _ _ => .pure trivial

theorem disciplined_ZSCAN (hlook : d.permits (.look key)) (cursor : Value) (options : List Value) :
    Disciplined d S (ZSCAN key cursor options : K F Reply) fun _ => True := by
  refine (of_computes (computes_parse_scan_cursor cursor)).bind ?_
  intro _ _
  refine (of_computes (computes_parse_scan_options none options)).bind ?_
  intro pattern _
  refine (of_computes (computes_compilePattern pattern)).bind ?_
  intro rgx _
  refine (looks_zset hlook).andThen ?_
  intro o _
  cases o with
  | none => exact .pure trivial
  | some z => exact .bind (built_filterM fun p _ => of_computes (computes_patternMatches rgx p.2)) fun _ _ => .pure trivial

/-- ZRANDMEMBER draws members and leaves them. -/
theorem disciplined_ZRANDMEMBER (hlook : d.permits (.look key)) (count : Option Int) (options : List Value) :
    Disciplined d S (ZRANDMEMBER key count options : K F Reply) fun _ => True := by
  cases count with
  | none =>
    unfold ZRANDMEMBER
    refine built_check fun _ => ?_
    refine (looks_zset hlook).andThen ?_
    intro z _
    refine .ite (fun _ => .pure trivial) ?_
    intro _
    exact (disciplined_choice _).bind fun _ _ => .pure trivial
  | some count =>
    refine (of_computes (computes_flagOptions _ options)).bind ?_
    intro _ _
    refine (looks_zset hlook).andThen ?_
    intro z _
    refine .ite (fun _ => .pure trivial) ?_
    intro _
    refine (disciplined_pick _ count).bind ?_
    intro picked _
    refine .ite (fun _ => .pure trivial) ?_
    intro _
    refine .bind (built_mapM (Q := fun _ => True) fun member _ => ?_) fun _ _ => .pure trivial
    exact (of_computes (computes_orFail _)).bind fun _ _ => .pure trivial

end Kagni
