import Kagni.Extended
import Kagni.Footprints.Aggregate
import Kagni.Lemmas.Content
import Kagni.Lemmas.SortedSet
import Kagni.Lib.Extremum

/-!
# Weights and NaN

The scores of an aggregate are folded from left to right, and a NaN is replaced at the end of the fold. Before that it takes
part in comparisons: in front it stays, further back it is passed over. So MIN and MAX depend on the order of the sources,
unless the NaNs do no harm.
-/

namespace Kagni

open Lib Lib.Prog

variable {F : Type}

/-- A source of an aggregate: a key, its weight, and the sorted set under the key. -/
structure Source (F : Type) where
  key : Bytes
  weight : F
  set : Option (ZSet F)

/-- The source as the parser leaves it. -/
def Source.arg (x : Source F) : Value × F := (.bytes x.key, x.weight)

/-- The source is what is stored, and in order. -/
structure Source.Stored [PyFloat F] (s : Content F) (x : Source F) : Prop where
  value : s.value (.bytes x.key) = x.set.map .zset
  valid : ∀ z ∈ x.set, z.Valid

/-- Whether a member is in the result: in the union if a source has it, in the intersection if all have it, in the difference
if only the first has it. -/
def ZOp.Has (op : ZOp) (sources : List (Source F)) (member : Bytes) : Prop :=
  match op with
  | .zunion => ∃ x ∈ sources, (scoreIn x.set member).isSome = true
  | .zinter => ∀ x ∈ sources, (scoreIn x.set member).isSome = true
  | .zdiff => ∃ first ∈ sources.head?, (scoreIn first.set member).isSome = true ∧ ∀ x ∈ sources.tail, scoreIn x.set member = none

variable [PyFloat F]

/-- The weighted scores of a member, from the sources that have it. -/
def products (sources : List (Source F)) (member : Bytes) : List F :=
  sources.filterMap fun x => (scoreIn x.set member).map fun score => PyFloat.mul score x.weight

/-- A NaN counts as 0. -/
def orZero (p : F) : F := if PyFloat.isNaN p then PyFloat.zero else p

/-- The first is better than the second: smaller under MIN, larger under MAX. -/
def Aggregate.prefers (aggregate : Aggregate) (p q : F) : Bool :=
  match aggregate with
  | .MIN => PyFloat.lt p q
  | .MAX => PyFloat.lt q p
  | .SUM => false

/-- One of the products, a NaN counted as 0, than which none is better. -/
def Aggregate.Best (aggregate : Aggregate) (products : List F) (x : F) : Prop :=
  x ∈ products.map orZero ∧ ∀ p ∈ products.map orZero, aggregate.prefers p x = false

/-- The NaNs do no harm: there is none, or nothing else, or 0 is the best of the other products. -/
def Aggregate.Harmless (aggregate : Aggregate) (products : List F) : Prop :=
  (∃ p ∈ products, PyFloat.isNaN p = true) → (∃ p ∈ products, PyFloat.isNaN p = false) →
    PyFloat.zero ∈ products ∧ ∀ p ∈ products, aggregate.prefers p PyFloat.zero = false

/-- The fold over the products. -/
def folded (aggregate : Aggregate) : List F → Option F
  | [] => none
  | p :: ps => some (ps.foldl (fun a b => _combine a b aggregate) p)

/-! ## The scores of the result -/

/-- The sources as the loops see them. -/
def Source.pair (x : Source F) : Option (ZSet F) × F := (x.set, x.weight)

theorem folded_append (aggregate : Aggregate) (ps : List F) (p : F) :
    folded aggregate (ps ++ [p]) = some (match folded aggregate ps with
      | none => p
      | some old => _combine old p aggregate) := by
  cases ps with
  | nil => rfl
  | cons q ps => simp [folded]

/-- The inner loop of the union, over the pairs of one source. -/
theorem get_unionStep (aggregate : Aggregate) (weight : F) {l : List (F × Value)} (hl : (l.map Prod.snd).Nodup)
    (agg : Dict Value F) (m : Value) :
    (l.foldl (fun agg p =>
        let value := PyFloat.mul p.1 weight
        agg.set p.2 (match agg.get p.2 with
          | none => value
          | some old => _combine old value aggregate)) agg).get m =
      match l.find? fun p => p.2 = m with
      | none => agg.get m
      | some p => some (match agg.get m with
        | none => PyFloat.mul p.1 weight
        | some old => _combine old (PyFloat.mul p.1 weight) aggregate) := by
  induction l generalizing agg with
  | nil => rfl
  | cons q l ih =>
    obtain ⟨hq, hl⟩ := List.nodup_cons.1 hl
    rw [List.foldl_cons, ih hl, List.find?_cons]
    dsimp only
    by_cases hm : q.2 = m
    · subst hm
      have hnone : (l.find? fun p => decide (p.2 = q.2)) = none := by
        refine List.find?_eq_none.2 fun p hp hc => hq ?_
        exact List.mem_map.2 ⟨p, hp, of_decide_eq_true hc⟩
      rw [hnone, decide_eq_true rfl]
      exact Dict.get_set_self ..
    · rw [decide_eq_false hm]
      dsimp only
      rw [Dict.get_set, if_neg fun h => hm h.symm]

theorem products_append (sources sources' : List (Source F)) (m : Bytes) :
    products (sources ++ sources') m = products sources m ++ products sources' m := List.filterMap_append ..

theorem products_cons (x : Source F) (sources : List (Source F)) (m : Bytes) :
    products (x :: sources) m = ((scoreIn x.set m).map fun score => PyFloat.mul score x.weight).toList ++ products sources m := by
  unfold products
  rw [List.filterMap_cons]
  cases scoreIn x.set m with
  | none => rfl
  | some score => rfl

theorem mem_products {sources : List (Source F)} {m : Bytes} {p : F} :
    p ∈ products sources m ↔ ∃ x ∈ sources, ∃ score, scoreIn x.set m = some score ∧ PyFloat.mul score x.weight = p := by
  simp only [products, List.mem_filterMap, Option.map_eq_some_iff]

/-- The pair of a member in the list of a valid set. -/
theorem find?_sorted {z : ZSet F} (h : z.Valid) (m : Bytes) :
    (z.sorted.find? fun p => p.2 = .bytes m) = (z.score (.bytes m)).map fun score => (score, .bytes m) := by
  cases hscore : z.score (.bytes m) with
  | none =>
    refine List.find?_eq_none.2 fun p hp hc => ?_
    obtain ⟨score, member⟩ := p
    obtain rfl : member = .bytes m := of_decide_eq_true hc
    rw [(h.scores _ score).2 hp] at hscore
    cases hscore
  | some score =>
    have hmem := (h.scores _ score).1 hscore
    cases hfind : z.sorted.find? fun p => decide (p.2 = .bytes m) with
    | none =>
      have hno := List.find?_eq_none.1 hfind _ hmem
      simp at hno
    | some p =>
      have hp := List.find?_some hfind
      have heq : p.2 = .bytes m := by simpa using hp
      exact congrArg some (h.injective (List.mem_of_find?_eq_some hfind) hmem heq)

variable {s : Content F} {aggregate : Aggregate}

/-- The union folds the products of every member. -/
theorem get_unionScores [PyFloat.Ordered F] {sources : List (Source F)} (hvalid : ∀ x ∈ sources, ∀ z ∈ x.set, z.Valid)
    (m : Bytes) :
    (unionScores aggregate (sources.map Source.pair)).get (.bytes m) = folded aggregate (products sources m) := by
  induction sources using List.reverseRecOn with
  | nil => rfl
  | append_singleton sources x ih =>
    have hx := hvalid x (List.mem_append_right _ List.mem_cons_self)
    have ih := ih fun y hy => hvalid y (List.mem_append_left _ hy)
    rw [products_append, products_cons, List.map_append]
    change _ = folded aggregate (products sources m ++ (_ ++ []))
    rw [List.append_nil]
    unfold unionScores at ih ⊢
    rw [List.foldl_append, show [x].map Source.pair = [(x.set, x.weight)] from rfl]
    cases hset : x.set with
    | none =>
      refine ih.trans ?_
      simp [scoreIn]
    | some z =>
      have hz := hx z hset
      refine (get_unionStep aggregate x.weight hz.nodup_members _ _).trans ?_
      rw [find?_sorted hz, ih]
      have hscore : scoreIn (some z) m = z.score (.bytes m) := rfl
      rw [hscore]
      cases z.score (.bytes m) with
      | none => simp
      | some score =>
        rw [Option.map_some, Option.map_some, Option.toList_some, folded_append]

omit [PyFloat F] in
/-- The loop of the intersection, over the pairs of the first source. -/
theorem get_interStep (f : F × Value → Option F) {l : List (F × Value)} (hl : (l.map Prod.snd).Nodup)
    (agg : Dict Value F) (m : Value) :
    (l.foldl (fun agg p => match f p with
        | none => agg
        | some value => agg.set p.2 value) agg).get m = ((l.find? fun p => p.2 = m).bind f).or (agg.get m) := by
  induction l generalizing agg with
  | nil => rfl
  | cons q l ih =>
    obtain ⟨hq, hl⟩ := List.nodup_cons.1 hl
    rw [List.foldl_cons, ih hl, List.find?_cons]
    by_cases hm : q.2 = m
    · subst hm
      have hnone : (l.find? fun p => decide (p.2 = q.2)) = none := by
        refine List.find?_eq_none.2 fun p hp hc => hq ?_
        exact List.mem_map.2 ⟨p, hp, of_decide_eq_true hc⟩
      rw [hnone, decide_eq_true rfl]
      cases hf : f q with
      | none => simp [hf]
      | some value => simp [hf]
    · rw [decide_eq_false hm]
      have hother : ∀ value, (agg.set q.2 value).get m = agg.get m := fun value => by rw [Dict.get_set, if_neg fun h => hm h.symm]
      cases f q with
      | none => rfl
      | some value => rw [hother]

theorem interScore_eq (m : Bytes) (value : F) (sources : List (Source F)) :
    interScore aggregate (.bytes m) value (sources.map Source.pair) =
      if ∀ x ∈ sources, (scoreIn x.set m).isSome = true then some
        ((products sources m).foldl (fun a b => _combine a b aggregate) value) else none := by
  induction sources generalizing value with
  | nil => simp [interScore, products]
  | cons x sources ih =>
    rw [List.map_cons, Source.pair, interScore, products_cons]
    change (match scoreIn x.set m with
      | none => none
      | some score =>
        interScore aggregate (.bytes m) (_combine value (PyFloat.mul score x.weight) aggregate) (sources.map Source.pair)) = _
    cases hscore : scoreIn x.set m with
    | none => rw [if_neg fun h => by simpa [hscore] using h x List.mem_cons_self]
    | some score =>
      dsimp only
      rw [ih]
      simp [hscore]

theorem products_eq_nil {sources : List (Source F)} {m : Bytes} (h : ¬∃ x ∈ sources, (scoreIn x.set m).isSome = true) :
    products sources m = [] := by
  refine List.eq_nil_iff_forall_not_mem.2 ?_
  intro p hp
  obtain ⟨x, hx, score, hscore, -⟩ := mem_products.1 hp
  exact h ⟨x, hx, by rw [hscore]; rfl⟩

/-- The intersection folds the products of the members that every source has. -/
theorem get_zinter [PyFloat.Ordered F] (aggregate : Aggregate) {first : Source F} (sources : List (Source F))
    (hvalid : ∀ z ∈ first.set, z.Valid) (m : Bytes) :
    (aggregateScores .zinter aggregate ((first :: sources).map Source.pair)).get (.bytes m) =
      if ∀ x ∈ first :: sources, (scoreIn x.set m).isSome = true then folded aggregate (products (first :: sources) m)
        else none := by
  have hstep := get_interStep (fun p => interScore aggregate p.2 (PyFloat.mul p.1 first.weight) (sources.map Source.pair))
    (l := (first.set.map ZSet.sorted).getD []) ?_ ∅ (.bytes m)
  · refine Eq.trans hstep ?_
    cases hset : first.set with
    | none =>
      rw [if_neg fun h => ?_]
      · rfl
      · have hfirst := h first List.mem_cons_self
        rw [hset] at hfirst
        cases hfirst
    | some z =>
      change ((z.sorted.find? fun p => decide (p.2 = .bytes m)).bind _).or _ = _
      rw [find?_sorted (hvalid z hset), products_cons, hset, show scoreIn (some z) m = z.score (.bytes m) from rfl]
      cases hscore : z.score (.bytes m) with
      | none =>
        rw [if_neg fun h => ?_]
        · rfl
        · have hfirst := h first List.mem_cons_self
          rw [hset, show scoreIn (some z) m = z.score (.bytes m) from rfl, hscore] at hfirst
          cases hfirst
      | some score =>
        rw [Option.map_some, Option.bind_some, interScore_eq]
        have hall : (∀ x ∈ first :: sources, (scoreIn x.set m).isSome = true) ↔ ∀ x ∈ sources,
            (scoreIn x.set m).isSome = true := by
          rw [List.forall_mem_cons, hset, show scoreIn (some z) m = z.score (.bytes m) from rfl, hscore]
          simp
        simp only [hall]
        split
        · rfl
        · rfl
  · cases hset : first.set with
    | none => exact .nil
    | some z => exact (hvalid z hset).nodup_members

/-- The scores that are computed for a member of the union or of the intersection, and no others. -/
theorem get_aggregateScores [PyFloat.Ordered F] {op : ZOp} (hop : op ≠ .zdiff) {sources : List (Source F)}
    (hvalid : ∀ x ∈ sources, ∀ z ∈ x.set, z.Valid) (m : Bytes) :
    (op.Has sources m → (aggregateScores op aggregate (sources.map Source.pair)).get (.bytes m) = folded aggregate
      (products sources m)) ∧
      (¬op.Has sources m → (aggregateScores op aggregate (sources.map Source.pair)).get (.bytes m) = none) := by
  cases op with
  | zdiff => exact absurd rfl hop
  | zunion =>
    have hunion : (aggregateScores .zunion aggregate (sources.map Source.pair)).get (.bytes m) = folded aggregate
        (products sources m) := by
      cases sources with
      | nil => rfl
      | cons x sources => exact get_unionScores hvalid m
    refine ⟨fun _ => hunion, fun hno => hunion.trans ?_⟩
    rw [products_eq_nil hno]
    rfl
  | zinter =>
    cases sources with
    | nil => exact ⟨fun _ => rfl, fun _ => rfl⟩
    | cons x sources =>
      have hinter := get_zinter aggregate sources (hvalid x List.mem_cons_self) m
      exact ⟨fun h => hinter.trans (if_pos h), fun h => hinter.trans (if_neg h)⟩

/-! ## The result -/

section Result

variable [PyFloat.Ordered F] {ctx : Ctx} {ks : Set Bytes}

/-- The result is built member by member. -/
theorem steps_build (ctx : Ctx) (s : Content F) (hzero : PyFloat.isNaN (PyFloat.zero : F) = false) {l : List (Value × F)}
    (hkeys : ∀ p ∈ l, p.1.IsBytes)
    (hnodup : (l.map Prod.fst).Nodup) {z : ZSet F} (hz : z.Valid) (hfresh : ∀ p ∈ l, z.score p.1 = none) :
    ∃ z', Steps ctx ks s (Prog.fold (fun (z : ZSet F) p =>
        match z.add p.1 (if PyFloat.isNaN p.2 then PyFloat.zero else p.2) with
        | (some _, z') => pure z'
        | (none, _) => fail) z l : K F (ZSet F)) (.ok z') s ∧ z'.Valid ∧
      ∀ m, z'.score m = ((Dict.lookup m l).map orZero).or (z.score m) := by
  induction l generalizing z with
  | nil => exact ⟨z, .pure z, hz, fun m => rfl⟩
  | cons p l ih =>
    obtain ⟨hp, hkeys⟩ := List.forall_mem_cons.1 hkeys
    obtain ⟨hout, hnodup⟩ := List.nodup_cons.1 hnodup
    obtain ⟨hfree, hfresh⟩ := List.forall_mem_cons.1 hfresh
    obtain ⟨b, hb⟩ := (Value.isBytes_iff _).1 hp
    have hnum : PyFloat.isNaN (if PyFloat.isNaN p.2 then PyFloat.zero else p.2) = false := by
      split
      · exact hzero
      · exact eq_false_of_ne_true ‹_›
    obtain ⟨c, z₁, hadd, hz₁, hothers, hown⟩ := hz.add b hnum
    rw [← hb] at hadd hothers hown
    have hscore : z₁.score p.1 = some (orZero p.2) := by
      rcases hown with ⟨-, -, current, hcurrent, -⟩ | ⟨-, hnew⟩
      · rw [hfree] at hcurrent
        cases hcurrent
      · exact hnew
    obtain ⟨z', hrun, hz', hscores⟩ := ih hkeys hnodup hz₁ fun q hq => by
      rw [hothers q.1 fun h => hout (h ▸ List.mem_map_of_mem hq)]
      exact hfresh q hq
    refine ⟨z', ?_, hz', fun m => ?_⟩
    · rw [Prog.fold_cons, hadd]
      exact (Steps.pure z₁).bind hrun
    · rw [hscores, Dict.lookup]
      by_cases hm : m = p.1
      · have hnone : Dict.lookup p.1 l = none := (Dict.get_eq_none_iff ⟨l, hnodup⟩ p.1).2 hout
        rw [hm, if_pos rfl, hnone, hscore]
        rfl
      · rw [if_neg hm, hothers m hm]

/-- The result holds the folds over the products of the members it should have. -/
structure ZOp.Folds (op : ZOp) (aggregate : Aggregate) (sources : List (Source F)) (z : ZSet F) : Prop where
  valid : z.Valid
  score : ∀ m, op.Has sources m → z.score (.bytes m) = (folded aggregate (products sources m)).map orZero
  none : ∀ m, ¬op.Has sources m → z.score (.bytes m) = none

/-- The score of a member in the result of a union or an intersection. -/
theorem steps_aggregate (hzero : PyFloat.isNaN (PyFloat.zero : F) = false) {op : ZOp} (hop : op ≠ .zdiff) (aggregate : Aggregate)
    {sources : List (Source F)} (hctx : ∀ x ∈ sources, ctx.Purges ks s x.key) (hstored : ∀ x ∈ sources, x.Stored s) :
    ∃ z, Steps ctx ks s (_aggregate op (sources.map Source.arg) aggregate) (.ok z) s ∧ op.Folds aggregate sources z := by
  have hvalid : ∀ x ∈ sources, ∀ z ∈ x.set, z.Valid := fun x hx => (hstored x hx).valid
  have hkeys : ∀ p ∈ (aggregateScores op aggregate (sources.map Source.pair)).entries, p.1.IsBytes := fun p hp => by
    refine keys_aggregateScores (fun source hsource z hz => ?_) op aggregate p.1 (List.mem_map_of_mem hp)
    obtain ⟨x, hx, rfl⟩ := List.mem_map.1 hsource
    exact (hvalid x hx z hz).bytes
  obtain ⟨z, hbuild, hz, hscores⟩ := steps_build ctx s hzero hkeys (aggregateScores op aggregate (sources.map Source.pair)).nodup
    ZSet.valid_empty fun _ _ => rfl
  have hread : Steps ctx ks s (mapM_ (fun k => do return (← _zset k.1, k.2)) (sources.map Source.arg))
      (.ok (sources.map Source.pair)) s :=
    steps_mapM fun x hx => (steps_zset (hctx x hx) (hstored x hx).value).bind (.pure _)
  have hget : ∀ m, z.score (.bytes m) = ((aggregateScores op aggregate (sources.map Source.pair)).get (.bytes m)).map
    orZero := fun m => by
    rw [hscores]
    exact Option.or_none
  refine ⟨z, hread.bind hbuild, hz, fun m h => ?_, fun m h => ?_⟩
  · rw [hget, (get_aggregateScores hop hvalid m).1 h]
  · rw [hget, (get_aggregateScores hop hvalid m).2 h]
    rfl

end Result

/-! ## Numbers under an aggregate -/

/-- Floats as numbers, in the order in which MIN or MAX prefers them. -/
structure Aggregate.Numbering {K : Type} [LinearOrder K] (aggregate : Aggregate) (num : F → Option K) (z : K) : Prop where
  zero : num PyFloat.zero = some z
  nan : ∀ p : F, num p = none ↔ PyFloat.isNaN p = true
  injective : Function.Injective num
  prefers : ∀ p q : F, aggregate.prefers p q = true ↔ ∃ x y, num p = some x ∧ num q = some y ∧ x < y
  combine : ∀ p q : F, _combine p q aggregate = if aggregate.prefers q p then q else p

namespace Aggregate.Numbering

variable {K : Type} [LinearOrder K] {num : F → Option K} {z : K} (h : aggregate.Numbering num z)

include h

theorem number_orZero (p : F) : num (orZero p) = some ((num p).getD z) := by
  unfold orZero
  cases hp : num p with
  | none => rw [if_pos ((h.nan p).1 hp), h.zero]; rfl
  | some x =>
    rw [if_neg fun hn => by rw [(h.nan p).2 hn] at hp; cases hp]
    exact hp

theorem number_combine (p q : F) : num (_combine p q aggregate) = keepLess (num p) (num q) := by
  rw [h.combine]
  cases hp : num p with
  | none =>
    rw [if_neg fun hq => ?_]
    · rw [hp]
      rfl
    · obtain ⟨-, y, -, hy, -⟩ := (h.prefers q p).1 hq
      rw [hp] at hy
      cases hy
  | some x =>
    cases hq : num q with
    | none =>
      rw [if_neg fun hc => ?_]
      · exact hp
      · obtain ⟨y, -, hy, -⟩ := (h.prefers q p).1 hc
        rw [hq] at hy
        cases hy
    | some y =>
      have hiff : aggregate.prefers q p = true ↔ y < x := (h.prefers q p).trans (by simp [hp, hq])
      by_cases hlt : y < x
      · rw [if_pos (hiff.2 hlt), hq]
        exact (if_pos hlt).symm
      · rw [if_neg fun hc => hlt (hiff.1 hc), hp]
        exact (if_neg hlt).symm

theorem number_foldl (p : F) (ps : List F) :
    num (ps.foldl (fun a b => _combine a b aggregate) p) = (ps.map num).foldl keepLess (num p) := by
  induction ps generalizing p with
  | nil => rfl
  | cons q ps ih => rw [List.foldl_cons, ih, h.number_combine, List.map_cons, List.foldl_cons]

theorem best_iff {ps : List F} {x : F} : aggregate.Best ps x ↔ ∃ v, num x = some v ∧ IsLeast (filled z (ps.map num)) v := by
  have hfilled : filled z (ps.map num) = {v | ∃ p ∈ ps, num (orZero p) = some v} := by
    ext v
    simp [filled, h.number_orZero]
  rw [hfilled]
  constructor
  · rintro ⟨hmem, hbest⟩
    obtain ⟨p, hp, rfl⟩ := List.mem_map.1 hmem
    refine ⟨_, h.number_orZero p, ⟨p, hp, h.number_orZero p⟩, ?_⟩
    rintro w ⟨q, hq, hw⟩
    by_contra hlt
    have hprefers := (h.prefers (orZero q) (orZero p)).2 ⟨w, _, hw, h.number_orZero p, not_le.1 hlt⟩
    rw [hbest _ (List.mem_map_of_mem hq)] at hprefers
    cases hprefers
  · rintro ⟨v, hv, ⟨p, hp, hpv⟩, hmin⟩
    obtain rfl := h.injective (hpv.trans hv.symm)
    refine ⟨List.mem_map_of_mem hp, List.forall_mem_map.2 fun q hq => ?_⟩
    by_contra hprefers
    obtain ⟨y, x, hy, hx, hlt⟩ := (h.prefers _ _).1 (Bool.not_eq_false _ ▸ hprefers)
    rw [hv] at hx
    obtain rfl := Option.some.inj hx
    exact absurd (hmin ⟨q, hq, hy⟩) (not_le.2 hlt)

theorem harmless_iff {ps : List F} : aggregate.Harmless ps ↔ Fair z (ps.map num) := by
  have hnone : none ∈ ps.map num ↔ ∃ p ∈ ps, PyFloat.isNaN p = true := by simp [h.nan]
  have hsome : (∃ x, some x ∈ ps.map num) ↔ ∃ p ∈ ps, PyFloat.isNaN p = false := by
    simp only [List.mem_map]
    constructor
    · rintro ⟨x, p, hp, hx⟩
      refine ⟨p, hp, Bool.not_eq_true _ ▸ fun hn => ?_⟩
      rw [(h.nan p).2 hn] at hx
      cases hx
    · rintro ⟨p, hp, hn⟩
      obtain ⟨x, hx⟩ := Option.ne_none_iff_exists'.1 fun hc => by rw [(h.nan p).1 hc] at hn; cases hn
      exact ⟨x, p, hp, hx⟩
  have hleast : IsLeast (numbers (ps.map num)) z ↔ PyFloat.zero ∈ ps ∧ ∀ p ∈ ps, aggregate.prefers p PyFloat.zero = false := by
    refine and_congr ?_ ?_
    · change some z ∈ ps.map num ↔ _
      rw [← h.zero, List.mem_map_of_injective h.injective]
    · constructor
      · intro hmin p hp
        by_contra hprefers
        obtain ⟨x, y, hx, hy, hlt⟩ := (h.prefers _ _).1 (Bool.not_eq_false _ ▸ hprefers)
        rw [h.zero] at hy
        obtain rfl := Option.some.inj hy
        exact absurd (hmin (List.mem_map.2 ⟨p, hp, hx⟩)) (not_le.2 hlt)
      · intro hno x hx
        obtain ⟨p, hp, hx⟩ := List.mem_map.1 hx
        by_contra hlt
        have hprefers := (h.prefers p PyFloat.zero).2 ⟨x, z, hx, h.zero, not_le.1 hlt⟩
        rw [hno p hp] at hprefers
        cases hprefers
  unfold Fair Aggregate.Harmless
  rw [hnone, hsome, hleast]

/-- Where NaNs do no harm, the fold finds the best product. -/
theorem best_of_harmless {p : F} {ps : List F} (hps : aggregate.Harmless (p :: ps)) :
    aggregate.Best (p :: ps) (orZero (ps.foldl (fun a b => _combine a b aggregate) p)) := by
  refine h.best_iff.2 ⟨_, h.number_orZero _, ?_⟩
  rw [h.number_foldl]
  exact isLeast_filled (h.harmless_iff.1 hps)

/-- Where the fold finds one score whichever product comes first, NaNs do no harm. -/
theorem harmless_of_first {ps : List F} {x : F}
    (hfirst : ∀ p ∈ ps, ∃ rest, (p :: rest).Perm ps ∧ orZero (rest.foldl (fun a b => _combine a b aggregate) p) = x) :
    aggregate.Harmless ps := by
  refine h.harmless_iff.2 (fair_of_first (v := (num x).getD z) fun y hy => ?_)
  obtain ⟨p, hp, rfl⟩ := List.mem_map.1 hy
  obtain ⟨rest, hperm, hx⟩ := hfirst p hp
  refine ⟨rest.map num, hperm.map num, ?_⟩
  rw [← hx, h.number_orZero, h.number_foldl]
  rfl

/-- The best product is one, in whichever order the products come. -/
theorem best_unique {ps ps' : List F} (hperm : ps'.Perm ps) {x x' : F} (hx : aggregate.Best ps x)
    (hx' : aggregate.Best ps' x') : x' = x := by
  obtain ⟨v, hv, hleast⟩ := h.best_iff.1 hx
  obtain ⟨v', hv', hleast'⟩ := h.best_iff.1 hx'
  have hsame : filled z (ps'.map num) = filled z (ps.map num) := by
    ext w
    simp [filled, hperm.mem_iff]
  rw [hsame] at hleast'
  rw [hleast'.unique hleast] at hv'
  exact h.injective (hv'.trans hv.symm)

end Aggregate.Numbering

theorem Aggregate.Harmless.perm {aggregate : Aggregate} {ps ps' : List F} (hperm : ps'.Perm ps) (h : aggregate.Harmless ps) :
    aggregate.Harmless ps' := by
  unfold Harmless at h ⊢
  simpa only [hperm.mem_iff] using h

/-! ## Exact scores -/

section Exact

variable {R : Type} [CommRing R] [LinearOrder R] [Numerals R] {ctx : Ctx} {ks : Set Bytes} {s : Content (Extended R)}

theorem Extended.isNaN_zero : PyFloat.isNaN (PyFloat.zero : Extended R) = false :=
  Bool.not_eq_true _ ▸ fun h => by cases isNaN_iff.1 h

/-- Under MIN the smaller number is preferred. -/
theorem numbering_MIN : Aggregate.MIN.Numbering (Extended.number : Extended R → _) ((0 : R) : WithTop R) where
  zero := rfl
  nan _ := Extended.number_eq_none_iff.trans Extended.isNaN_iff.symm
  injective := Extended.number_injective
  prefers _ _ := Extended.lt_eq_true_iff
  combine _ _ := rfl

/-- Under MAX the larger one. -/
theorem numbering_MAX : Aggregate.MAX.Numbering (fun p : Extended R => p.number.map OrderDual.toDual)
    (OrderDual.toDual ((0 : R) : WithTop R)) where
  zero := rfl
  nan _ := Option.map_eq_none_iff.trans (Extended.number_eq_none_iff.trans Extended.isNaN_iff.symm)
  injective := (Option.map_injective OrderDual.toDual.injective).comp Extended.number_injective
  prefers p q := by
    refine Extended.lt_eq_true_iff.trans ⟨?_, ?_⟩
    · rintro ⟨x, y, hq, hp, hlt⟩
      exact ⟨.toDual y, .toDual x, by rw [hp]; rfl, by rw [hq]; rfl, OrderDual.toDual_lt_toDual.2 hlt⟩
    · rintro ⟨y, x, hp, hq, hlt⟩
      obtain ⟨y', hy, rfl⟩ := Option.map_eq_some_iff.1 hp
      obtain ⟨x', hx, rfl⟩ := Option.map_eq_some_iff.1 hq
      exact ⟨x', y', hx, hy, OrderDual.toDual_lt_toDual.1 hlt⟩
  combine _ _ := rfl

theorem exists_numbering {aggregate : Aggregate} (hagg : aggregate ≠ .SUM) :
    ∃ (K : Type) (_ : LinearOrder K) (num : Extended R → Option K) (z : K), aggregate.Numbering num z := by
  cases aggregate with
  | SUM => exact absurd rfl hagg
  | MIN => exact ⟨_, _, _, _, numbering_MIN⟩
  | MAX => exact ⟨_, _, _, _, numbering_MAX⟩

/-- The commands of an operation: what reads the result, and what stores it. -/
def ZOp.read (op : ZOp) : Int → List Value → K (Extended R) Reply :=
  match op with
  | .zunion => ZUNION
  | .zinter => ZINTER
  | .zdiff => ZDIFF

def ZOp.store (op : ZOp) : Value → Int → List Value → K (Extended R) Reply :=
  match op with
  | .zunion => ZUNIONSTORE
  | .zinter => ZINTERSTORE
  | .zdiff => ZDIFFSTORE

/-- Their names, which stand in their errors. -/
def ZOp.names : ZOp → Cmd × Cmd
  | .zunion => (.ZUNION, .ZUNIONSTORE)
  | .zinter => (.ZINTER, .ZINTERSTORE)
  | .zdiff => (.ZDIFF, .ZDIFFSTORE)

/-- The events of the ones that store. -/
def ZOp.event : ZOp → Event
  | .zunion => .zunionstore
  | .zinter => .zinterstore
  | .zdiff => .zdiffstore

/-- The aggregate of the sources is `z`, which the commands reply and, if they can publish it, store. -/
structure ZOp.Gives (op : ZOp) (ctx : Ctx) (ks : Set Bytes) (s : Content (Extended R)) (aggregate : Aggregate)
    (sources : List (Source (Extended R)))
    (z : ZSet (Extended R)) : Prop where
  result : Steps ctx ks s (_aggregate op (sources.map Source.arg) aggregate) (.ok z) s
  read : ∀ numkeys rest withscores,
    Yields (F := Extended R) ctx (_parse_zset_op op.names.1 true true numkeys rest)
      (sources.map Source.arg, aggregate, withscores) →
      Steps ctx ks s (op.read numkeys rest) (.ok (_interleave z.pairs withscores)) s
  store : ∀ dest numkeys rest withscores, ctx.EventReturns op.event →
    Yields (F := Extended R) ctx (_parse_zset_op op.names.2 true false numkeys rest)
      (sources.map Source.arg, aggregate, withscores) →
      Steps ctx ks s (op.store (.bytes dest) numkeys rest) (.ok (.int z.size))
        (if z.size = 0 then s.erase (.bytes dest) else s.assign (.bytes dest) (.zset z))

theorem gives_of_steps {op : ZOp} (hop : op ≠ .zdiff) {aggregate : Aggregate} {sources : List (Source (Extended R))}
    {z : ZSet (Extended R)}
    (h : Steps ctx ks s (_aggregate op (sources.map Source.arg) aggregate) (.ok z) s) :
    op.Gives ctx ks s aggregate sources z := by
  have hstore : ∀ (command : Cmd) (event : Event) dest numkeys rest withscores, ctx.EventReturns event →
      Yields (F := Extended R) ctx (_parse_zset_op command true false numkeys rest)
        (sources.map Source.arg, aggregate, withscores) →
      Steps ctx ks s (zopStore op command event true (.bytes dest) numkeys rest) (.ok (.int z.size))
        (if z.size = 0 then s.erase (.bytes dest) else s.assign (.bytes dest) (.zset z)) := by
    intro command event dest numkeys rest withscores hevent hparse
    refine (Steps.of_run hparse).bind (h.bind ?_)
    by_cases hempty : z.size = 0
    · have hreply : Reply.int z.size = .int 0 := congrArg (fun n : Nat => Reply.int n) hempty
      rw [hreply, show (if z.size = 0 then s.erase (.bytes dest) else s.assign (.bytes dest) (.zset z)) =
        s.erase (.bytes dest) from if_pos hempty]
      exact .if_pos hempty ((steps_remove dest).bind (.pure _))
    · rw [show (if z.size = 0 then s.erase (.bytes dest) else s.assign (.bytes dest) (.zset z)) = s.assign (.bytes dest)
        (.zset z) from if_neg hempty]
      exact .if_neg hempty ((steps_setitem dest _).bind ((steps_after_write hevent).bind (.pure _)))
  have hread : ∀ (command : Cmd) numkeys rest withscores,
      Yields (F := Extended R) ctx (_parse_zset_op command true true numkeys rest)
        (sources.map Source.arg, aggregate, withscores) →
      Steps ctx ks s (zopRead op command true numkeys rest) (.ok (_interleave z.pairs withscores)) s :=
        fun command numkeys rest withscores hparse =>
    (Steps.of_run hparse).bind (h.bind (.pure _))
  cases op with
  | zdiff => exact absurd rfl hop
  | zunion => exact ⟨h, hread .ZUNION, hstore .ZUNIONSTORE .zunionstore⟩
  | zinter => exact ⟨h, hread .ZINTER, hstore .ZINTERSTORE .zinterstore⟩

/-- What a source of the result multiplies to comes first when the source does. -/
theorem exists_first {sources : List (Source F)} {m : Bytes} {p : F} (hp : p ∈ products sources m) :
    ∃ sources' rest, sources'.Perm sources ∧ products sources' m = p :: rest := by
  obtain ⟨x, hx, score, hscore, rfl⟩ := mem_products.1 hp
  obtain ⟨l, r, rfl⟩ := List.append_of_mem hx
  refine ⟨x :: (l ++ r), products (l ++ r) m, List.perm_middle.symm, ?_⟩
  rw [products_cons, hscore]
  rfl

omit [PyFloat F] in
theorem ZOp.Has.perm {op : ZOp} (hop : op ≠ .zdiff) {sources sources' : List (Source F)} (hperm : sources'.Perm sources)
    (m : Bytes) :
    op.Has sources' m ↔ op.Has sources m := by
  cases op with
  | zdiff => exact absurd rfl hop
  | zunion => simp only [Has, hperm.mem_iff]
  | zinter => simp only [Has, hperm.mem_iff]

theorem products_ne_nil {op : ZOp} (hop : op ≠ .zdiff) {sources : List (Source F)} (hne : sources ≠ []) {m : Bytes}
    (h : op.Has sources m) :
    products sources m ≠ [] := by
  obtain ⟨x, hx, hsome⟩ : ∃ x ∈ sources, (scoreIn x.set m).isSome = true := by
    cases op with
    | zdiff => exact absurd rfl hop
    | zunion => exact h
    | zinter =>
      obtain ⟨x, sources, rfl⟩ := List.exists_cons_of_ne_nil hne
      exact ⟨x, List.mem_cons_self, h x List.mem_cons_self⟩
  obtain ⟨score, hscore⟩ := Option.isSome_iff_exists.1 hsome
  exact List.ne_nil_of_mem (mem_products.2 ⟨x, hx, score, hscore, rfl⟩)

/-- Where no NaN does harm, every score is the best product. -/
theorem ZOp.Folds.best {op : ZOp} {aggregate : Aggregate} (hagg : aggregate ≠ .SUM) {sources : List (Source (Extended R))}
    {z : ZSet (Extended R)}
    (h : op.Folds aggregate sources z) (hharmless : ∀ m, op.Has sources m → aggregate.Harmless (products sources m))
    (m : Bytes) (x : Extended R)
    (hx : z.score (.bytes m) = some x) : aggregate.Best (products sources m) x := by
  obtain ⟨K, _, num, zero, hnum⟩ := exists_numbering (R := R) hagg
  have hhas : op.Has sources m := by
    by_contra hno
    rw [h.none m hno] at hx
    cases hx
  have hps := hharmless m hhas
  rw [h.score m hhas] at hx
  cases hproducts : products sources m with
  | nil =>
    rw [hproducts] at hx
    cases hx
  | cons p ps =>
    rw [hproducts] at hx hps
    exact Option.some.inj hx ▸ hnum.best_of_harmless hps

/-- Then the order of the sources does not matter. -/
theorem ZOp.Folds.pairs_eq {op : ZOp} (hop : op ≠ .zdiff) {aggregate : Aggregate} (hagg : aggregate ≠ .SUM)
    {sources sources' : List (Source (Extended R))} {z z' : ZSet (Extended R)} (h : op.Folds aggregate sources z)
    (h' : op.Folds aggregate sources' z')
    (hne : sources ≠ []) (hperm : sources'.Perm sources)
    (hharmless : ∀ m, op.Has sources m → aggregate.Harmless (products sources m)) :
    z'.pairs = z.pairs := by
  obtain ⟨K, _, num, zero, hnum⟩ := exists_numbering (R := R) hagg
  have hproducts : ∀ m, (products sources' m).Perm (products sources m) := fun m => hperm.filterMap _
  have hsome : ∀ {sources : List (Source (Extended R))} {z : ZSet (Extended R)}, op.Folds aggregate sources z → sources ≠ [] →
    ∀ m, op.Has sources m →
      ∃ x, z.score (.bytes m) = some x := by
    intro sources z h hne m hm
    obtain ⟨p, ps, hps⟩ := List.exists_cons_of_ne_nil (products_ne_nil hop hne hm)
    rw [h.score m hm, hps]
    exact ⟨_, rfl⟩
  refine h.valid.pairs_eq h'.valid ?_
  intro m
  by_cases hm : op.Has sources m
  · obtain ⟨x, hx⟩ := hsome h hne m hm
    obtain ⟨x', hx'⟩ := hsome h' (fun hnil => hne (List.perm_nil.1 (hnil ▸ hperm.symm))) m ((ZOp.Has.perm hop hperm m).2 hm)
    have hbest := h.best hagg hharmless m x hx
    have hbest' := h'.best hagg (fun m hm => (hharmless m ((ZOp.Has.perm hop hperm m).1 hm)).perm (hproducts m)) m x' hx'
    rw [hx, hx', hnum.best_unique (hproducts m) hbest hbest']
  · rw [h.none m hm, h'.none m fun hm' => hm ((ZOp.Has.perm hop hperm m).1 hm')]

end Exact

/-- A sorted set of one member. -/
def ZSet.single (m : Bytes) (score : F) : ZSet F := ⟨Dict.set ∅ (.bytes m) score, [(score, .bytes m)]⟩

theorem valid_single [PyFloat.Ordered F] (m : Bytes) {score : F} (h : PyFloat.isNaN score = false) :
    (ZSet.single m score).Valid := by
  obtain ⟨b, z, hadd, hvalid, -⟩ := ZSet.valid_empty.add m h
  have hrun : (ZSet.empty : ZSet F).add (.bytes m) score = (some true, ZSet.single m score) := rfl
  rw [hrun] at hadd
  obtain ⟨-, rfl⟩ := Prod.mk_inj.1 hadd
  exact hvalid

/-- `a` holds `m` with an infinite score, and `b` with 5. -/
def twoZsets : KState (Extended Int) :=
  ⟨⟨(Dict.set ∅ (.bytes (bs "a")) ⟨.zset (ZSet.single (bs "m") .pinf), none⟩).set (.bytes (bs "b"))
    ⟨.zset (ZSet.single (bs "m") (.fin 5)), none⟩, ∅⟩, [], 0⟩

def fiveFirst : List (Source (Extended Int)) :=
  [⟨bs "b", .fin 1, some (ZSet.single (bs "m") (.fin 5))⟩, ⟨bs "a", .fin 0, some (ZSet.single (bs "m") .pinf)⟩]

/-- `WEIGHTS` and `AGGREGATE MIN WITHSCORES` after two keys. -/
def unionRequest (keys weights : List String) : List Value :=
  (keys ++ ["WEIGHTS"] ++ weights ++ ["AGGREGATE", "MIN", "WITHSCORES"]).map fun arg => .bytes (bs arg)

theorem fiveFirst_stored : ∀ x ∈ fiveFirst, x.Stored (twoZsets.store.content 0) := by
  intro x hx
  simp only [fiveFirst, List.mem_cons, List.not_mem_nil, or_false] at hx
  rcases hx with rfl | rfl
  · exact ⟨rfl, fun z hz => Option.some.inj hz ▸ valid_single _ rfl⟩
  · exact ⟨rfl, fun z hz => Option.some.inj hz ▸ valid_single _ rfl⟩

end Kagni
