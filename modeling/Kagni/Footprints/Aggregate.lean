import Kagni.Footprints.Zset
import Kagni.Lemmas.ZSet

/-!
# Aggregates of sorted sets obey the discipline

The result of an aggregate is built in a fresh container from members of the sources, so it may be stored because they were,
and it is stored only when it is not empty.
-/

namespace Kagni

open Lib Lib.Prog

variable {F : Type} {d : Discipline} {S : Set Value} [PyFloat F]

/-! ## Parsing -/

omit [PyFloat F] in
theorem computes_mapM_length {α β : Type} {f : α → K F β} {xs : List α} (h : ∀ x ∈ xs, Computes (f x) fun _ => True) :
    Computes (mapM_ f xs) fun ys => ys.length = xs.length := by
  intro S
  induction xs with
  | nil => exact .pure rfl
  | cons x xs ih =>
    refine (h x (by simp)).bind fun y _ => (ih fun z hz => h z (by simp [hz])).bind fun ys hys => .pure ?_
    rw [List.length_cons, List.length_cons, hys]

/-- One round of the option loop. -/
theorem zsetOpOptions_cons (numkeys : Nat) (allow_weights allow_withscores : Bool) (fuel : Nat) (o : ZsetOp F) (opt : Value)
    (rest : List Value) :
    (zsetOpOptions numkeys allow_weights allow_withscores (fuel + 1) o (opt :: rest) : K F (ZsetOp F)) = (do
      let opt ← upperArg opt
      if opt = bs "WEIGHTS" ∧ allow_weights then
        if o.weights.isSome ∨ rest.length < numkeys then throw_ .SYNTAX
        let weights ← mapM_ (floatArg .WEIGHT_FLOAT) (rest.take numkeys)
        zsetOpOptions numkeys allow_weights allow_withscores fuel { o with weights := some weights } (rest.drop numkeys)
      else if opt = bs "AGGREGATE" ∧ allow_weights then
        match rest with
        | [] => throw_ .SYNTAX
        | name :: rest =>
          if o.aggregate.isSome then throw_ .SYNTAX
          match Aggregate.ofName (← upperArg name) with
          | none => throw_ .SYNTAX
          | some a => zsetOpOptions numkeys allow_weights allow_withscores fuel { o with aggregate := some a } rest
      else if opt = bs "WITHSCORES" ∧ allow_withscores then
        zsetOpOptions numkeys allow_weights allow_withscores fuel { o with withscores := true } rest
      else throw_ .SYNTAX) := by
  cases rest <;> rfl

/-- The weights are as many as the keys. -/
def ZsetOp.Weighted (numkeys : Nat) (o : ZsetOp F) : Prop := ∀ weights, o.weights = some weights → weights.length = numkeys

/-- The options give one weight for each key, or none. -/
theorem computes_zsetOpOptions (numkeys : Nat) (allow_weights allow_withscores : Bool) (fuel : Nat) {o : ZsetOp F}
    (ho : o.Weighted numkeys) (options : List Value) :
    Computes (zsetOpOptions numkeys allow_weights allow_withscores fuel o options : K F _) fun o => o.Weighted numkeys := by
  intro S
  induction fuel generalizing o options with
  | zero =>
    cases options with
    | nil => exact .pure ho
    | cons opt rest => exact .raise _
  | succ fuel ih =>
    cases options with
    | nil => exact .pure ho
    | cons opt rest =>
      rw [zsetOpOptions_cons]
      refine (computes_upperArg opt).bind ?_
      intro _ _
      refine .ite (fun _ => ?_) fun _ => .ite (fun _ => ?_) fun _ => .ite (fun _ => ?_) fun _ => .raise _
      · refine built_check fun hlen => ?_
        refine (computes_mapM_length fun v _ => computes_floatArg _ v).bind ?_
        intro weights hweights
        refine ih (fun w hw => ?_) _
        cases hw
        rw [hweights, List.length_take]
        omega
      · cases rest with
        | nil => exact .raise _
        | cons name rest =>
          refine built_check fun _ => ?_
          refine (computes_upperArg name).bind ?_
          intro _ _
          split
          · exact .raise _
          · refine ih ?_ rest
            exact ho
      · refine ih ?_ rest
        exact ho

/-- The keys of an aggregate are the first of its arguments. -/
theorem computes_parse_zset_op (command : Cmd) (allow_weights allow_withscores : Bool) (numkeys : Int) (rest : List Value) :
    Computes (_parse_zset_op command allow_weights allow_withscores numkeys rest : K F _) fun r =>
      r.1.map Prod.fst = rest.take numkeys.toNat := by
  intro S
  unfold _parse_zset_op
  refine built_check fun _ => ?_
  refine built_check fun _ => ?_
  refine (computes_zsetOpOptions _ _ _ _ (by nofun) _).bind fun o ho => .pure ?_
  dsimp only
  refine List.map_fst_zip ?_
  cases hw : o.weights with
  | none => simp
  | some weights =>
    rw [Option.getD_some, ho weights hw, List.length_take]
    exact Nat.min_le_left _ _

/-! ## The result -/

omit [PyFloat F] in
/-- The keys of a fold are those it sets. -/
theorem mem_keys_foldl_set {α : Type} {P : Value → Prop} {step : Dict Value F → α → Dict Value F} {xs : List α}
    {agg : Dict Value F}
    (h : ∀ v ∈ agg.keys, P v)
    (hstep : ∀ agg x, x ∈ xs → (step agg x = agg ∨ ∃ v score, P v ∧ step agg x = agg.set v score)) :
    ∀ v ∈ (xs.foldl step agg).keys, P v := by
  induction xs generalizing agg with
  | nil => exact h
  | cons x xs ih =>
    refine ih (fun v hv => ?_) fun agg y hy => hstep agg y (List.mem_cons_of_mem _ hy)
    rcases hstep agg x List.mem_cons_self with heq | ⟨w, score, hw, heq⟩
    · rw [heq] at hv
      exact h v hv
    · rw [heq] at hv
      rcases (Dict.mem_keys_assign w score agg.entries v).1 hv with rfl | hv
      · exact hw
      · exact h v hv

/-- The members of every source may be stored. -/
abbrev Discipline.sources (d : Discipline) (sources : List (Option (ZSet F) × F)) : Prop :=
  ∀ source ∈ sources, ∀ z, source.1 = some z → d.zset z

/-- What holds of the members of every source. -/
abbrev OfMembers (P : Value → Prop) (sources : List (Option (ZSet F) × F)) : Prop :=
  ∀ source ∈ sources, ∀ z, source.1 = some z → ∀ p ∈ z.sorted, P p.2

/-- The members of a union are members of sources. -/
theorem keys_unionScores {P : Value → Prop} {sources : List (Option (ZSet F) × F)} (h : OfMembers P sources)
    (aggregate : Aggregate) :
    ∀ v ∈ (unionScores aggregate sources).keys, P v := by
  unfold unionScores
  refine List.foldlRecOn (motive := fun agg : Dict Value F => ∀ v ∈ agg.keys, P v) sources _ ?_ fun agg hagg source hsource => ?_
  · exact fun v hv => absurd hv List.not_mem_nil
  · dsimp only
    split
    · exact hagg
    · rename_i z hz
      exact mem_keys_foldl_set hagg fun agg p hp => .inr ⟨p.2, _, h source hsource z hz p hp, rfl⟩

/-- The members of any aggregate are members of sources. -/
theorem keys_aggregateScores {P : Value → Prop} {sources : List (Option (ZSet F) × F)} (h : OfMembers P sources) (op : ZOp)
    (aggregate : Aggregate) :
    ∀ v ∈ (aggregateScores op aggregate sources).keys, P v := by
  cases sources with
  | nil => exact nofun
  | cons source rest =>
    have hfirst : ∀ p ∈ (source.1.map ZSet.sorted).getD [], P p.2 := by
      intro p hp
      cases hz : source.1 with
      | none =>
        rw [hz] at hp
        exact absurd hp List.not_mem_nil
      | some z =>
        rw [hz] at hp
        exact h source List.mem_cons_self z hz p hp
    cases op with
    | zunion => exact keys_unionScores h aggregate
    | zinter =>
      refine mem_keys_foldl_set nofun ?_
      intro agg p hp
      split
      · exact .inl rfl
      · exact .inr ⟨p.2, _, hfirst p hp, rfl⟩
    | zdiff =>
      refine mem_keys_foldl_set nofun ?_
      intro agg p hp
      split
      · exact .inl rfl
      · exact .inr ⟨p.2, _, hfirst p hp, rfl⟩

/-- The sources are read, and the keys were seen. -/
theorem looks_aggregate {keys : List (Value × F)} (hlook : ∀ key ∈ keys.map Prod.fst, d.permits (.look key)) (op : ZOp)
    (aggregate : Aggregate) :
    Teaches (Access d) S (_aggregate op keys aggregate : K F (ZSet F)) (fun z => d.zset z ∧ z.Tight)
      (S ∪ {key | key ∈ keys.map Prod.fst}) := by
  have hsources : Teaches (Access d) S (mapM_ (fun k => do return (← _zset k.1, k.2)) keys : K F (List (Option (ZSet F) × F)))
    d.sources
      (S ∪ {key | key ∈ keys.map Prod.fst}) := by
    refine looks_mapM (g := Prod.fst) (Q := fun source : Option (ZSet F) × F => ∀ z, source.1 = some z → d.zset z) ?_
    intro k hk S
    refine (looks_zset (hlook k.1 (List.mem_map_of_mem hk))).bind fun o ho => .pure fun z hz => ?_
    exact Discipline.zset_of_obj (ho z hz).2
  refine hsources.bind fun sources hs => Built.fold (Q := fun z => d.zset z ∧ z.Tight) ⟨d.zset_empty, ZSet.tight_empty⟩ ?_
  rintro z ⟨hz, htight⟩ p hp
  have hmember : d.permits (.store p.1) :=
    keys_aggregateScores (P := fun v => d.permits (.store v)) (fun source hsource z hz => (hs source hsource z hz).sorted)
      op aggregate p.1
      (List.mem_map_of_mem hp)
  split
  · rename_i z' heq
    have hz' := Discipline.zset_add hz (fun _ => hmember) (if PyFloat.isNaN p.2 then PyFloat.zero else p.2)
    rw [heq] at hz'
    exact .pure ⟨hz', (ZSet.add_some htight heq).1⟩
  · exact .raise _

/-! ## Commands -/

/-- The store forms look at the sources and write the destination. -/
theorem disciplined_zopStore {dest : Value} {numkeys : Int} {rest : List Value}
    (hlook : ∀ key ∈ rest.take numkeys.toNat, d.permits (.look key)) (hkey : dest.hashable = true → d.permits (.create dest))
    (hreplace : dest ∉ rest.take numkeys.toNat → d.permits (.replace dest)) (op : ZOp) (command : Cmd) (event : Event)
    (allow_weights : Bool) :
    Disciplined d S (zopStore op command event allow_weights dest numkeys rest : K F Reply) fun _ => True := by
  refine (of_computes (computes_parse_zset_op command allow_weights false numkeys rest)).bind ?_
  intro parsed hparsed
  refine (looks_aggregate (by rwa [hparsed]) op parsed.2.1).andThen ?_
  intro result hresult
  have hseen : d.Seen (S ∪ {key | key ∈ parsed.1.map Prod.fst}) dest := by
    rw [hparsed]
    by_cases h : dest ∈ rest.take numkeys.toNat
    · exact .inl (.inr h)
    · exact .inr (hreplace h)
  refine .ite (fun _ => disciplined_discard hseen (.pure trivial)) fun hne => ?_
  have hobj : d.obj (.zset result) :=
    ⟨⟨hresult.1.scores, hresult.1.sorted⟩, fun _ => ⟨fun hnil => hne (by rw [ZSet.size, hnil]; rfl), hresult.2⟩⟩
  refine (disciplined_setitem hkey hobj hseen).bind ?_
  intro _ h
  exact (disciplined_after_write (hkey h) event).bind fun _ _ => .pure trivial

theorem disciplined_zopRead {numkeys : Int} {rest : List Value} (hlook : ∀ key ∈ rest.take numkeys.toNat, d.permits (.look key))
    (op : ZOp) (command : Cmd) (allow_weights : Bool) :
    Disciplined d S (zopRead op command allow_weights numkeys rest : K F Reply) fun _ => True := by
  refine (of_computes (computes_parse_zset_op command allow_weights true numkeys rest)).bind ?_
  intro parsed hparsed
  exact (looks_aggregate (by rwa [hparsed]) op parsed.2.1).andThen fun _ _ => .pure trivial

end Kagni
