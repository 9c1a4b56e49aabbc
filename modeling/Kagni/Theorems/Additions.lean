import Kagni.Footprints.Zset
import Kagni.Lemmas.Content
import Kagni.Lemmas.SortedSet

/-!
# ZADD adds one pair after the other

The loop of ZADD makes its container when it first needs one, and every lookup sees the pairs before it. What it does to each
pair is what a request for that pair alone does.
-/

namespace Kagni

open Lib Lib.Prog

variable {F : Type}

/-- A pair of ZADD: the text of the score, the score and the member. -/
structure Addition (F : Type) where
  text : Bytes
  score : F
  member : Bytes

/-- The content with a sorted set under a key, or with nothing new. -/
def Content.withZset (s : Content F) (key : Value) (o : Option (ZSet F)) : Content F := o.elim s fun z => s.write key (.zset z)

/-! ## Containers -/

section Containers

variable {ctx : Ctx} {ks : Set Bytes} {s : Content F} {key : Bytes}

theorem withZset_value {o : Option (ZSet F)} (h : s.value (.bytes key) = o.map .zset) : s.withZset (.bytes key) o = s := by
  cases o with
  | none => rfl
  | some z => exact Content.write_value h

theorem value_withZset {o o' : Option (ZSet F)} (h : s.value (.bytes key) = o.map .zset) (hsome : o.isSome → o'.isSome) :
    (s.withZset (.bytes key) o').value (.bytes key) = o'.map .zset := by
  cases o' with
  | none =>
    cases o with
    | none => exact h
    | some z => cases hsome rfl
  | some z => exact Content.value_write s _ nofun

theorem withZset_withZset {o' o'' : Option (ZSet F)} (hsome : o'.isSome → o''.isSome) :
    (s.withZset (.bytes key) o').withZset (.bytes key) o'' = s.withZset (.bytes key) o'' := by
  cases o' with
  | none => rfl
  | some z =>
    cases o'' with
    | none => cases hsome rfl
    | some z' => exact Content.write_write s _ (v := .zset z) nofun _

theorem steps_scoreOf (o : Option (ZSet F)) (m : Bytes) : Steps ctx ks s (scoreOf o (.bytes m)) (.ok (scoreIn o m)) s := by
  cases o with
  | none => exact .pure none
  | some z => exact (steps_needHash rfl).bind (.pure _)

/-- The container is there once it is asked for. -/
theorem steps_zsetOrNew {o : Option (ZSet F)} (h : s.value (.bytes key) = o.map .zset) :
    Steps ctx ks s (zsetOrNew (.bytes key) o) (.ok (o.getD .empty)) (s.withZset (.bytes key) (some (o.getD .empty))) := by
  cases o with
  | none =>
    change Steps ctx ks s (_create_zset (.bytes key)) _ (s.write _ _)
    rw [Content.write_of_none h]
    exact (steps_setitem key _).bind (.pure _)
  | some z =>
    rw [Option.getD_some, withZset_value h]
    exact .pure z

theorem steps_inPlace {z z' : ZSet F} {b : Bool} :
    Steps ctx ks (s.withZset (.bytes key) (some z)) (inPlace (.bytes key) (some b, z')) (.ok (b, z'))
    (s.withZset (.bytes key) (some z')) := by
  have hwrite : Steps ctx ks (s.withZset (.bytes key) (some z)) (store_value (.bytes key) (.zset z')) (.ok ())
      ((s.withZset (.bytes key) (some z)).change (.bytes key) (.zset z')) := steps_store_value _ _
  rw [show (s.withZset (.bytes key) (some z)).change _ _ = s.withZset (.bytes key) (some z') from Content.change_write s _
    (.zset z) _] at hwrite
  exact hwrite.bind ((Steps.pure b).bind (.pure _))

end Containers

variable [PyFloat F]

/-! ## One pair -/

/-- The flags keep a score: NX keeps every one, GT those that are not lower and LT those that are not higher than the new one. -/
def ZaddFlags.keeps (fl : ZaddFlags) (score current : F) : Bool :=
  fl.nx || (fl.gt && PyFloat.le score current) || (fl.lt && PyFloat.le current score)

namespace Addition

/-- The arguments of a pair. -/
def args (p : Addition F) : List Value := [.bytes p.text, .bytes p.member]

/-- The text is read as the score, and no flag is spelled like it. -/
structure Parses (p : Addition F) : Prop where
  score : _parse_float p.text = some p.score
  notFlag : zaddFlag (.bytes p.text) = false

/-- One pair on the sorted set of a key, or on none: the reply, and the set that is left. -/
def apply (fl : ZaddFlags) (p : Addition F) (o : Option (ZSet F)) : Nat × Option (ZSet F) :=
  match scoreIn o p.member with
  | none => if fl.xx then (0, o) else (1, some ((o.getD .empty).add (.bytes p.member) p.score).2)
  | some current =>
    if fl.keeps p.score current then (0, o)
    else (if fl.ch && ((o.getD .empty).add (.bytes p.member) p.score).1 = some true then 1 else 0,
      some ((o.getD .empty).add (.bytes p.member) p.score).2)

/-- The pairs one after the other. -/
def applyAll (fl : ZaddFlags) : List (Addition F) → Option (ZSet F) → List Nat × Option (ZSet F)
  | [], o => ([], o)
  | p :: items, o => ((p.apply fl o).1 :: (applyAll fl items (p.apply fl o).2).1, (applyAll fl items (p.apply fl o).2).2)

/-- The members the pairs add and the scores they change: what the reply is under CH. -/
def effects (fl : ZaddFlags) (items : List (Addition F)) (o : Option (ZSet F)) : Nat :=
  (applyAll { fl with ch := true } items o).1.sum

/-- What a pair does to the score of its member, and what it counts: an added member, and under CH a changed score. -/
inductive Outcome (fl : ZaddFlags) (p : Addition F) : (before after : Option F) → Nat → Prop
  | refused (h : fl.xx = true) : Outcome fl p none none 0
  | added (h : fl.xx = false) : Outcome fl p none (some p.score) 1
  | kept {current : F} (h : fl.keeps p.score current = true) : Outcome fl p (some current) (some current) 0
  | equal {current : F} (h : PyFloat.eq current p.score = true) : Outcome fl p (some current) (some current) 0
  | changed {current : F} (h : fl.keeps p.score current = false) (h' : PyFloat.eq current p.score = false) :
    Outcome fl p (some current) (some p.score) (if fl.ch then 1 else 0)

end Addition

/-- CH changes the reply alone. -/
theorem Addition.apply_ch (fl : ZaddFlags) (p : Addition F) (o : Option (ZSet F)) :
    (p.apply { fl with ch := true } o).2 = (p.apply fl o).2 := by
  unfold Addition.apply
  cases scoreIn o p.member with
  | none => rfl
  | some current =>
    change (if fl.keeps p.score current = true then _ else _ : Nat × Option (ZSet F)).2 =
      (if fl.keeps p.score current = true then _ else _ :
      Nat × Option (ZSet F)).2
    split_ifs <;> rfl

theorem Addition.effects_cons (fl : ZaddFlags) (p : Addition F) (items : List (Addition F)) (o : Option (ZSet F)) :
    effects fl (p :: items) o = effects fl [p] o + effects fl items (p.apply fl o).2 := by
  unfold effects
  rw [applyAll, applyAll, applyAll, List.sum_cons, List.sum_singleton, apply_ch]

theorem Addition.apply_isSome (fl : ZaddFlags) (p : Addition F) {o : Option (ZSet F)} (h : o.isSome) :
    (p.apply fl o).2.isSome := by
  unfold Addition.apply
  cases scoreIn o p.member with
  | none =>
    dsimp only
    split
    · exact h
    · rfl
  | some current =>
    dsimp only
    split
    · exact h
    · rfl

theorem Addition.applyAll_isSome (fl : ZaddFlags) (items : List (Addition F)) {o : Option (ZSet F)} (h : o.isSome) :
    (Addition.applyAll fl items o).2.isSome := by
  induction items generalizing o with
  | nil => exact h
  | cons p items ih => exact ih (Addition.apply_isSome fl p h)

/-! ## Scores -/

section Scores

variable [PyFloat.Ordered F]

open PyFloat.Ordered

/-- `add` on a valid set: an equal score is left, any other one is stored. -/
theorem add_cases {z : ZSet F} (h : z.Valid) {p : Addition F} (hp : p.Parses) :
    ∃ b z', z.add (.bytes p.member) p.score = (some b, z') ∧ z'.Valid ∧
      (∀ m, m ≠ p.member → z'.score (.bytes m) = z.score (.bytes m)) ∧
      ((b = false ∧ z' = z ∧ ∃ current, z.score (.bytes p.member) = some current ∧ PyFloat.eq current p.score = true) ∨
        (b = true ∧ z'.score (.bytes p.member) = some p.score ∧
          ∀ current, z.score (.bytes p.member) = some current → PyFloat.eq current p.score = false)) := by
  obtain ⟨b, z', heq, hvalid, hothers, hown⟩ := h.add p.member (number_of_parse_float hp.score)
  refine ⟨b, z', heq, hvalid, fun m hm => hothers _ fun hc => hm (Value.bytes.inj hc), ?_⟩
  rcases hown with hsame | ⟨rfl, hnew⟩
  · exact .inl hsame
  · refine .inr ⟨rfl, hnew, fun current hcurrent => ?_⟩
    by_contra hequal
    -- an equal score would have left everything as it was
    have hhash : (Value.bytes p.member).hashable = true := rfl
    simp [ZSet.add, hhash, hcurrent, Bool.not_eq_false _ ▸ hequal] at heq

/-- A pair leaves a valid set, has one of the outcomes, and touches no other member. -/
theorem Addition.apply_spec (fl : ZaddFlags) {p : Addition F} (hp : p.Parses) {o : Option (ZSet F)} (h : ∀ z ∈ o, z.Valid) :
    (∀ z ∈ (p.apply fl o).2, z.Valid) ∧ p.Outcome fl (scoreIn o p.member) (scoreIn (p.apply fl o).2 p.member) (p.apply fl o).1 ∧
      ∀ m, m ≠ p.member → scoreIn (p.apply fl o).2 m = scoreIn o m := by
  obtain ⟨b, z', heq, hvalid, hothers, hown⟩ := add_cases (valid_getD h) hp
  simp only [score_getD] at hothers hown
  unfold Addition.apply
  rw [heq]
  cases hbefore : scoreIn o p.member with
  | none =>
    dsimp only
    split
    · rename_i hxx
      refine ⟨h, ?_, fun _ _ => rfl⟩
      rw [hbefore]
      exact .refused hxx
    · rename_i hxx
      rcases hown with ⟨-, -, current, hcurrent, -⟩ | ⟨-, hnew, -⟩
      · rw [hbefore] at hcurrent
        cases hcurrent
      · refine ⟨fun z hz => Option.some.inj hz ▸ hvalid, ?_, hothers⟩
        change p.Outcome fl none (z'.score (.bytes p.member)) 1
        rw [hnew]
        exact .added (Bool.not_eq_true _ ▸ hxx)
  | some current =>
    dsimp only
    split
    · rename_i hkeeps
      refine ⟨h, ?_, fun _ _ => rfl⟩
      rw [hbefore]
      exact .kept hkeeps
    · rename_i hkeeps
      refine ⟨fun z hz => Option.some.inj hz ▸ hvalid, ?_, hothers⟩
      change p.Outcome fl (some current) (z'.score (.bytes p.member)) _
      rcases hown with ⟨rfl, rfl, current', hcurrent, hequal⟩ | ⟨rfl, hnew, hdiffer⟩
      · rw [hbefore] at hcurrent
        obtain rfl := Option.some.inj hcurrent
        rw [score_getD, hbefore]
        simpa using Addition.Outcome.equal hequal
      · rw [hnew]
        simpa using Addition.Outcome.changed (Bool.not_eq_true _ ▸ hkeeps) (hdiffer current hbefore)

theorem Addition.applyAll_valid {fl : ZaddFlags} {items : List (Addition F)} (hparse : ∀ p ∈ items, p.Parses)
    {o : Option (ZSet F)} (h : ∀ z ∈ o, z.Valid) :
    ∀ z ∈ (Addition.applyAll fl items o).2, z.Valid := by
  induction items generalizing o with
  | nil => exact h
  | cons p items ih =>
    obtain ⟨hp, hparse⟩ := List.forall_mem_cons.1 hparse
    exact ih hparse (Addition.apply_spec fl hp h).1

/-- What every outcome keeps of a member's score, the whole list keeps. -/
theorem Addition.applyAll_keeps (fl : ZaddFlags) {R : Option F → Option F → Prop} (hrefl : ∀ before, R before before)
    (htrans : ∀ {x y z : Option F}, R x y → R y z → R x z) {items : List (Addition F)} (hparse : ∀ p ∈ items, p.Parses)
    (hstep : ∀ p ∈ items, ∀ {before after n}, p.Outcome fl before after n → R before after) {o : Option (ZSet F)}
    (h : ∀ z ∈ o, z.Valid) (m : Bytes) :
    R (scoreIn o m) (scoreIn (Addition.applyAll fl items o).2 m) := by
  induction items generalizing o with
  | nil => exact hrefl _
  | cons p items ih =>
    obtain ⟨hp, hparse⟩ := List.forall_mem_cons.1 hparse
    obtain ⟨hfirst, hstep⟩ := List.forall_mem_cons.1 hstep
    obtain ⟨hvalid, hown, hothers⟩ := Addition.apply_spec fl hp h
    refine htrans ?_ (ih hparse hstep hvalid)
    by_cases hm : m = p.member
    · subst hm
      exact hfirst hown
    · rw [hothers m hm]
      exact hrefl _

theorem lt_eq_false_iff {x y : F} (hx : PyFloat.isNaN x = false) (hy : PyFloat.isNaN y = false) :
    PyFloat.lt x y = false ↔ key y ≤ key x := by
  rw [← Bool.not_eq_true, lt_iff hx hy, not_lt]

theorem le_of_keeps {fl : ZaddFlags} {score current : F} (hnum : PyFloat.isNaN current = false)
    (hscore : PyFloat.isNaN score = false)
    (h : fl.keeps score current = false) :
    (fl.gt = true → key current ≤ key score) ∧ (fl.lt = true → key score ≤ key current) := by
  simp only [ZaddFlags.keeps, PyFloat.le, Bool.or_eq_false_iff, Bool.and_eq_false_imp] at h
  exact ⟨fun hgt => (lt_eq_false_iff hscore hnum).1 (h.1.2 hgt).1, fun hlt => (lt_eq_false_iff hnum hscore).1 (h.2 hlt).1⟩

variable {fl : ZaddFlags} {items : List (Addition F)} {o : Option (ZSet F)} {m : Bytes} {x : F}

/-- Under NX a member keeps its score. -/
theorem Addition.applyAll_nx (hnx : fl.nx = true) (hparse : ∀ p ∈ items, p.Parses) (h : ∀ z ∈ o, z.Valid)
    (hx : scoreIn o m = some x) :
    scoreIn (Addition.applyAll fl items o).2 m = some x := by
  refine Addition.applyAll_keeps fl (R := fun before after => before = some x → after = some x) (fun _ h => h)
    (fun h h' hb => h' (h hb)) hparse ?_ h m hx
  rintro p - before after n hout hbefore
  cases hout with
  | refused | added => cases hbefore
  | kept | equal => exact hbefore
  | changed hkeeps =>
    rw [ZaddFlags.keeps, hnx] at hkeeps
    cases hkeeps

/-- Under XX no member appears. -/
theorem Addition.applyAll_xx (hxx : fl.xx = true) (hparse : ∀ p ∈ items, p.Parses) (h : ∀ z ∈ o, z.Valid)
    (hm : scoreIn o m = none) :
    scoreIn (Addition.applyAll fl items o).2 m = none := by
  refine Addition.applyAll_keeps fl (R := fun before after => before = none → after = none) (fun _ h => h)
    (fun h h' hb => h' (h hb)) hparse ?_ h m hm
  rintro p - before after n hout hbefore
  cases hout with
  | refused => rfl
  | added hno =>
    rw [hxx] at hno
    cases hno
  | kept | equal | changed => cases hbefore

/-- A score that only moves one way in the order of the keys. -/
theorem Addition.applyAll_monotone (le : Key F → Key F → Prop) [IsPreorder (Key F) le]
    (hle : ∀ p ∈ items, ∀ current, PyFloat.isNaN current = false →
      fl.keeps p.score current = false → le (key current) (key p.score)) (hparse : ∀ p ∈ items, p.Parses) (h : ∀ z ∈ o, z.Valid)
    (hx : scoreIn o m = some x) : ∃ y, scoreIn (Addition.applyAll fl items o).2 m = some y ∧ le (key x) (key y) := by
  have hkeeps := Addition.applyAll_keeps fl
    (R := fun before after => ∀ a ∈ before, PyFloat.isNaN a = false → ∃ b ∈ after, PyFloat.isNaN b = false ∧ le (key a) (key b))
    (fun _ a ha hnum => ⟨a, ha, hnum, refl _⟩)
    (fun h h' a ha hnum => by
      obtain ⟨b, hb, hnumb, hab⟩ := h a ha hnum
      obtain ⟨c, hc, hnumc, hbc⟩ := h' b hb hnumb
      exact ⟨c, hc, hnumc, IsTrans.trans _ _ _ hab hbc⟩) hparse ?_ h m
  · obtain ⟨y, hy, -, hxy⟩ := hkeeps x hx (number_of_scoreIn h hx)
    exact ⟨y, hy, hxy⟩
  · rintro p hp before after n hout a ha hnum
    cases hout with
    | refused | added => cases ha
    | kept | equal => exact ⟨a, ha, hnum, refl _⟩
    | changed hfree =>
      obtain rfl := Option.some.inj ha
      exact ⟨p.score, rfl, number_of_parse_float (hparse p hp).score, hle p hp _ hnum hfree⟩

/-- Without XX every member of a pair is there in the end. -/
theorem Addition.applyAll_added (hxx : fl.xx = false) (hparse : ∀ p ∈ items, p.Parses) (h : ∀ z ∈ o, z.Valid) :
    ∀ p ∈ items, (scoreIn (Addition.applyAll fl items o).2 p.member).isSome = true := by
  induction items generalizing o with
  | nil => nofun
  | cons q items ih =>
    obtain ⟨hq, hparse⟩ := List.forall_mem_cons.1 hparse
    obtain ⟨hvalid, hown, -⟩ := Addition.apply_spec fl hq h
    refine List.forall_mem_cons.2 ⟨?_, ih hparse hvalid⟩
    refine Addition.applyAll_keeps fl (R := fun before after => before.isSome = true → after.isSome = true) (fun _ h => h)
      (fun h h' hb => h' (h hb)) hparse ?_ hvalid
      q.member ?_
    · rintro p - before after n hout hbefore
      cases hout with
      | refused => cases hbefore
      | added | kept | equal | changed => rfl
    · generalize scoreIn o q.member = before at hown
      generalize scoreIn (q.apply fl o).2 q.member = after at hown ⊢
      generalize (q.apply fl o).1 = n at hown
      cases hown with
      | refused h =>
        rw [hxx] at h
        cases h
      | added | kept | equal | changed => rfl

end Scores

/-! ## The loop -/

section Loop

variable [PyFloat.Ordered F] {ctx : Ctx} {ks : Set Bytes} {s : Content F} {key : Bytes} {fl : ZaddFlags}

/-- The arguments of a pair, parsed. -/
def Addition.pair (p : Addition F) : F × Value := (p.score, .bytes p.member)

variable (ctx fl) in
/-- One round of the loop does what `apply` says, and adds its reply to the two counters. -/
theorem steps_zaddLoop_cons {p : Addition F} (hp : p.Parses) {o : Option (ZSet F)} (hvalid : ∀ z ∈ o, z.Valid)
    (h : s.value (.bytes key) = o.map .zset) :
    ∃ a c : Nat, (if fl.ch then a + c else a) = (p.apply fl o).1 ∧ a + c = Addition.effects fl [p] o ∧
      ∀ {pairs added changed out s'},
      Steps ctx ks (s.withZset (.bytes key) (p.apply fl o).2)
        (zaddLoop (.bytes key) fl pairs (p.apply fl o).2 (added + a) (changed + c)) out s' →
      Steps ctx ks s (zaddLoop (.bytes key) fl (p.pair :: pairs) o added changed) out s' := by
  obtain ⟨b, z', hadd, -⟩ := add_cases (valid_getD hvalid) hp
  rw [show Addition.effects fl [p] o = (p.apply { fl with ch := true } o).1 from Nat.add_zero _]
  unfold Addition.apply
  rw [hadd]
  cases hscore : scoreIn o p.member with
  | none =>
    dsimp only
    by_cases hxx : fl.xx = true
    · rw [if_pos hxx]
      refine ⟨0, 0, by simp, rfl, fun hrest => (steps_scoreOf o p.member).bind ?_⟩
      rw [hscore]
      rw [withZset_value h] at hrest
      exact .if_pos hxx hrest
    · rw [if_neg hxx]
      refine ⟨1, 0, by simp, rfl, fun hrest => (steps_scoreOf o p.member).bind ?_⟩
      rw [hscore]
      refine .if_neg hxx ((steps_zsetOrNew h).bind ?_)
      dsimp only [Addition.pair]
      rw [hadd]
      exact steps_inPlace.bind hrest
  | some current =>
    dsimp only
    obtain ⟨z, rfl⟩ : ∃ z, o = some z := by
      cases o with
      | none => cases hscore
      | some z => exact ⟨z, rfl⟩
    have hkeeps : (fl.nx = true ∨ (fl.gt = true ∧ PyFloat.le p.score current = true) ∨
      (fl.lt = true ∧ PyFloat.le current p.score = true)) ↔
        fl.keeps p.score current = true := by simp [ZaddFlags.keeps, or_assoc]
    rw [show ({ fl with ch := true } : ZaddFlags).keeps p.score current = fl.keeps p.score current from rfl]
    by_cases hk : fl.keeps p.score current = true
    · rw [if_pos hk, if_pos hk]
      refine ⟨0, 0, by simp, rfl, fun hrest => (steps_scoreOf (some z) p.member).bind ?_⟩
      rw [hscore]
      rw [withZset_value h] at hrest
      exact .if_pos (hkeeps.2 hk) hrest
    · rw [if_neg hk, if_neg hk]
      refine ⟨0, if b then 1 else
        0, by cases b <;> cases fl.ch <;> rfl, by cases b <;> rfl, fun hrest => (steps_scoreOf (some z) p.member).bind ?_⟩
      rw [hscore]
      refine .if_neg (fun hc => hk (hkeeps.1 hc)) ?_
      dsimp only [Addition.pair]
      rw [show z.add (.bytes p.member) p.score = (some b, z') from hadd]
      have hstep : Steps ctx ks (s.withZset (.bytes key) (some z)) (inPlace (.bytes key) (some b, z')) (.ok (b, z'))
          (s.withZset (.bytes key) (some z')) :=
        steps_inPlace
      rw [withZset_value h] at hstep
      refine hstep.bind ?_
      cases b with
      | true => exact hrest
      | false => exact hrest

variable (ctx fl) in
/-- The loop does what `applyAll` says. -/
theorem steps_zaddLoop {items : List (Addition F)} (hparse : ∀ p ∈ items, p.Parses) {o : Option (ZSet F)}
    (hvalid : ∀ z ∈ o, z.Valid)
    (h : s.value (.bytes key) = o.map .zset) (added changed : Nat) :
    ∃ a c : Nat, (if fl.ch then a + c else a) = (Addition.applyAll fl items o).1.sum ∧
      a + c = Addition.effects fl items o ∧
        Steps ctx ks s (zaddLoop (.bytes key) fl (items.map Addition.pair) o added changed) (.ok (added + a, changed + c))
        (s.withZset (.bytes key) (Addition.applyAll fl items o).2) := by
  induction items generalizing s o added changed with
  | nil =>
    refine ⟨0, 0, by simp [Addition.applyAll], rfl, ?_⟩
    rw [Addition.applyAll, withZset_value h]
    exact .pure _
  | cons p items ih =>
    obtain ⟨hp, hparse⟩ := List.forall_mem_cons.1 hparse
    obtain ⟨a, c, hreply, heffect, hstep⟩ := steps_zaddLoop_cons ctx fl hp hvalid h
    have hsome := Addition.apply_isSome fl p (o := o)
    obtain ⟨a', c', hreplies, heffects, hrest⟩ :=
      ih hparse (Addition.apply_spec fl hp hvalid).1 (value_withZset h hsome) (added + a) (changed + c)
    refine ⟨a + a', c + c', ?_, ?_, ?_⟩
    · rw [Addition.applyAll, List.sum_cons, ← hreply, ← hreplies]
      split
      · omega
      · rfl
    · rw [Addition.effects_cons]
      omega
    · rw [withZset_withZset (Addition.applyAll_isSome fl items)] at hrest
      rw [← Nat.add_assoc, ← Nat.add_assoc]
      exact hstep hrest

end Loop

/-! ## The flags -/

/-- The flags with the one that an argument spells. -/
def ZaddFlags.set (opt : Bytes) (fl : ZaddFlags) : Option ZaddFlags :=
  if opt = bs "NX" then some { fl with nx := true }
  else if opt = bs "XX" then some { fl with xx := true }
  else if opt = bs "GT" then some { fl with gt := true }
  else if opt = bs "LT" then some { fl with lt := true }
  else if opt = bs "CH" then some { fl with ch := true }
  else if opt = bs "INCR" then some { fl with incr := true }
  else none

section Flags

variable {ctx : Ctx} {ks : Set Bytes}

omit [PyFloat F] in
theorem zaddFlags_cons (fl : ZaddFlags) (arg : Value) (rest : List Value) : (zaddFlags fl (arg :: rest) : K F _) =
    upperArg arg >>= fun opt => (fl.set opt).elim (pure (fl, arg :: rest)) fun fl' => zaddFlags fl' rest := by
  unfold ZaddFlags.set
  rw [zaddFlags]
  refine congrArg _ (funext fun opt => ?_)
  split_ifs <;> rfl

omit [PyFloat F] in
theorem zaddFlag_of_set {fl : ZaddFlags} {b : Bytes} (h : zaddFlag (.bytes b) = false) : fl.set (upper b) = none := by
  simp only [zaddFlag, Value.names, Bool.or_eq_false_iff, decide_eq_false_iff_not] at h
  unfold ZaddFlags.set
  simp [h]

omit [PyFloat F] in
/-- The flags are read the same in front of an argument that is none. -/
theorem yields_zaddFlags {flags : List Value} {fl fl' : ZaddFlags} (h : Yields (F := F) ctx (zaddFlags fl flags) (fl', []))
    {b : Bytes}
    (hb : zaddFlag (.bytes b) = false) (rest : List Value) :
    Yields (F := F) ctx (zaddFlags fl (flags ++ .bytes b :: rest)) (fl', .bytes b :: rest) := by
  induction flags generalizing fl with
  | nil =>
    rw [zaddFlags] at h
    cases h.eq (.pure _)
    rw [List.nil_append, zaddFlags_cons]
    refine Yields.bind (.pure (upper b)) ?_
    rw [zaddFlag_of_set hb]
    exact .pure _
  | cons arg flags ih =>
    rw [zaddFlags_cons] at h
    rw [List.cons_append, zaddFlags_cons]
    obtain ⟨opt, -, hopt, hrest⟩ := Yields.of_bind (computes_upperArg arg) h
    refine hopt.bind ?_
    cases hset : fl.set opt with
    | none =>
      rw [hset] at hrest
      cases hrest.eq (.pure _)
    | some fl₁ =>
      rw [hset] at hrest
      exact ih hrest

omit [PyFloat F] in
/-- The flags in front of the pairs. -/
theorem yields_parse_zadd_flags {flags : List Value} {fl : ZaddFlags}
    (h : Yields (F := F) ctx (_parse_zadd_flags flags) (fl, [])) {b : Bytes}
    (hb : zaddFlag (.bytes b) = false) (rest : List Value) :
    Yields (F := F) ctx (_parse_zadd_flags (flags ++ .bytes b :: rest)) (fl, .bytes b :: rest) := by
  obtain ⟨⟨fl', left⟩, hdrop, hflags, hrest⟩ := Yields.of_bind (computes_zaddFlags _ flags) h
  obtain ⟨hpresence, hrest⟩ := Yields.of_check hrest
  obtain ⟨hcomparison, hrest⟩ := Yields.of_check hrest
  cases hrest.eq (.pure _)
  exact (yields_zaddFlags hflags hb rest).bind (.check hpresence (.check hcomparison (.pure _)))

end Flags

/-! ## Requests -/

section Requests

variable {ctx : Ctx} {ks : Set Bytes} {s : Content F} {key : Bytes} {fl : ZaddFlags} {flags : List Value}

theorem yields_floatArg {e : Errors} {b : Bytes} {x : F} (h : _parse_float b = some x) :
    Yields ctx (floatArg e (.bytes b)) x := by
  refine (Yields.pure b).bind ?_
  rw [h]
  exact .pure x

variable (ctx) in
theorem yields_zaddPairs {items : List (Addition F)} (hparse : ∀ p ∈ items, p.Parses) :
    Yields ctx (zaddPairs (items.flatMap Addition.args)) (items.map Addition.pair) := by
  induction items with
  | nil => exact .pure []
  | cons p items ih =>
    obtain ⟨hp, hparse⟩ := List.forall_mem_cons.1 hparse
    exact (yields_floatArg hp.score).bind ((ih hparse).bind (.pure _))

omit [PyFloat F] in
theorem length_args (items : List (Addition F)) : (items.flatMap Addition.args).length = 2 * items.length := by
  induction items with
  | nil => rfl
  | cons p items ih =>
    rw [List.flatMap_cons, List.length_append, ih, List.length_cons]
    change 2 + _ = _
    omega

/-- Without a sorted set XX refuses every pair. -/
theorem Addition.applyAll_none {fl : ZaddFlags} (hxx : fl.xx = true) (items : List (Addition F)) :
    (applyAll fl items none).1.sum = 0 ∧ (applyAll fl items none).2 = none := by
  have happly : ∀ p : Addition F, p.apply fl none = (0, none) := fun p => if_pos hxx
  induction items with
  | nil => exact ⟨rfl, rfl⟩
  | cons p items ih =>
    rw [applyAll, happly]
    exact ⟨(Nat.zero_add _).trans ih.1, ih.2⟩

variable [PyFloat.Ordered F]

/-- What ZADD ends with: its event, if a pair has an effect. -/
noncomputable def Addition.told (ctx : Ctx) (fl : ZaddFlags) (items : List (Addition F)) (o : Option (ZSet F)) :
    Except (Exc Errors) Unit :=
  if effects fl items o = 0 then .ok () else ctx.emits .zadd

/-- No pair has an effect, or their event can be published. -/
def Addition.Told (ctx : Ctx) (fl : ZaddFlags) (items : List (Addition F)) (o : Option (ZSet F)) : Prop :=
  effects fl items o = 0 ∨ ctx.EventReturns .zadd

omit [PyFloat.Ordered F] in
theorem Addition.told_eq_ok {items : List (Addition F)} {o : Option (ZSet F)} (h : Told ctx fl items o) :
    told ctx fl items o = .ok () := by
  unfold told
  split_ifs with hnone
  · rfl
  · exact ctx.emits_of_returns (h.resolve_left hnone)

omit [PyFloat.Ordered F] in
theorem Addition.told_eq_error {items : List (Addition F)} {o : Option (ZSet F)} (h : ¬Told ctx fl items o) :
    told ctx fl items o = .error .other := by
  obtain ⟨hsome, hevent⟩ := not_or.1 h
  unfold told
  rw [if_neg hsome]
  exact ctx.emits_of_not hevent

/-- ZADD without INCR. -/
theorem steps_ZADD (hctx : ctx.Purges ks s key) (hflags : Yields (F := F) ctx (_parse_zadd_flags flags) (fl, []))
    (hincr : fl.incr = false)
    {items : List (Addition F)} (hitems : items ≠ []) (hparse : ∀ p ∈ items, p.Parses) {o : Option (ZSet F)}
      (hvalid : ∀ z ∈ o, z.Valid)
    (h : s.value (.bytes key) = o.map .zset) :
    Steps ctx ks s (ZADD (.bytes key) (flags ++ items.flatMap Addition.args))
      ((Addition.told ctx fl items o).map fun _ => .int (Addition.applyAll fl items o).1.sum)
        (s.withZset (.bytes key) (Addition.applyAll fl items o).2) := by
  obtain ⟨p, items, rfl⟩ := List.exists_cons_of_ne_nil hitems
  have hlength := length_args (p :: items)
  have hpairs := yields_zaddPairs ctx hparse
  refine Steps.bind (Steps.of_run (yields_parse_zadd_flags hflags (hparse p List.mem_cons_self).notFlag _)) ?_
  refine .check ?_ (.check ?_ (.check ?_ ((Steps.of_run hpairs).bind ((steps_zset hctx h).bind ?_))))
  · rw [List.length_append, hlength, List.length_cons]
    omega
  · change ¬((p :: items).flatMap Addition.args).length % 2 ≠ 0
    rw [hlength]
    omega
  · rw [hincr]
    simp
  obtain ⟨a, c, hreply, heffects, hloop⟩ := steps_zaddLoop ctx fl hparse hvalid h 0 0
  rw [Nat.zero_add, Nat.zero_add] at hloop
  refine .ite (fun hmissing => ?_) fun _ => ?_
  · obtain rfl : o = none := Option.isNone_iff_eq_none.1 hmissing.1
    obtain ⟨hsum, hnone⟩ := Addition.applyAll_none hmissing.2 (p :: items)
    have hxx : { fl with ch := true }.xx = true := hmissing.2
    rw [Addition.told_eq_ok (.inl (Addition.applyAll_none hxx (p :: items)).1), hsum, hnone, hincr]
    exact .pure _
  · rw [hincr]
    refine hloop.bind ?_
    have hvalue : (if fl.ch then (a : Int) + c else a) = ((Addition.applyAll fl (p :: items) o).1.sum : Int) := by
      rw [← hreply]
      split
      · exact (Nat.cast_add a c).symm
      · rfl
    rw [← hvalue]
    unfold Addition.told
    by_cases hnone : Addition.effects fl (p :: items) o = 0
    · rw [if_pos hnone]
      exact .if_neg (by omega) (.pure _)
    · rw [if_neg hnone]
      refine .if_pos (by omega) ?_
      have hevent := steps_emits ctx ks (s.withZset (.bytes key) (Addition.applyAll fl (p :: items) o).2) key .zadd
      revert hevent
      cases ctx.emits .zadd with
      | ok _ => exact fun hevent => hevent.bind (.pure _)
      | error e => exact Steps.bind_error

/-- A request for each pair. -/
theorem steps_additions (hkey : key ∈ ks) (hflags : Yields (F := F) ctx (_parse_zadd_flags flags) (fl, []))
    (hincr : fl.incr = false)
    {items : List (Addition F)} (hparse : ∀ p ∈ items, p.Parses) {o : Option (ZSet F)} (hvalid : ∀ z ∈ o, z.Valid)
    (h : s.value (.bytes key) = o.map .zset) (htold : Addition.Told ctx fl items o) :
    Steps ctx ks s (mapM_ (ZADD (.bytes key)) (items.map fun p => flags ++ p.args))
      (.ok ((Addition.applyAll fl items o).1.map fun n => Reply.int n))
      (s.withZset (.bytes key) (Addition.applyAll fl items o).2) := by
  induction items generalizing s o with
  | nil =>
    rw [Addition.applyAll, withZset_value h]
    exact .pure []
  | cons p items ih =>
    obtain ⟨hp, hparse⟩ := List.forall_mem_cons.1 hparse
    unfold Addition.Told at htold
    rw [Addition.effects_cons, Nat.add_eq_zero_iff] at htold
    have hsome := Addition.apply_isSome fl p (o := o)
    have hfirst := steps_ZADD (purges_of_mem hkey) hflags hincr (List.cons_ne_nil p []) (List.forall_mem_singleton.2 hp) hvalid h
    have hrest := ih hparse (Addition.apply_spec fl hp hvalid).1 (value_withZset h hsome) (htold.imp And.right id)
    rw [withZset_withZset (Addition.applyAll_isSome fl items)] at hrest
    rw [List.flatMap_singleton, Addition.told_eq_ok (htold.imp And.left id)] at hfirst
    exact hfirst.bind (hrest.bind (.pure _))

/-- With INCR a nil reply or an error leaves everything as it was, and a number is the new score of the member. -/
def Addition.Incremented (s : Content F) (key : Bytes) (p : Addition F) (o : Option (ZSet F))
    (out : Except (Exc Errors) Reply) (s' : Content F) : Prop :=
  (out = .ok .NIL ∨ out = .error (.error .NAN_RESULT)) ∧ s' = s ∨
    ∃ x z y, out = .ok (scoreReply x) ∧ x = PyFloat.add ((scoreIn o p.member).getD PyFloat.zero) p.score ∧
      s' = s.withZset (.bytes key) (some z) ∧
      z.score (.bytes p.member) = some y ∧ PyFloat.eq y x = true

/-- INCR is not refused: the member may be written, the sum is a number and no flag keeps the score. -/
structure Addition.Increments (fl : ZaddFlags) (p : Addition F) (o : Option (ZSet F)) : Prop where
  present : ¬(((scoreIn o p.member).isNone = true ∧ fl.xx = true) ∨ ((scoreIn o p.member).isSome = true ∧ fl.nx = true))
  number : PyFloat.isNaN (PyFloat.add ((scoreIn o p.member).getD PyFloat.zero) p.score) = false
  free : ((scoreIn o p.member).any fun c =>
    (fl.gt && PyFloat.le (PyFloat.add ((scoreIn o p.member).getD PyFloat.zero) p.score) c) ||
    (fl.lt && PyFloat.le c (PyFloat.add ((scoreIn o p.member).getD PyFloat.zero) p.score))) = false

omit [PyFloat.Ordered F] in
/-- INCR is refused. -/
theorem steps_zaddIncr_refused (ctx : Ctx) (ks : Set Bytes) (s : Content F) (key : Bytes) (fl : ZaddFlags) {p : Addition F}
    {o : Option (ZSet F)} (hrefused : ¬p.Increments fl o) :
    ∃ out, (out = .ok .NIL ∨ out = .error (.error .NAN_RESULT)) ∧
      ((scoreIn o p.member).isNone = true ∧ fl.xx = true → out = .ok .NIL) ∧
      Steps ctx ks s (zaddIncr (.bytes key) fl o p.pair) out s := by
  have hscore : Steps ctx ks s (scoreOf o p.pair.2) (.ok (scoreIn o p.member)) s := steps_scoreOf o p.member
  unfold zaddIncr
  by_cases hpresence : ((scoreIn o p.member).isNone = true ∧ fl.xx = true) ∨ ((scoreIn o p.member).isSome = true ∧ fl.nx = true)
  · exact ⟨_, .inl rfl, fun _ => rfl, hscore.bind (.if_pos hpresence (.pure _))⟩
  by_cases hnan : PyFloat.isNaN (PyFloat.add ((scoreIn o p.member).getD PyFloat.zero) p.score) = true
  · exact ⟨_, .inr rfl, fun hmissing => absurd (.inl hmissing) hpresence, hscore.bind (.if_neg hpresence (.refuse hnan))⟩
  refine ⟨_, .inl rfl, fun _ => rfl, hscore.bind (.if_neg hpresence (.check hnan (.if_pos ?_ (.pure _))))⟩
  exact Bool.not_eq_false _ ▸ fun hfree => hrefused ⟨hpresence, Bool.not_eq_true _ ▸ hnan, hfree⟩

open PyFloat.Ordered in
/-- INCR writes the sum, and ends as its event does. -/
theorem steps_zaddIncr (ctx : Ctx) (ks : Set Bytes) {fl : ZaddFlags} {p : Addition F} {o : Option (ZSet F)}
    (hinc : p.Increments fl o)
    (hvalid : ∀ z ∈ o, z.Valid) (h : s.value (.bytes key) = o.map .zset) :
    ∃ z y, z.score (.bytes p.member) = some y ∧
      PyFloat.eq y (PyFloat.add ((scoreIn o p.member).getD PyFloat.zero) p.score) = true ∧
      Steps ctx ks s (zaddIncr (.bytes key) fl o p.pair)
        ((ctx.emits .zadd).map fun _ => scoreReply (PyFloat.add ((scoreIn o p.member).getD PyFloat.zero) p.score))
          (s.withZset (.bytes key) (some z)) := by
  have hscore : Steps ctx ks s (scoreOf o p.pair.2) (.ok (scoreIn o p.member)) s := steps_scoreOf o p.member
  obtain ⟨b, z', hadd, -, -, hown⟩ := (valid_getD hvalid).add p.member hinc.number
  obtain ⟨y, hy, hequal⟩ : ∃ y, z'.score (.bytes p.member) = some y ∧
      PyFloat.eq y (PyFloat.add ((scoreIn o p.member).getD PyFloat.zero) p.score) = true := by
    rcases hown with ⟨-, rfl, current, hcurrent, hequal⟩ | ⟨-, hnew⟩
    · exact ⟨current, hcurrent, hequal⟩
    · exact ⟨_, hnew, (eq_iff hinc.number hinc.number).2 rfl⟩
  refine ⟨z', y, hy, hequal, ?_⟩
  unfold zaddIncr
  refine hscore.bind (.if_neg hinc.present
    (.check (Bool.not_eq_true _ ▸ hinc.number) (.if_neg (Bool.not_eq_true _ ▸ hinc.free) ?_)))
  refine (steps_zsetOrNew h).bind ?_
  change Steps ctx ks _ (inPlace (.bytes key) ((o.getD .empty).add (.bytes p.member) _) >>= _) _ _
  rw [show (o.getD .empty).add (.bytes p.member) (PyFloat.add ((scoreIn o p.member).getD PyFloat.zero) p.pair.1) =
    (some b, z') from hadd]
  refine steps_inPlace.bind ?_
  have hevent := steps_emits ctx ks (s.withZset (.bytes key) (some z')) key .zadd
  revert hevent
  cases ctx.emits .zadd with
  | ok _ => exact fun hevent => hevent.bind (.pure _)
  | error e => exact Steps.bind_error

omit [PyFloat.Ordered F] in
/-- ZADD with INCR. -/
theorem steps_ZADD_incr (hctx : ctx.Purges ks s key) (hflags : Yields (F := F) ctx (_parse_zadd_flags flags) (fl, []))
    (hincr : fl.incr = true)
    {p : Addition F} (hp : p.Parses) {o : Option (ZSet F)} (h : s.value (.bytes key) = o.map .zset)
      {out : Except (Exc Errors) Reply} {s' : Content F}
    (hmissing : o.isNone = true ∧ fl.xx = true → out = .ok .NIL ∧ s' = s)
      (hrun : Steps ctx ks s (zaddIncr (.bytes key) fl o p.pair) out s') :
    Steps ctx ks s (ZADD (.bytes key) (flags ++ p.args)) out s' := by
  have hpairs := yields_zaddPairs ctx (List.forall_mem_singleton.2 hp)
  refine Steps.bind (Steps.of_run (yields_parse_zadd_flags hflags hp.notFlag _)) ?_
  refine .check ?_ (.check (by simp)
    (.check (by simp) ((Steps.of_run hpairs).bind ((steps_zset hctx h).bind (.ite (fun hnone => ?_) fun _ => ?_)))))
  · simp [Addition.args]
  · obtain ⟨rfl, rfl⟩ := hmissing hnone
    rw [hincr]
    exact .pure _
  · rw [hincr]
    exact hrun

omit [PyFloat.Ordered F] in
/-- Where the purge of the key raises ZADD does. -/
theorem gives_ZADD_shut {k : KState F} (hshut : ¬ctx.Opens k key)
    (hflags : Yields (F := F) ctx (_parse_zadd_flags flags) (fl, []))
    {items : List (Addition F)} (hitems : items ≠ []) (hincr : fl.incr = true → items.length = 1)
      (hparse : ∀ p ∈ items, p.Parses) :
    Gives (ZADD (.bytes key) (flags ++ items.flatMap Addition.args)) ctx k (.error .other) (k.store.content ctx.clock.mono) := by
  obtain ⟨p, items, rfl⟩ := List.exists_cons_of_ne_nil hitems
  have hlength := length_args (p :: items)
  refine Gives.bind_run (yields_parse_zadd_flags hflags (hparse p List.mem_cons_self).notFlag _ k) ?_
  dsimp only
  rw [if_neg, if_neg, if_neg]
  · refine Gives.bind_run (yields_zaddPairs ctx hparse k) (Gives.bind_error ?_ _)
    exact Gives.bind_error (Gives.bind_error (gives_get_error hshut) _) _
  · rintro ⟨hinc, hpairs⟩
    have hone := hincr hinc
    change ((p :: items).flatMap Addition.args).length ≠ 2 at hpairs
    omega
  · change ¬((p :: items).flatMap Addition.args).length % 2 ≠ 0
    omega
  · rw [List.length_append, hlength, List.length_cons]
    omega

end Requests

/-- ZADD without INCR: the whole list in one request and each pair in its own leave the same set, and the reply is the sum of
the replies. -/
structure Addition.Folds (ctx : Ctx) (k : KState F) (key : Bytes) (flags : List Value) (fl : ZaddFlags)
    (items : List (Addition F))
    (o : Option (ZSet F)) : Prop where
  batch : Gives (ZADD (.bytes key) (flags ++ items.flatMap args)) ctx k (.ok (.int (applyAll fl items o).1.sum))
    ((k.store.content ctx.clock.mono).withZset (.bytes key) (applyAll fl items o).2)
  singles : Gives (mapM_ (ZADD (.bytes key)) (items.map fun p => flags ++ p.args)) ctx k
    (.ok ((applyAll fl items o).1.map fun n => Reply.int n))
    ((k.store.content ctx.clock.mono).withZset (.bytes key) (applyAll fl items o).2)

/-- Every pair has one of the outcomes on every set it may meet, and touches its own member alone. So it is known what the
flags let happen to a score. -/
structure Addition.Rules (fl : ZaddFlags) (items : List (Addition F)) (o : Option (ZSet F)) : Prop where
  outcome : ∀ p ∈ items, ∀ o : Option (ZSet F), (∀ z ∈ o, z.Valid) →
    p.Outcome fl (scoreIn o p.member) (scoreIn (p.apply fl o).2 p.member) (p.apply fl o).1 ∧
      ∀ m, m ≠ p.member → scoreIn (p.apply fl o).2 m = scoreIn o m
  nx : fl.nx = true → ∀ m x, scoreIn o m = some x → scoreIn (applyAll fl items o).2 m = some x
  xx : fl.xx = true → ∀ m, scoreIn o m = none → scoreIn (applyAll fl items o).2 m = none
  gt : fl.gt = true → ∀ m x, scoreIn o m = some x → ∃ y, scoreIn (applyAll fl items o).2 m = some y ∧ PyFloat.lt y x = false
  lt : fl.lt = true → ∀ m x, scoreIn o m = some x → ∃ y, scoreIn (applyAll fl items o).2 m = some y ∧ PyFloat.lt x y = false
  added : fl.xx = false → ∀ p ∈ items, (scoreIn (applyAll fl items o).2 p.member).isSome = true

section Folds

variable [PyFloat.Ordered F] {ctx : Ctx} {k : KState F} {key : Bytes} {fl : ZaddFlags} {flags : List Value}

theorem Addition.rules {items : List (Addition F)} {o : Option (ZSet F)} (hvalid : ∀ z ∈ o, z.Valid)
    (hparse : ∀ p ∈ items, p.Parses) :
    Addition.Rules fl items o := by
  have hnumber : ∀ {m y}, scoreIn (Addition.applyAll fl items o).2 m = some y → PyFloat.isNaN y = false := fun hy =>
    number_of_scoreIn (Addition.applyAll_valid hparse hvalid) hy
  exact {
    outcome := fun p hp o h => (Addition.apply_spec fl (hparse p hp) h).2
    nx := fun hnx m x hx => Addition.applyAll_nx hnx hparse hvalid hx
    xx := fun hxx m hm => Addition.applyAll_xx hxx hparse hvalid hm
    gt := fun hgt m x hx => by
      obtain ⟨y, hy, hle⟩ := Addition.applyAll_monotone (· ≤ ·) (fun p hp current hnum hfree =>
        (le_of_keeps hnum (number_of_parse_float (hparse p hp).score) hfree).1 hgt) hparse hvalid hx
      exact ⟨y, hy, (lt_eq_false_iff (hnumber hy) (number_of_scoreIn hvalid hx)).2 hle⟩
    lt := fun hlt m x hx => by
      obtain ⟨y, hy, hle⟩ := Addition.applyAll_monotone (· ≥ ·) (fun p hp current hnum hfree =>
        (le_of_keeps hnum (number_of_parse_float (hparse p hp).score) hfree).2 hlt) hparse hvalid hx
      exact ⟨y, hy, (lt_eq_false_iff (number_of_scoreIn hvalid hx) (hnumber hy)).2 hle⟩
    added := fun hxx => Addition.applyAll_added hxx hparse hvalid }

/-- The request and the requests come to their ends exactly if a look at the key and the event of the pairs raise nothing. -/
theorem folds_iff {items : List (Addition F)} {o : Option (ZSet F)}
    (hvalue : (k.store.content ctx.clock.mono).value (.bytes key) = o.map .zset)
    (hvalid : ∀ z ∈ o, z.Valid) (hflags : Yields (F := F) ctx (_parse_zadd_flags flags) (fl, [])) (hincr : fl.incr = false)
    (hitems : items ≠ [])
    (hparse : ∀ p ∈ items, p.Parses) : Addition.Folds ctx k key flags fl items o ↔ ctx.Opens k key ∧
      Addition.Told ctx fl items o := by
  have hmem : key ∈ ({key} : Set Bytes) := Set.mem_singleton key
  constructor
  · intro hfolds
    have hopens : ctx.Opens k key := by
      by_contra hshut
      cases (hfolds.batch.unique (gives_ZADD_shut hshut hflags hitems (by simp [hincr]) hparse)).1
    refine ⟨hopens, ?_⟩
    by_contra huntold
    have hraises := (steps_ZADD (purges_of_mem hmem) hflags hincr hitems hparse hvalid hvalue).gives (.one hopens)
    rw [Addition.told_eq_error huntold] at hraises
    cases (hfolds.batch.unique hraises).1
  · rintro ⟨hopens, htold⟩
    have hbatch := (steps_ZADD (purges_of_mem hmem) hflags hincr hitems hparse hvalid hvalue).gives (.one hopens)
    rw [Addition.told_eq_ok htold] at hbatch
    exact ⟨hbatch, (steps_additions hmem hflags hincr hparse hvalid hvalue htold).gives (.one hopens)⟩

/-- INCR writes the sum or is refused exactly if a look at the key and the event of the sum raise nothing. -/
theorem incremented_iff {p : Addition F} {o : Option (ZSet F)}
    (hvalue : (k.store.content ctx.clock.mono).value (.bytes key) = o.map .zset)
    (hvalid : ∀ z ∈ o, z.Valid) (hflags : Yields (F := F) ctx (_parse_zadd_flags flags) (fl, [])) (hincr : fl.incr = true)
    (hp : p.Parses) :
    (∃ out s', Gives (ZADD (.bytes key) (flags ++ p.args)) ctx k out s' ∧
      p.Incremented (k.store.content ctx.clock.mono) key o out s') ↔
      ctx.Opens k key ∧ (p.Increments fl o → ctx.EventReturns .zadd) := by
  have hpurges : ctx.Purges {key} (k.store.content ctx.clock.mono) key := purges_of_mem (Set.mem_singleton key)
  have hother : ∀ s', ¬p.Incremented (k.store.content ctx.clock.mono) key o (.error .other) s' := by
    rintro s' (⟨hout | hout, -⟩ | ⟨x, z, y, hout, -⟩)
    · cases hout
    · cases hout
    · cases hout
  by_cases hopens : ctx.Opens k key
  case neg =>
    have hraises := gives_ZADD_shut hopens hflags (List.cons_ne_nil p []) (fun _ => rfl) (List.forall_mem_singleton.2 hp)
    rw [List.flatMap_singleton] at hraises
    refine iff_of_false ?_ fun h => hopens h.1
    rintro ⟨out, s', hgives, hincremented⟩
    obtain ⟨rfl, rfl⟩ := hgives.unique hraises
    exact hother _ hincremented
  by_cases hinc : p.Increments fl o
  case neg =>
    obtain ⟨out, hout, hmissing, hrefused⟩ := steps_zaddIncr_refused ctx {key} (k.store.content ctx.clock.mono) key fl hinc
    refine iff_of_true ⟨out, _,
      (steps_ZADD_incr hpurges hflags hincr hp hvalue (fun h => ⟨hmissing ⟨?_, h.2⟩, rfl⟩) hrefused).gives (.one hopens),
      .inl ⟨hout, rfl⟩⟩ ⟨hopens, fun h => absurd h hinc⟩
    rw [Option.isNone_iff_eq_none.1 h.1]
    rfl
  obtain ⟨z, y, hy, hequal, hwrites⟩ := steps_zaddIncr ctx {key} hinc hvalid hvalue
  have hpresent : ¬(o.isNone = true ∧ fl.xx = true) :=
    fun h => hinc.present (.inl ⟨by rw [Option.isNone_iff_eq_none.1 h.1]; rfl, h.2⟩)
  have hgives := (steps_ZADD_incr hpurges hflags hincr hp hvalue (fun h => absurd h hpresent) hwrites).gives (.one hopens)
  by_cases hevent : ctx.EventReturns .zadd
  · rw [ctx.emits_of_returns hevent] at hgives
    exact iff_of_true ⟨_, _, hgives, .inr ⟨_, z, y, rfl, rfl, rfl, hy, hequal⟩⟩ ⟨hopens, fun _ => hevent⟩
  · rw [ctx.emits_of_not hevent] at hgives
    refine iff_of_false ?_ fun h => hevent (h.2 hinc)
    rintro ⟨out, s', hout, hincremented⟩
    obtain ⟨rfl, rfl⟩ := hout.unique hgives
    exact hother _ hincremented

end Folds

/-- `ZADD k GT CH 3 a 1 a 7 b`, with a member twice. -/
def threePairs : List (Addition Int) := [⟨bs "3", 3, bs "a"⟩, ⟨bs "1", 1, bs "a"⟩, ⟨bs "7", 7, bs "b"⟩]

theorem threePairs_parse : ∀ p ∈ threePairs, p.Parses := by
  intro p hp
  simp only [threePairs, List.mem_cons, List.not_mem_nil, or_false] at hp
  rcases hp with rfl | rfl | rfl
  · exact ⟨rfl, rfl⟩
  · exact ⟨rfl, rfl⟩
  · exact ⟨rfl, rfl⟩

/-- No key. -/
def emptyStore : KState Int := ⟨⟨∅, ∅⟩, [], 0⟩

end Kagni
