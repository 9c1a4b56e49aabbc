import Kagni.Footprint

/-!
# Parsing touches nothing

The arguments of a command are parsed before the store is looked at. A parser asks for nothing but the clock and the outside
world, so it obeys every discipline.
-/

namespace Kagni

open Lib Lib.Prog

variable {F : Type} {d : Discipline} {S : Set Value} {α β : Type}

/-- What a program computes obeys every discipline. -/
theorem of_computes {m : K F α} {Q : α → Prop} (h : Computes m Q) : Disciplined d S m Q :=
  Built.mono (fun h => by
    cases h with
    | ask f => exact ⟨_, .ask f, fun a ⟨env, port, ha⟩ => ⟨env, _, port, ha⟩⟩) h

/-- A program that computes leaves the state alone, and its outcome does not depend on it. -/
theorem Computes.run {m : K F α} {Q : α → Prop} (h : Computes m Q) (ctx : Ctx) :
    ∃ out, (∀ k, m ctx k = (out, k)) ∧ ∀ a, out = .ok a → Q a := by
  replace h : Built Asking (∅ : Set Value) m Q := h
  generalize (∅ : Set Value) = S at h
  induction h with
  | leaf h _ =>
    cases h with
    | ask f => exact ⟨_, fun _ => rfl, fun a ha => ⟨_, _, _, (Except.ok.inj ha).symm⟩⟩
  | pure ha => exact ⟨_, fun _ => rfl, fun _ e => Except.ok.inj e ▸ ha⟩
  | raise e => exact ⟨_, fun _ => rfl, nofun⟩
  | bind _ _ ihm ihf =>
    obtain ⟨out, hrun, hQ⟩ := ihm
    cases out with
    | error e => exact ⟨.error e, fun k => bind_error ctx k (hrun k), nofun⟩
    | ok a =>
      obtain ⟨out, hrest, hR⟩ := ihf a (hQ a rfl)
      exact ⟨out, fun k => (bind_ok ctx k (hrun k)).trans (hrest k), hR⟩
  | learn h _ _ ihf =>
    cases h with
    | ask f =>
      obtain ⟨out, hrest, hR⟩ := ihf _ ⟨_, _, _, rfl⟩
      exact ⟨out, hrest, hR⟩

/-- The program returns a value from every state, and leaves the state alone. -/
def Yields (ctx : Ctx) (m : K F α) (a : α) : Prop := ∀ k, m ctx k = (.ok a, k)

namespace Yields

variable {ctx : Ctx} {m : K F α} {f : α → K F β} {a : α} {b : β}

theorem pure (a : α) : Yields ctx (Pure.pure a : K F α) a := fun _ => rfl

/-- A value goes through a bind to what the rest yields of it. -/
theorem bind (hm : Yields ctx m a) (hf : Yields ctx (f a) b) : Yields ctx (m >>= f) b :=
  fun k => (bind_ok ctx k (hm k)).trans (hf k)

/-- A sequence that starts with a computation returns only if the computation does. -/
theorem of_bind {Q : α → Prop} (hm : Computes m Q) (h : Yields ctx (m >>= f) b) :
    ∃ a, Q a ∧ Yields ctx m a ∧ Yields ctx (f a) b := by
  obtain ⟨out, hrun, hout⟩ := hm.run ctx
  cases out with
  | ok a => exact ⟨a, hout a rfl, hrun, fun k => (bind_ok ctx k (hrun k)).symm.trans (h k)⟩
  | error e =>
    have hk := (bind_error ctx ⟨⟨∅, ∅⟩, [], 0⟩ (hrun _)).symm.trans (h ⟨⟨∅, ∅⟩, [], 0⟩)
    cases congrArg Prod.fst hk

/-- A program yields one value at most. -/
theorem eq {a' : α} (h : Yields ctx m a) (h' : Yields ctx m a') : a = a' :=
  Except.ok.inj (congrArg Prod.fst ((h ⟨⟨∅, ∅⟩, [], 0⟩).symm.trans (h' ⟨⟨∅, ∅⟩, [], 0⟩)))

/-- What raises yields nothing. -/
theorem not_raise {e : Exc Errors} : ¬Yields ctx (raise e : K F α) a := fun h => by
  cases congrArg Prod.fst (h ⟨⟨∅, ∅⟩, [], 0⟩)

/-- A check that passes is as if it were not there. -/
theorem check {c : Prop} [Decidable c] {e : Errors} {g : PUnit → K F α} (hc : ¬c) (h : Yields ctx (g PUnit.unit) a) :
    Yields ctx (if c then throw_ e >>= g else g PUnit.unit) a := by
  rw [if_neg hc]
  exact h

/-- A check was passed. -/
theorem of_check {c : Prop} [Decidable c] {e : Errors} {g : PUnit → K F α}
    (h : Yields ctx (if c then throw_ e >>= g else g PUnit.unit) a) :
    ¬c ∧ Yields ctx (g PUnit.unit) a := by
  split at h
  · exact absurd h not_raise
  · exact ⟨‹_›, h⟩

end Yields

/-! ## Lists of computations -/

section Lists

variable {γ : Type} [LE γ] {leaf : Leaf γ Ctx (KState F) (Exc Errors)} {g : γ}

/-- A filter keeps items of the list it was given. -/
theorem built_filterM {p : α → K F Bool} {xs : List α} (h : ∀ x ∈ xs, Built leaf g (p x) fun _ => True) :
    Built leaf g (filterM_ p xs) fun ys => ∀ y ∈ ys, y ∈ xs := by
  induction xs with
  | nil => exact .pure nofun
  | cons x xs ih =>
    refine (h x (by simp)).bind fun keep _ => (ih fun y hy => h y (by simp [hy])).bind fun rest hrest => .pure ?_
    split
    · exact List.forall_mem_cons.2 ⟨by simp, fun y hy => List.mem_cons_of_mem _ (hrest y hy)⟩
    · exact fun y hy => List.mem_cons_of_mem _ (hrest y hy)

/-- What a map collects has the property that each of its calls gives. -/
theorem built_mapM {f : α → K F β} {xs : List α} {Q : β → Prop} (h : ∀ x ∈ xs, Built leaf g (f x) Q) :
    Built leaf g (mapM_ f xs) fun ys => ∀ y ∈ ys, Q y := by
  induction xs with
  | nil => exact .pure nofun
  | cons x xs ih =>
    refine (h x (by simp)).bind fun y hy => (ih fun z hz => h z (by simp [hz])).bind fun ys hys => .pure ?_
    exact List.forall_mem_cons.2 ⟨hy, hys⟩

/-- A check that raises unless it passes: what follows may rely on it. -/
theorem built_check {c : Prop} [Decidable c] {e : Errors} {f : PUnit → K F α} {Q : α → Prop}
    (h : ¬c → Built leaf g (f PUnit.unit) Q) :
    Built leaf g (if c then throw_ e >>= f else f PUnit.unit) Q :=
  .ite (fun _ => .bind (Q := fun _ => False) (.raise _) fun _ => False.elim) h

end Lists

/-! ## What the command modules share -/

theorem computes_clock : Computes (clock : K F Clock) fun _ => True :=
  (Built.leaf (.ask fun _ now _ => now) le_rfl).weaken fun _ _ => trivial

/-- A value that can be a key passes; the others raise. -/
theorem computes_needHash (v : Value) : Computes (needHash v : K F Unit) fun _ => v.hashable = true :=
  .ite (fun h => .pure h) fun _ => .raise _

theorem computes_orFail (a : Option α) : Computes (orFail a : K F α) fun x => a = some x := by
  cases a with
  | none => exact .raise _
  | some x => exact .pure rfl

/-- Only a byte string is let through. -/
theorem computes_asBytes (v : Value) : Computes (asBytes v : K F Bytes) fun b => v = .bytes b := by
  cases v with
  | bytes b => exact .pure rfl
  | _ => exact .raise _

/-- An option's name is compared in upper case. -/
theorem computes_upperArg (v : Value) : Computes (upperArg v : K F Bytes) fun u => ∀ name, u = name ↔ v.names name = true := by
  refine (computes_asBytes v).bind fun b hb => .pure fun name => ?_
  rw [hb, Value.names, decide_eq_true_iff]

/-- A pattern is compiled in the environment. -/
theorem computes_compile_glob (v : Value) : Computes (compile_glob v : K F _) fun _ => True := by
  cases v with
  | bytes p =>
    have h : Computes (do orFail (← (fun ctx k => (.ok (ctx.env.glob p), k) : K F _)) : K F (Bytes → Bool)) fun _ => True :=
      (Built.leaf (.ask fun env _ _ => env.glob p) le_rfl).bind fun _ _ => (computes_orFail _).weaken fun _ _ => trivial
    intro S
    exact h
  | _ => exact .raise _

/-- A matcher is asked about a byte string. -/
theorem computes_matches (matcher : Bytes → Bool) (v : Value) : Computes (matches_ matcher v : K F Bool) fun _ => True := by
  cases v with
  | bytes b => exact .pure trivial
  | _ => exact .raise _

/-- A missing pattern is none to compile. -/
theorem computes_compilePattern (p : Option Value) : Computes (compilePattern p : K F _) fun _ => True := by
  unfold compilePattern
  split
  · exact .pure trivial
  · exact .pure trivial
  · exact (computes_compile_glob _).bind fun _ _ => .pure trivial

theorem computes_patternMatches (rgx : Option (Bytes → Bool)) (v : Value) :
    Computes (patternMatches rgx v : K F Bool) fun _ => True := by
  cases rgx with
  | none => exact .pure trivial
  | some matcher => exact computes_matches matcher v

/-- An integer argument is one that `string2ll` accepts. -/
theorem computes_intArg (v : Value) : Computes (intArg v : K F Int) fun n => toLL v = some n := by
  unfold intArg
  split
  · exact .pure ‹_›
  · exact .raise _

/-- An optional integer argument is read if it is there. -/
theorem computes_intArg? (v : Option Value) : Computes (intArg? v : K F (Option Int)) fun _ => True := by
  cases v with
  | none => exact .pure trivial
  | some v => exact (computes_intArg v).bind fun _ _ => .pure trivial

/-- A number is given back, or the error is thrown. -/
theorem computes_orThrow (e : Errors) (n : Option Int) : Computes (orThrow e n : K F Int) fun m => n = some m := by
  cases n with
  | none => exact .raise _
  | some n => exact .pure rfl

/-- A score that is read is never a NaN. -/
theorem number_of_parse_float [PyFloat F] {b : Bytes} {x : F} (h : _parse_float b = some x) : PyFloat.isNaN x = false := by
  unfold _parse_float at h
  split at h
  · cases h
  split at h
  · cases h
  split at h
  · cases h
  · rename_i value _ hnan
    have hx : x = value := by
      split at h
      · dsimp only at h
        split at h
        · exact (Option.some.inj h).symm
        · cases h
      · split at h
        · cases h
        · exact (Option.some.inj h).symm
    rw [hx]
    exact eq_false_of_ne_true hnan

/-- A float that is read is a number. -/
theorem computes_number [PyFloat F] (e : Errors) (v : Value) :
    Computes (floatArg e v : K F F) fun x => PyFloat.isNaN x = false := by
  refine (computes_asBytes v).bind ?_
  intro b _
  split
  · rename_i x hx
    exact .pure (number_of_parse_float hx)
  · exact .raise _

/-- A float argument is read, or refused with its error. -/
theorem computes_floatArg [PyFloat F] (e : Errors) (v : Value) : Computes (floatArg e v : K F F) fun _ => True :=
  (computes_number e v).weaken fun _ _ => trivial

theorem computes_parse_scan_cursor (raw : Value) : Computes (parse_scan_cursor raw : K F Int) fun _ => True := by
  refine (computes_orThrow _ _).bind ?_
  intro _ _
  exact .ite (fun _ => .raise _) fun _ => .pure trivial

/-- A COUNT is checked and then ignored. -/
theorem computes_scanCount (v : Value) : Computes (scanCount v : K F Unit) fun _ => True := by
  refine (computes_orThrow _ _).bind ?_
  intro _ _
  exact .ite (fun _ => .raise _) fun _ => .pure trivial

/-- The options of a scan are read from the arguments. -/
theorem computes_parse_scan_options (pattern : Option Value) (options : List Value) :
    Computes (parse_scan_options pattern options : K F _) fun _ => True := by
  intro S
  fun_induction parse_scan_options (F := F) pattern options with
  | case1 => exact .pure trivial
  | case2 pattern opt => exact (computes_upperArg opt).bind fun _ _ => .raise _
  | case3 pattern opt value rest ih ih' =>
    refine (computes_upperArg opt).bind ?_
    intro _ _
    refine .ite (fun _ => ih) ?_
    intro _
    refine .ite (fun _ => ?_) fun _ => .raise _
    exact (computes_scanCount value).bind fun _ _ => ih'

/-- Each option has to be the one flag. -/
theorem computes_flagOptions (name : Bytes) (options : List Value) :
    Computes (flagOptions name options : K F Unit) fun _ => True := by
  intro S
  induction options with
  | nil => exact .pure trivial
  | cons opt rest ih =>
    refine (computes_upperArg opt).bind ?_
    intro _ _
    exact .ite (fun _ => ih) fun _ => .raise _

end Kagni
