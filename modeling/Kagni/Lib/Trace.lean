import Mathlib.Tactic.Common

/-!
# Traces of a partial step function

A system is a step function that may be disabled: `step s a` is the state after the action `a`, or `none` when `a` cannot
happen in `s`. A trace is a list of actions that are enabled one after the other. What every step preserves, every trace
preserves.
-/

namespace Lib

variable {σ α : Type}

/-- The state after a list of actions, if all of them are enabled. -/
def trace (step : σ → α → Option σ) : σ → List α → Option σ
  | s, [] => some s
  | s, a :: as => (step s a).bind fun s' => trace step s' as

namespace trace

variable {step : σ → α → Option σ} {s s' : σ} {a : α} {as bs : List α}

@[simp] theorem nil : trace step s [] = some s := rfl

theorem cons_eq_some : trace step s (a :: as) = some s' ↔ ∃ t, step s a = some t ∧ trace step t as = some s' := by
  rw [trace, Option.bind_eq_some_iff]

theorem append : trace step s (as ++ bs) = (trace step s as).bind fun t => trace step t bs := by
  induction as generalizing s with
  | nil => rfl
  | cons a as ih => simp only [List.cons_append, trace, Option.bind_assoc, ih]

/-- The invariant rule. -/
theorem invariant {I : σ → Prop} (hstep : ∀ s a s', I s → step s a = some s' → I s') (h : trace step s as = some s')
    (hs : I s) : I s' := by
  induction as generalizing s with
  | nil => exact Option.some.inj h ▸ hs
  | cons a as ih =>
    obtain ⟨t, ht, h⟩ := cons_eq_some.1 h
    exact ih h (hstep s a t hs ht)

/-- The invariant rule for traces of which every action satisfies `A`. -/
theorem invariant_of_forall {I : σ → Prop} {A : α → Prop} (hstep : ∀ s a s', A a → I s → step s a = some s' → I s')
    (hA : ∀ a ∈ as, A a) (h : trace step s as = some s') (hs : I s) : I s' := by
  induction as generalizing s with
  | nil => exact Option.some.inj h ▸ hs
  | cons a as ih =>
    obtain ⟨t, ht, h⟩ := cons_eq_some.1 h
    exact ih (fun b hb => hA b (by simp [hb])) h (hstep s a t (hA a (by simp)) hs ht)

/-- Every action of the trace meets `A` in the state before it. -/
def Each (step : σ → α → Option σ) (A : σ → α → Prop) (s : σ) (as : List α) : Prop :=
  ∀ done a left t, as = done ++ a :: left → trace step s done = some t → A t a

theorem Each.nil {A : σ → α → Prop} : Each step A s [] := fun done a left _ h => by
  cases done <;> cases h

theorem Each.cons {A : σ → α → Prop} (ha : A s a) (h : ∀ s', step s a = some s' → Each step A s' as) :
    Each step A s (a :: as) := by
  intro done b left t heq ht
  cases done with
  | nil =>
    obtain ⟨rfl, rfl⟩ := List.cons.inj heq
    exact Option.some.inj ht ▸ ha
  | cons c done =>
    obtain ⟨rfl, rfl⟩ := List.cons.inj heq
    obtain ⟨s', hs', ht⟩ := cons_eq_some.1 ht
    exact h s' hs' done b left t rfl ht

theorem Each.head {A : σ → α → Prop} (h : Each step A s (a :: as)) : A s a := h [] a as s rfl rfl

theorem Each.tail {A : σ → α → Prop} (h : Each step A s (a :: as)) (ha : step s a = some s') : Each step A s' as := by
  rintro done b left t rfl ht
  exact h (a :: done) b left t rfl (cons_eq_some.2 ⟨s', ha, ht⟩)

/-- The invariant rule for traces of which every action meets a condition on the state before it. -/
theorem Each.invariant {I : σ → Prop} {A : σ → α → Prop} (hstep : ∀ s a s', A s a → I s → step s a = some s' → I s')
    (hA : Each step A s as)
    (h : trace step s as = some s') (hs : I s) : I s' := by
  induction as generalizing s with
  | nil => exact Option.some.inj h ▸ hs
  | cons a as ih =>
    obtain ⟨t, ht, h⟩ := cons_eq_some.1 h
    exact ih (hA.tail ht) h (hstep s a t hA.head hs ht)

end trace

end Lib
