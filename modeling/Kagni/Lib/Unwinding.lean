import Mathlib.Order.Basic
import Mathlib.Data.List.Pairwise

/-!
# Noninterference

A system takes inputs one after the other, each at its time, and answers each. Some of the inputs are an observer's. The
unwinding conditions speak of single steps: from related states an input of the observer is answered alike and leads to
related states, and any other input leads to a state that is still related to what the first was related to. Then the observer
gets the answers it would get if nobody else had sent anything.
-/

namespace Lib

variable {σ ι ω τ : Type}

/-- The answers to those of the inputs that are the observer's. -/
def answers (step : σ → ι → ω × σ) (mine : ι → Bool) : σ → List ι → List ω
  | _, [] => []
  | s, i :: is => (if mine i then [(step s i).1] else []) ++ answers step mine (step s i).2 is

/-- The state after the inputs. -/
def final (step : σ → ι → ω × σ) (s : σ) (is : List ι) : σ := is.foldl (fun s i => (step s i).2) s

/-- The times of the inputs do not go back. -/
def InOrder [LE τ] (time : ι → τ) (is : List ι) : Prop := is.Pairwise fun i j => time i ≤ time j

/-- The unwinding conditions for the inputs that are allowed. -/
structure Unwinding [LE τ] (step : σ → ι → ω × σ) (time : ι → τ) (mine : ι → Bool) (allowed : ι → Prop) (R : τ → σ → σ → Prop) :
    Prop where
  wait : ∀ {t t' s s'}, t ≤ t' → R t s s' → R t' s s'
  same : ∀ {i s s'}, mine i = true → allowed i → R (time i) s s' → (step s i).1 = (step s' i).1 ∧
    R (time i) (step s i).2 (step s' i).2
  other : ∀ {i s s'}, mine i = false → allowed i → R (time i) s s' → R (time i) (step s i).2 s'

namespace Unwinding

variable [Preorder τ] {step : σ → ι → ω × σ} {time : ι → τ} {mine : ι → Bool} {allowed : ι → Prop} {R : τ → σ → σ → Prop}

/-- The observer cannot tell a run from the one without the inputs of the others. -/
theorem run (h : Unwinding step time mine allowed R) {is : List ι} (hallowed : ∀ i ∈ is, allowed i)
    (horder : InOrder time is) {t : τ}
    (hstart : ∀ i ∈ is, t ≤ time i) {s s' : σ} (hs : R t s s') :
    answers step mine s is = answers step mine s' (is.filter mine) ∧
      ∃ t', (t' = t ∨ ∃ i ∈ is, t' = time i) ∧ R t' (final step s is) (final step s' (is.filter mine)) := by
  induction is generalizing t s s' with
  | nil => exact ⟨rfl, t, .inl rfl, hs⟩
  | cons i is ih =>
    obtain ⟨hi, horder⟩ := List.pairwise_cons.1 horder
    have hi' := h.wait (hstart i (by simp)) hs
    have hok := hallowed i (by simp)
    have hlast : ∀ t', (t' = time i ∨ ∃ j ∈ is, t' = time j) → t' = t ∨ ∃ j ∈ i :: is, t' = time j := by
      rintro t' (rfl | ⟨j, hj, rfl⟩)
      · exact .inr ⟨i, by simp, rfl⟩
      · exact .inr ⟨j, by simp [hj], rfl⟩
    cases hmine : mine i with
    | false =>
      obtain ⟨hanswers, t', ht', hfinal⟩ := ih (fun j hj => hallowed j (by simp [hj])) horder hi (h.other hmine hok hi')
      rw [List.filter_cons_of_neg (by simp [hmine])]
      refine ⟨?_, t', hlast t' ht', hfinal⟩
      rw [answers, hmine]
      exact hanswers
    | true =>
      obtain ⟨hout, hend⟩ := h.same hmine hok hi'
      obtain ⟨hanswers, t', ht', hfinal⟩ := ih (fun j hj => hallowed j (by simp [hj])) horder hi hend
      rw [List.filter_cons_of_pos hmine]
      refine ⟨?_, t', hlast t' ht', hfinal⟩
      rw [answers, answers, hout, hanswers]

/-- The same for a start that is related to itself at any time: what holds of related states at the end holds at any later
time. -/
theorem noninterference (h : Unwinding step time mine allowed R) {is : List ι} (hallowed : ∀ i ∈ is, allowed i)
    (horder : InOrder time is)
    {s : σ} (hs : ∀ t, R t s s) : answers step mine s is = answers step mine s (is.filter mine) ∧
      ∀ t, (∀ i ∈ is, time i ≤ t) → R t (final step s is) (final step s (is.filter mine)) := by
  cases is with
  | nil => exact ⟨rfl, fun t _ => hs t⟩
  | cons i is =>
    have hstart : ∀ j ∈ i :: is, time i ≤ time j := List.forall_mem_cons.2 ⟨le_rfl, (List.pairwise_cons.1 horder).1⟩
    obtain ⟨hanswers, t', ht', hfinal⟩ := h.run hallowed horder hstart (hs _)
    refine ⟨hanswers, fun t ht => h.wait ?_ hfinal⟩
    rcases ht' with rfl | ⟨j, hj, rfl⟩
    · exact ht i (by simp)
    · exact ht j hj

end Unwinding

end Lib
