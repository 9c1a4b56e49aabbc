import Kagni.Lib.Prog

/-!
# Programs that run alike

Two runs of a program from related states run alike when they return or raise the same and end in related states. A program
runs alike when its parts do; on equal states this says that it keeps an invariant.
-/

namespace Lib

namespace Prog

variable {ρ σ ε ε' α β : Type}

/-- Two runs from related states return or raise the same, and end in related states. -/
def Alike (r : ρ) (R : σ → σ → Prop) (m : Prog ρ σ ε α) : Prop :=
  ∀ s s', R s s' → (m r s).1 = (m r s').1 ∧ R (m r s).2 (m r s').2

namespace Alike

variable {r : ρ} {R : σ → σ → Prop} {m : Prog ρ σ ε α}

theorem pure {a : α} : Alike r R (Pure.pure a : Prog ρ σ ε α) := fun _ _ h => ⟨rfl, h⟩

theorem raise {e : ε} : Alike r R (Prog.raise e : Prog ρ σ ε α) := fun _ _ h => ⟨rfl, h⟩

theorem ask : Alike r R (Prog.ask : Prog ρ σ ε ρ) := fun _ _ h => ⟨rfl, h⟩

theorem modify {f : σ → σ} (h : ∀ s s', R s s' → R (f s) (f s')) : Alike r R (Prog.modify f : Prog ρ σ ε Unit) :=
  fun s s' hs => ⟨rfl, h s s' hs⟩

theorem bind {f : α → Prog ρ σ ε β} (hm : Alike r R m) (hf : ∀ a, Alike r R (f a)) : Alike r R (m >>= f) := by
  intro s s' hs
  obtain ⟨hout, hend⟩ := hm s s' hs
  rw [bind_run, bind_run]
  revert hout hend
  cases m r s with
  | mk out t =>
    cases m r s' with
    | mk out' t' =>
      rintro ⟨⟩ hend
      cases out with
      | error e => exact ⟨rfl, hend⟩
      | ok a => exact hf a t t' hend

/-- What is made of the state is the same for both. -/
theorem get_bind {f : σ → Prog ρ σ ε β} (h : ∀ s s', R s s' → f s = f s') (hf : ∀ s, Alike r R (f s)) :
    Alike r R (Prog.get >>= f) := by
  intro s s' hs
  change (f s r s).1 = (f s' r s').1 ∧ R (f s r s).2 (f s' r s').2
  rw [← h s s' hs]
  exact hf s s s' hs

theorem ite {c : Prop} [Decidable c] {m m' : Prog ρ σ ε α} (h : c → Alike r R m) (h' : ¬c → Alike r R m') :
    Alike r R (if c then m else m') := by
  split
  · exact h ‹_›
  · exact h' ‹_›

theorem each {f : β → Prog ρ σ ε Unit} {xs : List β} (h : ∀ x ∈ xs, Alike r R (f x)) : Alike r R (Prog.each f xs) := by
  induction xs with
  | nil => exact pure
  | cons x xs ih => exact (h x (by simp)).bind fun _ => ih fun y hy => h y (by simp [hy])

theorem fold {f : α → β → Prog ρ σ ε α} {a : α} {xs : List β} (h : ∀ a, ∀ x ∈ xs, Alike r R (f a x)) :
    Alike r R (Prog.fold f a xs) := by
  induction xs generalizing a with
  | nil => exact pure
  | cons x xs ih => exact (h a x (by simp)).bind fun b => ih fun b y hy => h b y (by simp [hy])

theorem attempt (hm : Alike r R m) : Alike r R (Prog.attempt m : Prog ρ σ ε' (Except ε α)) := by
  intro s s' hs
  obtain ⟨hout, hend⟩ := hm s s' hs
  exact ⟨congrArg Except.ok hout, hend⟩

/-- On equal states a program runs alike as far as it keeps an invariant. -/
theorem of_respects {I : σ → Prop} (h : ∀ s, I s → I (m r s).2) : Alike r (fun s s' => s = s' ∧ I s) m := by
  rintro s s' ⟨rfl, hs⟩
  exact ⟨rfl, rfl, h s hs⟩

end Alike

end Prog

end Lib
