import Kagni.Lib.Prog
import Mathlib.Order.Basic

/-!
# Programs built from primitives

A program that is built from some primitives by sequencing inherits what the primitives have in common. A primitive may need a
fact about what ran before it, and may leave one behind: such facts are points of an order, in which a greater point says
more. `Built leaf g m Q` says that from the fact `g` on the program `m` is built from primitives with `leaf`, each with a
postcondition the rest of the program may rely on, and that what `m` returns satisfies `Q`. Two rules eliminate it: an
invariant that every primitive keeps is kept by the program, and a relation between two runs in which every primitive moves in
step is one in which the program does.
-/

namespace Lib

namespace Prog

variable {γ ρ σ ε : Type}

/-- A property of programs: the fact they start from, a postcondition, and the fact they leave. -/
abbrev Leaf (γ ρ σ ε : Type) := γ → ∀ α : Type, Prog ρ σ ε α → (α → Prop) → γ → Prop

/-- Programs built from those with `leaf`, with what they return. -/
inductive Built [LE γ] (leaf : Leaf γ ρ σ ε) : γ → ∀ {α : Type}, Prog ρ σ ε α → (α → Prop) → Prop
  | leaf {g g' : γ} {α : Type} {m : Prog ρ σ ε α} {Q : α → Prop} (h : leaf g α m Q g') (hle : g ≤ g') : Built leaf g m Q
  | pure {g : γ} {α : Type} {a : α} {Q : α → Prop} (h : Q a) : Built leaf g (Pure.pure a) Q
  | raise {g : γ} {α : Type} {Q : α → Prop} (e : ε) : Built leaf g (Prog.raise e : Prog ρ σ ε α) Q
  | bind {g : γ} {α β : Type} {m : Prog ρ σ ε α} {f : α → Prog ρ σ ε β} {Q : α → Prop} {R : β → Prop} (hm : Built leaf g m Q)
      (hf : ∀ a, Q a → Built leaf g (f a) R) : Built leaf g (m >>= f) R
  | learn {g g' : γ} {α β : Type} {m : Prog ρ σ ε α} {f : α → Prog ρ σ ε β} {Q : α → Prop} {R : β → Prop} (h : leaf g α m Q g')
      (hle : g ≤ g') (hf : ∀ a, Q a → Built leaf g' (f a) R) : Built leaf g (m >>= f) R

/-- `m` is built from primitives, and what runs after it may rely on the fact `g'`. -/
structure Teaches [LE γ] (leaf : Leaf γ ρ σ ε) (g : γ) {α : Type} (m : Prog ρ σ ε α) (Q : α → Prop) (g' : γ) : Prop where
  andThen : ∀ {β : Type} {f : α → Prog ρ σ ε β} {R : β → Prop}, (∀ a, Q a → Built leaf g' (f a) R) → Built leaf g (m >>= f) R

namespace Built

variable [LE γ] {leaf leaf' : Leaf γ ρ σ ε} {g g' : γ} {α β : Type} {m : Prog ρ σ ε α} {Q Q' : α → Prop}

theorem weaken (hm : Built leaf g m Q) (h : ∀ a, Q a → Q' a) : Built leaf g m Q' := by
  have : Built leaf g (m >>= Pure.pure) Q' := hm.bind fun a ha => .pure (h a ha)
  rwa [bind_pure] at this

/-- What is built from some primitives is built from stronger ones. -/
theorem mono (h : ∀ {g g' : γ} {α : Type} {m : Prog ρ σ ε α} {Q : α → Prop}, leaf g α m Q g' →
      ∃ P : α → Prop, leaf' g α m P g' ∧ ∀ a, P a → Q a) (hm : Built leaf g m Q) : Built leaf' g m Q := by
  induction hm with
  | leaf hl hle =>
    obtain ⟨P, hP, hPQ⟩ := h hl
    exact (Built.leaf hP hle).weaken hPQ
  | pure ha => exact .pure ha
  | raise e => exact .raise e
  | bind _ _ ihm ihf => exact .bind ihm ihf
  | learn hl hle _ ihf =>
    obtain ⟨P, hP, hPQ⟩ := h hl
    exact .learn hP hle fun a ha => ihf a (hPQ a ha)

theorem ite {c : Prop} [Decidable c] {m m' : Prog ρ σ ε α} (h : c → Built leaf g m Q) (h' : ¬c → Built leaf g m' Q) :
    Built leaf g (if c then m else m') Q := by
  split
  · exact h ‹_›
  · exact h' ‹_›

theorem each {f : β → Prog ρ σ ε Unit} {xs : List β} {P : β → Prop} (h : ∀ x ∈ xs, Built leaf g (f x) fun _ => P x) :
    Built leaf g (Prog.each f xs) fun _ => ∀ x ∈ xs, P x := by
  induction xs with
  | nil => exact .pure nofun
  | cons x xs ih =>
    refine (h x (by simp)).bind fun _ hx => (ih fun y hy => h y (by simp [hy])).weaken fun _ hxs => ?_
    exact List.forall_mem_cons.2 ⟨hx, hxs⟩

theorem fold {f : α → β → Prog ρ σ ε α} {a : α} {xs : List β} (ha : Q a)
    (h : ∀ a, Q a → ∀ x ∈ xs, Built leaf g (f a x) Q) : Built leaf g (Prog.fold f a xs) Q := by
  induction xs generalizing a with
  | nil => exact .pure ha
  | cons x xs ih => exact (h a ha x (by simp)).bind fun b hb => ih hb fun c hc y hy => h c hc y (by simp [hy])

/-- An invariant that every primitive keeps, and under which it returns what it promises, is kept by the program. -/
theorem triple {r : ρ} {I : γ → σ → Prop} (hI : ∀ {g g' : γ}, g ≤ g' → ∀ s, I g' s → I g s)
    (hleaf : ∀ {g g' : γ} {α : Type} {m : Prog ρ σ ε α} {Q : α → Prop}, leaf g α m Q g' →
      Triple r (I g) m (fun a s => I g' s ∧ Q a) fun _ => I g) (hm : Built leaf g m Q) :
    Triple r (I g) m (fun a s => I g s ∧ Q a) fun _ => I g := by
  induction hm with
  | leaf h hle => exact (hleaf h).weaken fun a s hs => ⟨hI hle s hs.1, hs.2⟩
  | pure h => exact .pure fun _ hs => ⟨hs, h⟩
  | raise e => exact .raise fun _ hs => hs
  | bind _ _ ihm ihf => exact ihm.bind fun a s hs => ihf a hs.2 s hs.1
  | learn h hle _ ihf =>
    refine (hleaf h).bind ?_
    intro a s hs
    exact (ihf a hs.2).conseq (fun _ h => h) (fun _ s hs => ⟨hI hle s hs.1, hs.2⟩) (fun _ => hI hle) s hs.1

/-- Two outcomes are the same and end in related states. -/
def Lockstep (R : σ → σ → Prop) (Q : α → Prop) (out out' : Except ε α × σ) : Prop :=
  out.1 = out'.1 ∧ R out.2 out'.2 ∧ ∀ a, out.1 = .ok a → Q a

/-- Two programs one after the other. -/
theorem Lockstep.bind {r r' : ρ} {s s' : σ} {R R' : σ → σ → Prop} {f : α → Prog ρ σ ε β} {P : β → Prop}
    (hm : Lockstep R Q (m r s) (m r' s')) (hR : ∀ s s', R s s' → R' s s')
    (hf : ∀ a, Q a → ∀ s s', R s s' → Lockstep R' P (f a r s) (f a r' s')) :
    Lockstep R' P ((m >>= f) r s) ((m >>= f) r' s') := by
  obtain ⟨hout, hs, hQ⟩ := hm
  rw [bind_run, bind_run]
  revert hout hs hQ
  cases m r s with
  | mk out t =>
    cases m r' s' with
    | mk out' t' =>
      rintro ⟨⟩ hs hQ
      cases out with
      | error e => exact ⟨rfl, hR _ _ hs, nofun⟩
      | ok a => exact hf a (hQ a rfl) _ _ hs

/-- Two runs in which every primitive moves in step. -/
theorem lockstep {r r' : ρ} {R : γ → σ → σ → Prop} (hR : ∀ {g g' : γ}, g ≤ g' → ∀ s s', R g' s s' → R g s s')
    (hleaf : ∀ {g g' : γ} {α : Type} {m : Prog ρ σ ε α} {Q : α → Prop}, leaf g α m Q g' → g ≤ g' →
      ∀ s s', R g s s' → (m r s).1 = (m r' s').1 ∧ R g (m r s).2 (m r' s').2 ∧
        ∀ a, (m r s).1 = .ok a → Q a ∧ R g' (m r s).2 (m r' s').2) (hm : Built leaf g m Q) {s s' : σ} (hs : R g s s') :
    Lockstep (R g) Q (m r s) (m r' s') := by
  induction hm generalizing s s' with
  | leaf h hle =>
    obtain ⟨hout, hR, hQ⟩ := hleaf h hle s s' hs
    exact ⟨hout, hR, fun a ha => (hQ a ha).1⟩
  | pure h => exact ⟨rfl, hs, fun _ e => Except.ok.inj e ▸ h⟩
  | raise e => exact ⟨rfl, hs, nofun⟩
  | bind _ _ ihm ihf => exact (ihm hs).bind (fun _ _ h => h) fun a ha _ _ h => ihf a ha h
  | @learn g g' _ _ m f _ _ h hle _ ihf =>
    obtain ⟨hout, hRg, hQ⟩ := hleaf h hle s s' hs
    rw [bind_run, bind_run]
    revert hout hRg hQ
    cases m r s with
    | mk out t =>
      cases m r' s' with
      | mk out' t' =>
        rintro ⟨⟩ hRg hQ
        cases out with
        | error e => exact ⟨rfl, hRg, nofun⟩
        | ok a =>
          obtain ⟨ha, hR'⟩ := hQ a rfl
          obtain ⟨h1, h2, h3⟩ := ihf a ha hR'
          exact ⟨h1, hR hle _ _ h2, h3⟩

end Built

namespace Teaches

variable [LE γ] {leaf : Leaf γ ρ σ ε} {g g' : γ} {α β : Type} {m : Prog ρ σ ε α} {Q : α → Prop} {R : β → Prop}

theorem of_leaf (h : leaf g α m Q g') (hle : g ≤ g') : Teaches leaf g m Q g' := ⟨.learn h hle⟩

theorem bind (hm : Teaches leaf g m Q g') {f : α → Prog ρ σ ε β} (hf : ∀ a, Q a → Built leaf g' (f a) R) :
    Teaches leaf g (m >>= f) R g' := by
  refine ⟨fun hf' => ?_⟩
  rw [bind_assoc]
  exact hm.andThen fun a ha => (hf a ha).bind hf'

theorem built (hm : Teaches leaf g m Q g') : Built leaf g m Q := by
  have : Built leaf g (m >>= Pure.pure) Q := hm.andThen fun a ha => .pure ha
  rwa [bind_pure] at this

end Teaches

end Prog

end Lib
