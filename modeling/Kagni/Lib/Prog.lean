import Mathlib.Tactic.Common

/-!
# Programs whose state survives an exception

A program reads a context, works on a state and either returns a value or raises an exception. When it raises, what it wrote
before stays written: this is the meaning of a method of an imperative language without transactions, and the reason an error
path needs its own postcondition. A triple therefore has two postconditions, one for a normal end and one for an exception.

The rules below are the usual ones: consequence, sequencing, choice, and an invariant rule for the two loops that go through a
list (`each` for effects, `fold` with an accumulator).
-/

namespace Lib

/-- A program over a context `ρ`, a state `σ`, exceptions `ε` and results `α`. -/
def Prog (ρ σ ε α : Type) : Type := ρ → σ → Except ε α × σ

namespace Prog

variable {ρ σ ε ε' α β γ : Type}

/-- Return a value. -/
protected def pure (a : α) : Prog ρ σ ε α := fun _ s => (.ok a, s)

/-- Run `m`, then `f` on its result; an exception of `m` ends the program, in the state `m` left. -/
protected def bind (m : Prog ρ σ ε α) (f : α → Prog ρ σ ε β) : Prog ρ σ ε β := fun r s =>
  match m r s with
  | (.ok a, s') => f a r s'
  | (.error e, s') => (.error e, s')

instance : Monad (Prog ρ σ ε) where
  pure := Prog.pure
  bind := Prog.bind

/-- Raise an exception. -/
def raise (e : ε) : Prog ρ σ ε α := fun _ s => (.error e, s)

/-- Read the context. -/
def ask : Prog ρ σ ε ρ := fun r s => (.ok r, s)

/-- Read the state. -/
def get : Prog ρ σ ε σ := fun _ s => (.ok s, s)

/-- Change the state. -/
def modify (f : σ → σ) : Prog ρ σ ε Unit := fun _ s => (.ok (), f s)

/-- Run `m` and hand its outcome on as a value: the `try` of a source program. -/
def attempt (m : Prog ρ σ ε α) : Prog ρ σ ε' (Except ε α) := fun r s => (.ok (m r s).1, (m r s).2)

/-- `for x in xs: f x`. -/
def each (f : α → Prog ρ σ ε Unit) : List α → Prog ρ σ ε Unit
  | [] => Prog.pure ()
  | x :: xs => Prog.bind (f x) fun _ => each f xs

/-- `for x in xs: acc = f acc x`. -/
def fold (f : β → α → Prog ρ σ ε β) : β → List α → Prog ρ σ ε β
  | b, [] => Prog.pure b
  | b, x :: xs => Prog.bind (f b x) fun b' => fold f b' xs

section Run

variable (r : ρ) (s : σ)

@[simp] theorem pure_run (a : α) : (pure a : Prog ρ σ ε α) r s = (.ok a, s) := rfl

theorem bind_run (m : Prog ρ σ ε α) (f : α → Prog ρ σ ε β) :
    (m >>= f) r s = match m r s with
      | (.ok a, s') => f a r s'
      | (.error e, s') => (.error e, s') := rfl

theorem bind_ok {m : Prog ρ σ ε α} {f : α → Prog ρ σ ε β} {a : α} {s' : σ} (h : m r s = (.ok a, s')) :
    (m >>= f) r s = f a r s' := by
  rw [bind_run, h]

theorem bind_error {m : Prog ρ σ ε α} {f : α → Prog ρ σ ε β} {e : ε} {s' : σ} (h : m r s = (.error e, s')) :
    (m >>= f) r s = (.error e, s') := by
  rw [bind_run, h]

@[simp] theorem raise_run (e : ε) : (raise e : Prog ρ σ ε α) r s = (.error e, s) := rfl

@[simp] theorem ask_run : (ask : Prog ρ σ ε ρ) r s = (.ok r, s) := rfl

@[simp] theorem get_run : (get : Prog ρ σ ε σ) r s = (.ok s, s) := rfl

@[simp] theorem modify_run (f : σ → σ) : (modify f : Prog ρ σ ε Unit) r s = (.ok (), f s) := rfl

end Run

instance : LawfulMonad (Prog ρ σ ε) := by
  refine LawfulMonad.mk' (Prog ρ σ ε) (fun m => ?_) (fun _ _ => rfl) (fun m f g => ?_)
  · funext r s
    change Prog.bind m _ r s = _
    unfold Prog.bind
    cases m r s with
    | mk out s' => cases out <;> rfl
  · funext r s
    change Prog.bind (Prog.bind m f) g r s = Prog.bind m _ r s
    unfold Prog.bind
    cases m r s with
    | mk out s' => cases out <;> rfl

@[simp] theorem each_nil (f : α → Prog ρ σ ε Unit) : each f [] = pure () := rfl

@[simp] theorem each_cons (f : α → Prog ρ σ ε Unit) (x : α) (xs : List α) :
    each f (x :: xs) = f x >>= fun _ => each f xs := rfl

@[simp] theorem fold_nil (f : β → α → Prog ρ σ ε β) (b : β) : fold f b [] = pure b := rfl

@[simp] theorem fold_cons (f : β → α → Prog ρ σ ε β) (b : β) (x : α) (xs : List α) :
    fold f b (x :: xs) = f b x >>= fun b' => fold f b' xs := rfl

/-- What holds of an outcome: `Q` of a value and the state it was returned in, `E` of an exception and its state. -/
def Outcome (Q : α → σ → Prop) (E : ε → σ → Prop) : Except ε α × σ → Prop
  | (.ok a, s) => Q a s
  | (.error e, s) => E e s

/-- The triple: from a state with `P`, under the context `r`, `m` ends with `Q` or raises with `E`. -/
def Triple (r : ρ) (P : σ → Prop) (m : Prog ρ σ ε α) (Q : α → σ → Prop) (E : ε → σ → Prop) : Prop :=
  ∀ s, P s → Outcome Q E (m r s)

namespace Triple

variable {r : ρ} {P P' : σ → Prop} {Q Q' : α → σ → Prop} {R : β → σ → Prop} {E E' : ε → σ → Prop}

theorem pure {a : α} (h : ∀ s, P s → Q a s) : Triple r P (Pure.pure a) Q E := fun s hs => h s hs

theorem raise {e : ε} (h : ∀ s, P s → E e s) : Triple r P (Prog.raise e) Q E := fun s hs => h s hs

theorem modify {f : σ → σ} {Q : Unit → σ → Prop} (h : ∀ s, P s → Q () (f s)) : Triple r P (Prog.modify f) Q E :=
  fun s hs => h s hs

theorem get {Q : σ → σ → Prop} (h : ∀ s, P s → Q s s) : Triple r P Prog.get Q E := fun s hs => h s hs

theorem ask {Q : ρ → σ → Prop} (h : ∀ s, P s → Q r s) : Triple r P Prog.ask Q E := fun s hs => h s hs

/-- Sequencing: what the first program establishes for its result is what the second starts from. -/
theorem bind {m : Prog ρ σ ε α} {f : α → Prog ρ σ ε β} (hm : Triple r P m Q E)
    (hf : ∀ a, Triple r (Q a) (f a) R E) : Triple r P (m >>= f) R E := by
  intro s hs
  have h := hm s hs
  rw [bind_run]
  revert h
  cases m r s with
  | mk out s' =>
    cases out with
    | ok a => exact hf a s'
    | error e => exact id

/-- Consequence. -/
theorem conseq {m : Prog ρ σ ε α} (hm : Triple r P m Q E) (hP : ∀ s, P' s → P s) (hQ : ∀ a s, Q a s → Q' a s)
    (hE : ∀ e s, E e s → E' e s) : Triple r P' m Q' E' := by
  intro s hs
  have h := hm s (hP s hs)
  revert h
  cases m r s with
  | mk out s' =>
    cases out with
    | ok a => exact hQ a s'
    | error e => exact hE e s'

theorem weaken {m : Prog ρ σ ε α} (hm : Triple r P m Q E) (hQ : ∀ a s, Q a s → Q' a s) : Triple r P m Q' E :=
  hm.conseq (fun _ h => h) hQ (fun _ _ h => h)

theorem pre {m : Prog ρ σ ε α} (hm : Triple r P m Q E) (hP : ∀ s, P' s → P s) : Triple r P' m Q E :=
  hm.conseq hP (fun _ _ h => h) (fun _ _ h => h)

theorem ite {c : Prop} [Decidable c] {m m' : Prog ρ σ ε α} (h : c → Triple r P m Q E) (h' : ¬c → Triple r P m' Q E) :
    Triple r P (if c then m else m') Q E := by
  by_cases hc : c
  · rw [if_pos hc]
    exact h hc
  · rw [if_neg hc]
    exact h' hc

/-- The invariant rule of `fold`: the invariant also speaks about the accumulator. -/
theorem fold {f : β → α → Prog ρ σ ε β} {I : β → σ → Prop} {b : β} {xs : List α}
    (h : ∀ b, ∀ x ∈ xs, Triple r (I b) (f b x) I E) : Triple r (I b) (Prog.fold f b xs) I E := by
  induction xs generalizing b with
  | nil => exact Triple.pure fun _ hs => hs
  | cons x xs ih =>
    rw [fold_cons]
    exact (h b x (by simp)).bind fun b' => ih fun b y hy => h b y (by simp [hy])

end Triple

/-! ## What a program may return and raise -/

/-- Whatever `m` returns satisfies `Q`, and whatever it raises satisfies `E`. -/
def Ends (Q : α → Prop) (E : ε → Prop) (m : Prog ρ σ ε α) : Prop :=
  ∀ r s, Outcome (fun a _ => Q a) (fun e _ => E e) (m r s)

namespace Ends

variable {Q Q' : α → Prop} {R : β → Prop} {E : ε → Prop}

theorem ok {m : Prog ρ σ ε α} (h : Ends Q E m) {r : ρ} {s s' : σ} {a : α} (hm : m r s = (.ok a, s')) : Q a := by
  have := h r s
  rwa [hm] at this

theorem error {m : Prog ρ σ ε α} (h : Ends Q E m) {r : ρ} {s s' : σ} {e : ε} (hm : m r s = (.error e, s')) : E e := by
  have := h r s
  rwa [hm] at this

theorem pure {a : α} (h : Q a) : Ends Q E (Pure.pure a : Prog ρ σ ε α) := fun _ _ => h

theorem raise {e : ε} (h : E e) : Ends Q E (Prog.raise e : Prog ρ σ ε α) := fun _ _ => h

theorem get : Ends (fun _ => True) E (Prog.get : Prog ρ σ ε σ) := fun _ _ => trivial

theorem ask : Ends (fun _ => True) E (Prog.ask : Prog ρ σ ε ρ) := fun _ _ => trivial

theorem modify {f : σ → σ} : Ends (fun _ => True) E (Prog.modify f : Prog ρ σ ε Unit) := fun _ _ => trivial

theorem bind {m : Prog ρ σ ε α} {f : α → Prog ρ σ ε β} (hm : Ends Q E m) (hf : ∀ a, Q a → Ends R E (f a)) :
    Ends R E (m >>= f) := by
  intro r s
  have h := hm r s
  rw [bind_run]
  revert h
  cases m r s with
  | mk out s' =>
    cases out with
    | ok a => exact fun h => hf a h r s'
    | error e => exact id

theorem each {f : α → Prog ρ σ ε Unit} {xs : List α} (h : ∀ x ∈ xs, Ends (fun _ => True) E (f x)) :
    Ends (fun _ => True) E (Prog.each f xs) := by
  induction xs with
  | nil => exact pure trivial
  | cons x xs ih => exact (h x (by simp)).bind fun _ _ => ih fun y hy => h y (by simp [hy])

theorem ite {c : Prop} [Decidable c] {m m' : Prog ρ σ ε α} (h : c → Ends Q E m) (h' : ¬c → Ends Q E m') :
    Ends Q E (if c then m else m') := by
  split
  · exact h ‹_›
  · exact h' ‹_›

end Ends

/-! ## What every run of a program respects -/

/-- Every run of `m` leads from a state to a related one, whether it returns or raises. -/
def Respects (R : σ → σ → Prop) (m : Prog ρ σ ε α) : Prop := ∀ r s, R s (m r s).2

namespace Respects

variable {R : σ → σ → Prop}

theorem modify {f : σ → σ} (h : ∀ s, R s (f s)) : Respects R (Prog.modify f : Prog ρ σ ε Unit) := fun _ s => h s

theorem attempt {m : Prog ρ σ ε α} (hm : Respects R m) : Respects R (Prog.attempt m : Prog ρ σ ε' (Except ε α)) :=
  fun r s => hm r s

theorem ite {c : Prop} [Decidable c] {m m' : Prog ρ σ ε α} (h : c → Respects R m) (h' : ¬c → Respects R m') :
    Respects R (if c then m else m') := by
  split
  · exact h ‹_›
  · exact h' ‹_›

variable [IsPreorder σ R]

theorem pure {a : α} : Respects R (Pure.pure a : Prog ρ σ ε α) := fun _ s => refl_of R s

theorem raise {e : ε} : Respects R (Prog.raise e : Prog ρ σ ε α) := fun _ s => refl_of R s

theorem get : Respects R (Prog.get : Prog ρ σ ε σ) := fun _ s => refl_of R s

theorem ask : Respects R (Prog.ask : Prog ρ σ ε ρ) := fun _ s => refl_of R s

theorem bind {m : Prog ρ σ ε α} {f : α → Prog ρ σ ε β} (hm : Respects R m) (hf : ∀ a, Respects R (f a)) :
    Respects R (m >>= f) := by
  intro r s
  have h := hm r s
  rw [bind_run]
  revert h
  cases m r s with
  | mk out s' =>
    cases out with
    | ok a => exact fun h => trans_of R h (hf a r s')
    | error e => exact id

/-- What follows a program may rely on what it returns. -/
theorem bind_ends {m : Prog ρ σ ε α} {f : α → Prog ρ σ ε β} {Q : α → Prop} {E : ε → Prop} (hm : Respects R m) (hends : Ends Q E m)
    (hf : ∀ a, Q a → Respects R (f a)) : Respects R (m >>= f) := by
  intro r s
  have h := hm r s
  have hQ := hends r s
  rw [bind_run]
  revert h hQ
  cases m r s with
  | mk out s' =>
    cases out with
    | ok a => exact fun h hQ => trans_of R h (hf a hQ r s')
    | error e => exact fun h _ => h

theorem each {f : α → Prog ρ σ ε Unit} {xs : List α} (h : ∀ x ∈ xs, Respects R (f x)) : Respects R (Prog.each f xs) := by
  induction xs with
  | nil => exact pure
  | cons x xs ih => exact (h x (by simp)).bind fun _ => ih fun y hy => h y (by simp [hy])

theorem fold {f : β → α → Prog ρ σ ε β} {b : β} {xs : List α} (h : ∀ b, ∀ x ∈ xs, Respects R (f b x)) :
    Respects R (Prog.fold f b xs) := by
  induction xs generalizing b with
  | nil => exact pure
  | cons x xs ih => exact (h b x (by simp)).bind fun b' => ih fun b y hy => h b y (by simp [hy])

end Respects

/-! ## Invariants -/

/-- Under the context `r` the program keeps `I`, also when it raises, and what it returns satisfies `Q`. -/
def Keeps (r : ρ) (I : σ → Prop) (m : Prog ρ σ ε α) (Q : α → Prop) : Prop := Triple r I m (fun a s => I s ∧ Q a) fun _ => I

namespace Keeps

variable {r : ρ} {I : σ → Prop} {Q Q' : α → Prop} {R : β → Prop}

theorem pure {a : α} (h : Q a) : Keeps r I (Pure.pure a : Prog ρ σ ε α) Q := Triple.pure fun _ hs => ⟨hs, h⟩

theorem raise {e : ε} : Keeps r I (Prog.raise e : Prog ρ σ ε α) Q := Triple.raise fun _ hs => hs

theorem modify {f : σ → σ} (h : ∀ s, I s → I (f s)) : Keeps r I (Prog.modify f : Prog ρ σ ε Unit) fun _ => True :=
  Triple.modify fun s hs => ⟨h s hs, trivial⟩

theorem get : Keeps r I (Prog.get : Prog ρ σ ε σ) I := Triple.get fun _ hs => ⟨hs, hs⟩

theorem ask : Keeps r I (Prog.ask : Prog ρ σ ε ρ) (· = r) := Triple.ask fun _ hs => ⟨hs, rfl⟩

theorem bind {m : Prog ρ σ ε α} {f : α → Prog ρ σ ε β} (hm : Keeps r I m Q) (hf : ∀ a, Q a → Keeps r I (f a) R) :
    Keeps r I (m >>= f) R := Triple.bind hm fun a s hs => hf a hs.2 s hs.1

theorem weaken {m : Prog ρ σ ε α} (hm : Keeps r I m Q) (h : ∀ a, Q a → Q' a) : Keeps r I m Q' :=
  Triple.weaken hm fun a _ hs => ⟨hs.1, h a hs.2⟩

theorem ite {c : Prop} [Decidable c] {m m' : Prog ρ σ ε α} (h : c → Keeps r I m Q) (h' : ¬c → Keeps r I m' Q) :
    Keeps r I (if c then m else m') Q := Triple.ite h h'

theorem each {f : α → Prog ρ σ ε Unit} {xs : List α} (h : ∀ x ∈ xs, Keeps r I (f x) fun _ => True) :
    Keeps r I (Prog.each f xs) fun _ => True := by
  induction xs with
  | nil => exact pure trivial
  | cons x xs ih => exact (h x (by simp)).bind fun _ _ => ih fun y hy => h y (by simp [hy])

theorem of_respects {m : Prog ρ σ ε α} (h : Respects (fun s t => I s → I t) m) : Keeps r I m fun _ => True := by
  intro s hs
  have ht := h r s hs
  revert ht
  cases m r s with
  | mk out t =>
    cases out with
    | ok a => exact fun ht => ⟨ht, trivial⟩
    | error e => exact id

end Keeps

/-! ## Programs that always return, or always raise -/

/-- Under the context `r` the program returns, whatever the state. -/
def Completes (r : ρ) (m : Prog ρ σ ε α) : Prop := ∀ s, ∃ a s', m r s = (.ok a, s')

/-- Under the context `r` the program raises `e`, whatever the state. -/
def Throws (r : ρ) (m : Prog ρ σ ε α) (e : ε) : Prop := ∀ s, ∃ s', m r s = (.error e, s')

section Outcomes

variable {r : ρ} {e : ε}

namespace Completes

theorem pure (a : α) : Completes r (Pure.pure a : Prog ρ σ ε α) := fun s => ⟨a, s, rfl⟩

theorem modify (f : σ → σ) : Completes r (Prog.modify f : Prog ρ σ ε Unit) := fun s => ⟨(), f s, rfl⟩

theorem bind {m : Prog ρ σ ε α} {f : α → Prog ρ σ ε β} (hm : Completes r m) (hf : ∀ a, Completes r (f a)) :
    Completes r (m >>= f) := by
  intro s
  obtain ⟨a, s', hrun⟩ := hm s
  obtain ⟨b, s'', hrest⟩ := hf a s'
  exact ⟨b, s'', (bind_ok r s hrun).trans hrest⟩

/-- What follows a program that returns is what raises. -/
theorem bind_throws {m : Prog ρ σ ε α} {f : α → Prog ρ σ ε β} (hm : Completes r m) (hf : ∀ a, Throws r (f a) e) :
    Throws r (m >>= f) e := by
  intro s
  obtain ⟨a, s', hrun⟩ := hm s
  obtain ⟨s'', hrest⟩ := hf a s'
  exact ⟨s'', (bind_ok r s hrun).trans hrest⟩

theorem each {f : α → Prog ρ σ ε Unit} {xs : List α} (h : ∀ x ∈ xs, Completes r (f x)) : Completes r (Prog.each f xs) := by
  induction xs with
  | nil => exact pure ()
  | cons x xs ih =>
    refine (h x List.mem_cons_self).bind ?_
    intro _
    exact ih fun y hy => h y (List.mem_cons_of_mem _ hy)

theorem fold {f : β → α → Prog ρ σ ε β} {b : β} {xs : List α} (h : ∀ x ∈ xs, ∀ b, Completes r (f b x)) :
    Completes r (Prog.fold f b xs) := by
  induction xs generalizing b with
  | nil => exact pure b
  | cons x xs ih =>
    refine (h x List.mem_cons_self b).bind ?_
    intro _
    exact ih fun y hy => h y (List.mem_cons_of_mem _ hy)

end Completes

namespace Throws

theorem raise (e : ε) : Throws r (Prog.raise e : Prog ρ σ ε α) e := fun s => ⟨s, rfl⟩

theorem bind {m : Prog ρ σ ε α} {f : α → Prog ρ σ ε β} (hm : Throws r m e) : Throws r (m >>= f) e := by
  intro s
  obtain ⟨s', hrun⟩ := hm s
  exact ⟨s', bind_error r s hrun⟩

/-- A loop whose steps return or raise `e` raises it if one of them does. -/
theorem fold {f : β → α → Prog ρ σ ε β} {b : β} {xs : List α} (h : ∀ x ∈ xs, (∀ b, Completes r (f b x)) ∨ ∀ b, Throws r (f b x) e)
    (hsome : ∃ x ∈ xs, ∀ b, Throws r (f b x) e) : Throws r (Prog.fold f b xs) e := by
  induction xs generalizing b with
  | nil => exact hsome.elim fun x hx => absurd hx.1 List.not_mem_nil
  | cons x xs ih =>
    rcases h x List.mem_cons_self with hreturns | hthrows
    · obtain ⟨y, hy, hthrows⟩ := hsome
      rcases List.mem_cons.1 hy with rfl | hy
      · exact (hthrows b).bind
      · exact (hreturns b).bind_throws fun _ => ih (fun z hz => h z (List.mem_cons_of_mem _ hz)) ⟨y, hy, hthrows⟩
    · exact (hthrows b).bind

end Throws

end Outcomes

end Prog

end Lib
