import Mathlib.Computability.Language
import Mathlib.Data.List.Infix

/-!
# Wildcard patterns

A pattern is a sequence of tokens: a star, which stands for any word, and a token for one letter out of a set. Its language is
the product of the languages of its tokens, and a matcher decides it. The shortest words of a pattern no set of which is empty
are read off with every star empty, so two such patterns of one language have the same sets in the same order.
-/

namespace Lib.Wildcard

/-- A token over an alphabet. -/
inductive Tok (α : Type) where
  | star
  | one (p : α → Bool)

variable {α : Type}

/-- What a token stands for. -/
def Tok.language : Tok α → Language α
  | .star => {_w | True}
  | .one p => {w | ∃ a, p a = true ∧ w = [a]}

/-- What a pattern stands for. -/
def language (ts : List (Tok α)) : Language α := (ts.map Tok.language).prod

/-- Whether a word as a whole matches a pattern. -/
def globMatch : List (Tok α) → List α → Bool
  | [], w => w.isEmpty
  | .star :: ts, w => w.tails.any (globMatch ts)
  | .one _ :: _, [] => false
  | .one p :: ts, a :: w => p a && globMatch ts w

/-! ## The language, token by token -/

theorem mem_language_nil {w : List α} : w ∈ language [] ↔ w = [] := Language.mem_one w

theorem mem_language_star {ts : List (Tok α)} {w : List α} : w ∈ language (.star :: ts) ↔ ∃ v, v <:+ w ∧ v ∈ language ts := by
  constructor
  · intro h
    obtain ⟨u, -, v, hv, rfl⟩ := Language.mem_mul.1 h
    exact ⟨v, List.suffix_append u v, hv⟩
  · rintro ⟨v, ⟨u, rfl⟩, hv⟩
    exact Language.mem_mul.2 ⟨u, trivial, v, hv, rfl⟩

theorem mem_language_one {p : α → Bool} {ts : List (Tok α)} {w : List α} :
    w ∈ language (.one p :: ts) ↔ ∃ a v, w = a :: v ∧ p a = true ∧ v ∈ language ts := by
  constructor
  · intro h
    obtain ⟨_, ⟨a, ha, rfl⟩, v, hv, rfl⟩ := Language.mem_mul.1 h
    exact ⟨a, v, rfl, ha, hv⟩
  · rintro ⟨a, v, rfl, ha, hv⟩
    exact Language.mem_mul.2 ⟨[a], ⟨a, ha, rfl⟩, v, hv, rfl⟩

/-- The matcher decides the language. -/
theorem globMatch_iff (ts : List (Tok α)) (w : List α) : globMatch ts w = true ↔ w ∈ language ts := by
  induction ts generalizing w with
  | nil => rw [mem_language_nil, globMatch, List.isEmpty_iff]
  | cons t ts ih =>
    cases t with
    | star =>
      simp only [globMatch, List.any_eq_true, List.mem_tails, mem_language_star, ih]
    | one p =>
      rw [mem_language_one]
      cases w with
      | nil => simp [globMatch]
      | cons a w =>
        rw [globMatch, Bool.and_eq_true, ih]
        constructor
        · rintro ⟨ha, hw⟩
          exact ⟨a, w, rfl, ha, hw⟩
        · rintro ⟨a', w', heq, ha, hw⟩
          obtain ⟨rfl, rfl⟩ := List.cons.inj heq
          exact ⟨ha, hw⟩

/-! ## The shortest words -/

/-- The sets of a pattern, in order. -/
def ones : List (Tok α) → List (α → Bool)
  | [] => []
  | .star :: ts => ones ts
  | .one p :: ts => p :: ones ts

@[simp] theorem ones_append (ts us : List (Tok α)) : ones (ts ++ us) = ones ts ++ ones us := by
  induction ts with
  | nil => rfl
  | cons t ts ih =>
    cases t with
    | star => exact ih
    | one p => exact congrArg (p :: ·) ih

/-- No set of the pattern is empty. -/
def Live (ts : List (Tok α)) : Prop := ∀ p ∈ ones ts, ∃ a, p a = true

theorem ones_length_le {ts : List (Tok α)} {w : List α} (h : w ∈ language ts) : (ones ts).length ≤ w.length := by
  induction ts generalizing w with
  | nil => exact Nat.zero_le _
  | cons t ts ih =>
    cases t with
    | star =>
      obtain ⟨v, hvw, hv⟩ := mem_language_star.1 h
      exact (ih hv).trans hvw.length_le
    | one p =>
      obtain ⟨a, v, rfl, -, hv⟩ := mem_language_one.1 h
      exact Nat.succ_le_succ (ih hv)

/-- A word as long as there are sets matches exactly when each letter is in the set at its place. -/
theorem mem_language_shortest {ts : List (Tok α)} {w : List α} (hlen : w.length = (ones ts).length) :
    w ∈ language ts ↔ List.Forall₂ (fun a p => p a = true) w (ones ts) := by
  induction ts generalizing w with
  | nil =>
    rw [mem_language_nil]
    exact List.forall₂_nil_right_iff.symm
  | cons t ts ih =>
    cases t with
    | star =>
      rw [mem_language_star, ones, ← ih hlen]
      constructor
      · rintro ⟨v, hvw, hv⟩
        have hle : w.length ≤ v.length := (show w.length = (ones ts).length from hlen).le.trans (ones_length_le hv)
        exact hvw.eq_of_length_le hle ▸ hv
      · intro hw
        exact ⟨w, List.suffix_refl w, hw⟩
    | one p =>
      cases w with
      | nil => exact absurd hlen (Nat.succ_ne_zero _).symm
      | cons a w =>
        rw [mem_language_one, ones, List.forall₂_cons, ← ih (Nat.succ.inj hlen)]
        constructor
        · rintro ⟨a', w', heq, ha, hw⟩
          obtain ⟨rfl, rfl⟩ := List.cons.inj heq
          exact ⟨ha, hw⟩
        · rintro ⟨ha, hw⟩
          exact ⟨a, w, rfl, ha, hw⟩

/-- Sets that are not empty admit a word. -/
theorem exists_word {ps : List (α → Bool)} (h : ∀ p ∈ ps, ∃ a, p a = true) :
    ∃ w : List α, List.Forall₂ (fun a p => p a = true) w ps := by
  induction ps with
  | nil => exact ⟨[], .nil⟩
  | cons p ps ih =>
    obtain ⟨a, ha⟩ := h p List.mem_cons_self
    obtain ⟨w, hw⟩ := ih fun q hq => h q (List.mem_cons_of_mem _ hq)
    exact ⟨a :: w, .cons ha hw⟩

/-- Sets that are not empty are determined by the words they admit. -/
theorem eq_of_admits {ps qs : List (α → Bool)} (hps : ∀ p ∈ ps, ∃ a, p a = true) (hlen : ps.length = qs.length)
    (h : ∀ w : List α, List.Forall₂ (fun a p => p a = true) w ps ↔ List.Forall₂ (fun a p => p a = true) w qs) : ps = qs := by
  induction ps generalizing qs with
  | nil => exact (List.length_eq_zero_iff.1 hlen.symm).symm
  | cons p ps ih =>
    cases qs with
    | nil => exact absurd hlen (Nat.succ_ne_zero _)
    | cons q qs =>
      obtain ⟨a, ha⟩ := hps p List.mem_cons_self
      obtain ⟨w, hw⟩ := exists_word fun r hr => hps r (List.mem_cons_of_mem _ hr)
      obtain ⟨ha', hw'⟩ := List.forall₂_cons.1 ((h (a :: w)).1 (.cons ha hw))
      have hpq : p = q := by
        funext b
        refine Bool.eq_iff_iff.2 ⟨fun hb => ?_, fun hb => ?_⟩
        · exact (List.forall₂_cons.1 ((h (b :: w)).1 (.cons hb hw))).1
        · exact (List.forall₂_cons.1 ((h (b :: w)).2 (.cons hb hw'))).1
      have hrest : ps = qs := by
        refine ih (fun r hr => hps r (List.mem_cons_of_mem _ hr)) (Nat.succ.inj hlen) fun v => ⟨fun hv => ?_, fun hv => ?_⟩
        · exact (List.forall₂_cons.1 ((h (a :: v)).1 (.cons ha hv))).2
        · exact (List.forall₂_cons.1 ((h (a :: v)).2 (.cons ha' hv))).2
      rw [hpq, hrest]

/-- Two patterns of one language, no set of which is empty, have the same sets in the same order. -/
theorem ones_eq_of_language {ts us : List (Tok α)} (hts : Live ts) (hus : Live us) (h : language ts = language us) :
    ones ts = ones us := by
  have hshort {vs : List (Tok α)} (hvs : Live vs) : ∃ w ∈ language vs, w.length = (ones vs).length := by
    obtain ⟨w, hw⟩ := exists_word hvs
    exact ⟨w, (mem_language_shortest hw.length_eq).2 hw, hw.length_eq⟩
  obtain ⟨w, hw, hwlen⟩ := hshort hts
  obtain ⟨v, hv, hvlen⟩ := hshort hus
  have hlen : (ones ts).length = (ones us).length := by
    have h₁ := ones_length_le (h ▸ hw : w ∈ language us)
    have h₂ := ones_length_le (h.symm ▸ hv : v ∈ language ts)
    omega
  refine eq_of_admits hts hlen ?_
  intro u
  by_cases hu : u.length = (ones ts).length
  · rw [← mem_language_shortest hu, ← mem_language_shortest (hu.trans hlen), h]
  · exact iff_of_false (fun hadm => hu hadm.length_eq) fun hadm => hu (hadm.length_eq.trans hlen.symm)

end Lib.Wildcard
