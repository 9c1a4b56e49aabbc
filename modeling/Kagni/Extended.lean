import Kagni.SortedSet
import Mathlib.Algebra.Order.Ring.Int
import Mathlib.Order.WithBot

/-!
# Exact scores

Floats without rounding: the elements of an ordered ring, two infinities and NaN. Products and sums follow the rules for IEEE
floats: zero times infinity is NaN, so is the sum of the two infinities, and no comparison with NaN holds.
-/

namespace Kagni

open Lib

/-- A finite number, an infinity or NaN. -/
inductive Extended (R : Type) where
  | nan
  | ninf
  | fin (x : R)
  | pinf
  deriving DecidableEq, Repr

/-- How numbers are read and written. -/
class Numerals (R : Type) where
  parse : Text → Option (Extended R)
  repr : Extended R → Text

/-- The integers as floats, with the names of the infinities. -/
instance : Numerals Int where
  parse t :=
    if lower t = bs "inf" then some .pinf
    else if lower t = bs "-inf" then some .ninf
    else if lower t = bs "nan" then some .nan
    else (pyInt t).map .fin
  repr
    | .nan => bs "nan"
    | .ninf => bs "-inf"
    | .fin n => decimal n ++ bs ".0"
    | .pinf => bs "inf"

namespace Extended

variable {R : Type}

/-- The number in the order of all numbers; NaN is none. -/
def number : Extended R → Option (WithBot (WithTop R))
  | nan => none
  | ninf => some ⊥
  | fin x => some ((x : WithTop R) : WithBot (WithTop R))
  | pinf => some ((⊤ : WithTop R) : WithBot (WithTop R))

def lt [LinearOrder R] : Extended R → Extended R → Bool
  | fin x, fin y => decide (x < y)
  | nan, _ => false
  | _, nan => false
  | ninf, b => decide (b ≠ ninf)
  | _, ninf => false
  | a, pinf => decide (a ≠ pinf)
  | pinf, _ => false

variable [CommRing R] [LinearOrder R]

/-- The sign, where NaN has none. -/
def sign : Extended R → Int
  | nan => 0
  | ninf => -1
  | fin x => if x < 0 then -1 else if x = 0 then 0 else 1
  | pinf => 1

/-- An infinity of a sign; without a sign it is NaN. -/
def infinity (sign : Int) : Extended R := if sign = 0 then nan else if sign < 0 then ninf else pinf

def mul : Extended R → Extended R → Extended R
  | fin x, fin y => fin (x * y)
  | a, b => infinity (a.sign * b.sign)

def add : Extended R → Extended R → Extended R
  | fin x, fin y => fin (x + y)
  | nan, _ => nan
  | _, nan => nan
  | fin _, b => b
  | a, fin _ => a
  | a, b => if a = b then a else nan

end Extended

instance (R : Type) [CommRing R] [LinearOrder R] [Numerals R] : PyFloat (Extended R) where
  zero := .fin 0
  one := .fin 1
  add := Extended.add
  mul := Extended.mul
  eq a b := a != .nan && a == b
  lt := Extended.lt
  isNaN a := a == .nan
  isInf a := a == .ninf || a == .pinf
  parse := Numerals.parse
  repr := Numerals.repr

/-! ## The order of numbers -/

namespace Extended

variable {R : Type}

theorem number_injective : Function.Injective (number : Extended R → Option (WithBot (WithTop R))) := by
  intro a b h
  cases a <;> cases b <;> first
    | exact absurd (Option.some.inj h) WithBot.bot_ne_coe
    | exact absurd (Option.some.inj h) WithBot.coe_ne_bot
    | simp_all [number]

theorem number_eq_none_iff {a : Extended R} : a.number = none ↔ a = nan := by cases a <;> simp [number]

/-- Comparisons are those of numbers, and none holds with NaN. -/
theorem lt_eq_true_iff [LinearOrder R] {a b : Extended R} :
    lt a b = true ↔ ∃ x y, a.number = some x ∧ b.number = some y ∧ x < y := by
  have htop : ∀ x : R, ((x : WithTop R) : WithBot (WithTop R)) < ((⊤ : WithTop R) : WithBot (WithTop R)) := fun x =>
    WithBot.coe_lt_coe.2 (WithTop.coe_lt_top x)
  cases a <;> cases b <;> simp [lt, number]
  exact htop _

/-- What is no NaN is a number. -/
theorem exists_number {a : Extended R} (h : a ≠ nan) : ∃ x, a.number = some x :=
  Option.ne_none_iff_exists'.1 fun hc => h (number_eq_none_iff.1 hc)

end Extended

section Floats

variable {R : Type} [CommRing R] [LinearOrder R] [Numerals R]

theorem Extended.isNaN_iff {a : Extended R} : PyFloat.isNaN a = true ↔ a = .nan := beq_iff_eq

theorem Extended.ne_nan {a : Extended R} (h : PyFloat.isNaN a = false) : a ≠ .nan := fun hc => by
  rw [isNaN_iff.2 hc] at h
  cases h

instance : PyFloat.Ordered (Extended R) where
  Key := WithBot (WithTop R)
  order := inferInstance
  key a := a.number.getD ⊥
  lt_iff {a b} ha hb := by
    obtain ⟨x, hx⟩ := Extended.exists_number (Extended.ne_nan ha)
    obtain ⟨y, hy⟩ := Extended.exists_number (Extended.ne_nan hb)
    rw [hx, hy]
    exact Extended.lt_eq_true_iff.trans (by simp [hx, hy])
  eq_iff {a b} ha hb := by
    obtain ⟨x, hx⟩ := Extended.exists_number (Extended.ne_nan ha)
    obtain ⟨y, hy⟩ := Extended.exists_number (Extended.ne_nan hb)
    have heq : PyFloat.eq a b = true ↔ a = b := by
      change (a != .nan && a == b) = true ↔ a = b
      simp [Extended.ne_nan ha]
    rw [heq, ← Extended.number_injective.eq_iff, hx, hy]
    simp

end Floats

end Kagni
