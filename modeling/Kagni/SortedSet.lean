import Kagni.Lib.Ascending
import Kagni.ZSet
import Mathlib.Data.List.Lex
import Mathlib.Data.Prod.Lex

/-!
# What a sorted set is

Scores are totally ordered once NaN is left out, and the comparisons of floats are those of their keys in that order: `-0.0`
and `0.0` have one key. A sorted set is in order when its list is strictly increasing in (score, member) and holds the pairs
of its dictionary and no others.
-/

namespace Kagni

open Lib

/-- Floats that are not NaN compare like their keys in a total order. -/
class PyFloat.Ordered (F : Type) [PyFloat F] where
  Key : Type
  order : LinearOrder Key
  key : F → Key
  lt_iff {a b : F} (ha : PyFloat.isNaN a = false) (hb : PyFloat.isNaN b = false) : PyFloat.lt a b = true ↔ key a < key b
  eq_iff {a b : F} (ha : PyFloat.isNaN a = false) (hb : PyFloat.isNaN b = false) : PyFloat.eq a b = true ↔ key a = key b

instance (F : Type) [PyFloat F] [PyFloat.Ordered F] : LinearOrder (PyFloat.Ordered.Key F) := PyFloat.Ordered.order

instance : PyFloat.Ordered Int where
  Key := Int
  order := inferInstance
  key := id
  lt_iff _ _ := decide_eq_true_iff
  eq_iff _ _ := decide_eq_true_iff

/-- What orders members: the numbers of their bytes. -/
def Value.text : Value → List Nat
  | .bytes b => b.map UInt8.toNat
  | _ => []

/-- The score of a member, where no container has no score. -/
def scoreIn {F : Type} (o : Option (ZSet F)) (member : Bytes) : Option F := o.bind fun z => z.score (.bytes member)

/-! ## Windows -/

/-- A lexicographic window: `none` is unbounded. -/
def lexWindow (min : Option Bytes) (min_open : Bool) (max : Option Bytes) (max_open : Bool) (member : Bytes) : Bool :=
  (match min with
    | none => true
    | some m => bytesLt m member || (!min_open && decide (member = m))) &&
  match max with
    | none => true
    | some m => bytesLt member m || (!max_open && decide (member = m))

/-- A window of scores. -/
def scoreWindow {F : Type} [PyFloat F] (lo : F) (lo_open : Bool) (hi : F) (hi_open : Bool) (score : F) : Bool :=
  (if lo_open then PyFloat.lt lo score else PyFloat.le lo score) && if hi_open then PyFloat.lt score hi else PyFloat.le score hi

namespace ZSet

variable {F : Type} [PyFloat F]

/-- The list is strictly increasing in (score, member), its members are byte strings and no score is NaN, and it holds the
pairs of the dictionary and no others. -/
structure Valid (z : ZSet F) : Prop where
  bytes : ∀ p ∈ z.pairs, p.2.IsBytes
  number : ∀ p ∈ z.pairs, PyFloat.isNaN p.1 = false
  ordered : z.pairs.Pairwise fun p q => pairLt? p q = some true
  scores : ∀ member score, z.score member = some score ↔ (score, member) ∈ z.pairs

/-- The changes of a sorted set. -/
inductive Op (F : Type) where
  | add (member : Bytes) (score : F)
  | remove (member : Bytes)
  | remove_rank (start stop : Int)
  | remove_score (lo : F) (lo_open : Bool) (hi : F) (hi_open : Bool)
  | remove_member (min : Option Bytes) (min_open : Bool) (max : Option Bytes) (max_open : Bool)
  | copy

/-- Whether the operation returned, and the set it leaves. -/
def Op.run (z : ZSet F) : Op F → Bool × ZSet F
  | .add member score => ((z.add (.bytes member) score).1.isSome, (z.add (.bytes member) score).2)
  | .remove member => ((z.remove (.bytes member)).1.isSome, (z.remove (.bytes member)).2)
  | .remove_rank start stop => ((z.remove_rank start stop).1.isSome, (z.remove_rank start stop).2)
  | .remove_score lo lo_open hi hi_open =>
    ((z.remove_score lo lo_open hi hi_open).1.isSome, (z.remove_score lo lo_open hi hi_open).2)
  | .remove_member min min_open max max_open =>
    ((z.remove_member min min_open max max_open).1.isSome, (z.remove_member min min_open max max_open).2)
  | .copy => (true, z.copy)

/-- No score that is added is NaN. -/
def Op.Number : Op F → Prop
  | .add _ score => PyFloat.isNaN score = false
  | _ => True

/-- The sets that operations make of an empty one. -/
inductive Made : ZSet F → Prop
  | empty : Made .empty
  | step {z : ZSet F} (hz : Made z) {op : Op F} (hop : op.Number) : Made (op.run z).2

end ZSet

end Kagni
