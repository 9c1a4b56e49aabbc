import Kagni.Lib.Dict
import Kagni.Value

/-!
# Sorted sets

`zset.ZSet`: a dictionary from members to scores, and the list of (score, member) pairs kept in order with `bisect`. Nothing
in the class stops a client from adding an integer or null as a member, and then a comparison inside `bisect` may raise; so
every operation that compares members returns `none` for the exception next to the container it leaves behind.

Scores are Python floats. Of these the program uses the operations of `PyFloat` and nothing else.
-/

namespace Kagni

open Lib

/-- Python's `float`: the arithmetic and comparisons the program uses, `float(text)` (`none` is `ValueError`) and `repr`. -/
class PyFloat (F : Type) where
  zero : F
  one : F
  add : F → F → F
  mul : F → F → F
  eq : F → F → Bool
  lt : F → F → Bool
  isNaN : F → Bool
  isInf : F → Bool
  parse : Text → Option F
  repr : F → Text

/-- The floats that are integers, to run the program on: no run below needs another one. -/
instance : PyFloat Int where
  zero := 0
  one := 1
  add := (· + ·)
  mul := (· * ·)
  eq a b := decide (a = b)
  lt a b := decide (a < b)
  isNaN _ := false
  isInf _ := false
  parse := pyInt
  repr n := decimal n ++ bs ".0"

/-- `a <= b` on floats. -/
def PyFloat.le {F : Type} [PyFloat F] (a b : F) : Bool := lt a b || eq a b

namespace Value

/-- Whether `hash(v)` is defined: a list has no hash, so it can be no key, no field and no member. -/
def hashable : Value → Bool
  | .array _ => false
  | _ => true

/-- `a < b` on hashable values; `none` is `TypeError`. -/
def lt? : Value → Value → Option Bool
  | .bytes a, .bytes b => some (bytesLt a b)
  | .int a, .int b => some (decide (a < b))
  | _, _ => none

end Value

/-- The loop of `bisect`: `goRight y` says whether the search goes on to the right of `y`, and may raise. The window shrinks
in every round, so the length of the list bounds their number. -/
def bisectLoop {α : Type} (a : List α) (goRight : α → Option Bool) : (fuel lo hi : Nat) → Option Nat
  | 0, lo, _ => some lo
  | fuel + 1, lo, hi =>
    if lo < hi then
      match a[(lo + hi) / 2]? with
      | none => some lo
      | some y =>
        match goRight y with
        | none => none
        | some true => bisectLoop a goRight fuel ((lo + hi) / 2 + 1) hi
        | some false => bisectLoop a goRight fuel lo ((lo + hi) / 2)
    else some lo

/-- `bisect_left` and `bisect_right`, by the direction taken at an element. -/
def bisect {α : Type} (a : List α) (goRight : α → Option Bool) : Option Nat := bisectLoop a goRight a.length 0 a.length

/-- `ZSet`. -/
structure ZSet (F : Type) where
  scores : Dict Value F
  sorted : List (F × Value)

namespace ZSet

variable {F : Type}

/-- `ZSet()`. -/
def empty : ZSet F := ⟨∅, []⟩

/-- `len(zset)`. -/
def size (z : ZSet F) : Nat := z.sorted.length

/-- `score` of a hashable member. -/
def score (z : ZSet F) (member : Value) : Option F := z.scores.get member

/-- `members`. -/
def members (z : ZSet F) : List Value := z.sorted.map Prod.snd

/-- `pairs`. -/
def pairs (z : ZSet F) : List (F × Value) := z.sorted

/-- `copy`. -/
def copy (z : ZSet F) : ZSet F := ⟨z.scores, z.sorted⟩

/-- `[start, end]` after the negative ends have the length added and the start is raised to 0: `none` is the empty range,
otherwise the first index and the one after the last. -/
def rankWindow (length : Nat) (start stop : Int) : Option (Nat × Nat) :=
  let start := if start < 0 then start + length else start
  let stop := if stop < 0 then stop + length else stop
  let start := if start < 0 then 0 else start
  if start > stop ∨ start ≥ length then none
  else some (start.toNat, ((if stop ≥ length then (length : Int) - 1 else stop) + 1).toNat)

/-- `del self._scores[member]` for one member after the other; `none` is the `KeyError`. -/
def delScores : List Value → Dict Value F → Option Unit × Dict Value F
  | [], scores => (some (), scores)
  | member :: rest, scores => if scores.contains member then delScores rest (scores.erase member) else (none, scores)

/-- `remove_rank`. -/
def remove_rank (z : ZSet F) (start stop : Int) : Option Nat × ZSet F :=
  match rankWindow z.sorted.length start stop with
  | none => (some 0, z)
  | some (i, j) =>
    match delScores (((z.sorted.take j).drop i).map Prod.snd) z.scores with
    | (none, scores) => (none, ⟨scores, z.sorted⟩)
    | (some (), scores) => (some (j - i), ⟨scores, z.sorted.take i ++ z.sorted.drop j⟩)

/-- Whether a member lies outside a lexicographic window; `none` is a `TypeError` of a comparison. -/
def outside (min max : Option Bytes) (min_open max_open : Bool) (member : Value) : Option Bool :=
  let below : Option Bool := match min with
    | none => some false
    | some m => (member.lt? (.bytes m)).map (· || (min_open && decide (member = .bytes m)))
  match below with
  | none => none
  | some true => some true
  | some false => match max with
    | none => some false
    | some m => ((Value.bytes m).lt? member).map (· || (max_open && decide (member = .bytes m)))

/-- `member_pairs`. -/
def member_pairs (z : ZSet F) (min : Option Bytes) (min_open : Bool) (max : Option Bytes) (max_open : Bool) :
    Option (List (F × Value)) :=
  z.sorted.foldr (fun p out => match outside min max min_open max_open p.2, out with
    | some true, some out => some out
    | some false, some out => some (p :: out)
    | _, _ => none) (some [])

/-- The loop of `remove_member`: the pairs kept so far, the number removed, and the scores. -/
def removeMemberLoop (min : Option Bytes) (min_open : Bool) (max : Option Bytes) (max_open : Bool) :
    List (F × Value) → (kept : List (F × Value)) → (removed : Nat) → Dict Value F →
      Option (List (F × Value) × Nat) × Dict Value F
  | [], kept, removed, scores => (some (kept, removed), scores)
  | p :: rest, kept, removed, scores =>
    match outside min max min_open max_open p.2 with
    | none => (none, scores)
    | some true => removeMemberLoop min min_open max max_open rest (kept ++ [p]) removed scores
    | some false =>
      if scores.contains p.2 then
        removeMemberLoop min min_open max max_open rest kept (removed + 1) (scores.erase p.2)
      else (none, scores)

/-- `remove_member`. -/
def remove_member (z : ZSet F) (min : Option Bytes) (min_open : Bool) (max : Option Bytes) (max_open : Bool) :
    Option Nat × ZSet F :=
  match removeMemberLoop min min_open max max_open z.sorted [] 0 z.scores with
  | (none, scores) => (none, ⟨scores, z.sorted⟩)
  | (some (kept, removed), scores) => (some removed, ⟨scores, kept⟩)

variable [PyFloat F]

/-- `a < b` on (score, member) tuples. -/
def pairLt? (a b : F × Value) : Option Bool :=
  if PyFloat.eq a.1 b.1 then (if a.2 = b.2 then some false else a.2.lt? b.2) else some (PyFloat.lt a.1 b.1)

/-- `bisect.bisect_left(self._sorted, pair)`. -/
def bisect_left (z : ZSet F) (pair : F × Value) : Option Nat := bisect z.sorted fun y => pairLt? y pair

/-- `rank`; the outer `none` is an exception. -/
def rank (z : ZSet F) (member : Value) : Option (Option Nat) :=
  if member.hashable then
    match z.score member with
    | none => some none
    | some score => (z.bisect_left (score, member)).map some
  else none

/-- `bisect.insort(self._sorted, (score, member))`, then `self._scores[member] = score`. -/
def insort (z : ZSet F) (member : Value) (score : F) : Option Bool × ZSet F :=
  match bisect z.sorted fun y => (pairLt? (score, member) y).map (!·) with
  | none => (none, z)
  | some i => (some true, ⟨z.scores.set member score, z.sorted.insertIdx i (score, member)⟩)

/-- `del self._sorted[i]` at the place `bisect_left` finds; `none` when a comparison raises or there is nothing at `i`. -/
def delSorted (z : ZSet F) (pair : F × Value) : Option (ZSet F) :=
  match z.bisect_left pair with
  | none => none
  | some i => if i < z.sorted.length then some { z with sorted := z.sorted.eraseIdx i } else none

/-- `add`: whether the score changed. -/
def add (z : ZSet F) (member : Value) (score : F) : Option Bool × ZSet F :=
  if member.hashable then
    match z.score member with
    | none => z.insort member score
    | some current =>
      if PyFloat.eq current score then (some false, z)
      else match z.delSorted (current, member) with
        | none => (none, z)
        | some z' => z'.insort member score
  else (none, z)

/-- `remove`: whether the member was there. -/
def remove (z : ZSet F) (member : Value) : Option Bool × ZSet F :=
  if member.hashable then
    match z.score member with
    | none => (some false, z)
    | some score =>
      let z' : ZSet F := { z with scores := z.scores.erase member }
      match z'.delSorted (score, member) with
      | none => (none, z')
      | some z'' => (some true, z'')
  else (none, z)

/-- `_score_bounds`. Scores compare without exceptions, so the searches always return. -/
def _score_bounds (z : ZSet F) (lo : F) (lo_open : Bool) (hi : F) (hi_open : Bool) : Nat × Nat :=
  let left (x : F) := (bisect z.sorted fun y => some (PyFloat.lt y.1 x)).getD 0
  let right (x : F) := (bisect z.sorted fun y => some !(PyFloat.lt x y.1)).getD 0
  (if lo_open then right lo else left lo, if hi_open then left hi else right hi)

/-- `score_pairs`. -/
def score_pairs (z : ZSet F) (lo : F) (lo_open : Bool) (hi : F) (hi_open : Bool) : List (F × Value) :=
  let (i, j) := z._score_bounds lo lo_open hi hi_open
  (z.sorted.take j).drop i

/-- `remove_score`. -/
def remove_score (z : ZSet F) (lo : F) (lo_open : Bool) (hi : F) (hi_open : Bool) : Option Nat × ZSet F :=
  let (i, j) := z._score_bounds lo lo_open hi hi_open
  if i ≥ j then (some 0, z)
  else match delScores (((z.sorted.take j).drop i).map Prod.snd) z.scores with
    | (none, scores) => (none, ⟨scores, z.sorted⟩)
    | (some (), scores) => (some (j - i), ⟨scores, z.sorted.take i ++ z.sorted.drop j⟩)

end ZSet

end Kagni
