import Kagni.Lemmas.ZsetRuns

/-!
# Windows of scores and members

A window of scores is a slice between two searches, a window of members a filter. Both are the pairs inside the bounds, in
rank order, and a removal leaves the others.
-/

namespace Kagni

open Lib PyFloat.Ordered

variable {F : Type} [PyFloat F]

/-! ## Bounds -/

/-- A bound of scores as it is written, the score, and whether it is excluded. -/
inductive ScoreBound : Value → F → Bool → Prop
  | closed {b : Bytes} {x : F} (hmark : b.head? ≠ some 40) (hx : _parse_float b = some x) : ScoreBound (.bytes b) x false
  | opened {b : Bytes} {x : F} (hx : _parse_float b = some x) : ScoreBound (.bytes (40 :: b)) x true

theorem ScoreBound.number {raw : Value} {x : F} {excluded : Bool} (h : ScoreBound raw x excluded) : PyFloat.isNaN x = false := by
  cases h with
  | closed _ hx => exact number_of_parse_float hx
  | opened hx => exact number_of_parse_float hx

theorem score_bound_run {raw : Value} {x : F} {excluded : Bool} (h : ScoreBound raw x excluded) (ctx : Ctx) (k : KState F) :
    _score_bound raw ctx k = (.ok (x, excluded), k) := by
  have hfloat {b : Bytes} (hx : _parse_float b = some x) : floatArg .MIN_MAX_FLOAT (.bytes b) ctx k = (.ok x, k) := by
    unfold floatArg
    rw [Prog.bind_ok ctx k (show asBytes (.bytes b) ctx k = (.ok b, k) from rfl), hx]
    rfl
  unfold _score_bound
  cases h with
  | @closed b _ hmark hx =>
    rw [Prog.bind_ok ctx k (show asBytes (.bytes b) ctx k = (.ok b, k) from rfl)]
    simp only [hmark, decide_false, if_false]
    rw [Prog.bind_ok ctx k (hfloat hx)]
    rfl
  | @opened b _ hx =>
    rw [Prog.bind_ok ctx k (show asBytes (.bytes (40 :: b)) ctx k = (.ok (40 :: b), k) from rfl)]
    simp only [List.head?_cons, decide_true, if_true, List.tail_cons]
    rw [Prog.bind_ok ctx k (hfloat hx)]
    rfl

/-- An end of a lexicographic window. -/
inductive LexEnd where
  | lowest
  | highest
  | closed (member : Bytes)
  | opened (member : Bytes)

namespace LexEnd

/-- How it is written. -/
def raw : LexEnd → Value
  | lowest => .bytes [45]
  | highest => .bytes [43]
  | closed member => .bytes (91 :: member)
  | opened member => .bytes (40 :: member)

/-- The member lies above it, as a minimum. -/
def below : LexEnd → Bytes → Bool
  | lowest, _ => true
  | highest, _ => false
  | closed min, member => bytesLt min member || decide (member = min)
  | opened min, member => bytesLt min member

/-- The member lies below it, as a maximum. -/
def above : LexEnd → Bytes → Bool
  | lowest, _ => false
  | highest, _ => true
  | closed max, member => bytesLt member max || decide (member = max)
  | opened max, member => bytesLt member max

/-- What `_lex_bound` makes of it: the member, whether it is excluded, and whether the window is empty. -/
def parsed (is_min : Bool) : LexEnd → Option Bytes × Bool × Bool
  | lowest => (none, false, !is_min)
  | highest => (none, false, is_min)
  | closed member => (some member, false, false)
  | opened member => (some member, true, false)

end LexEnd

/-- A member lies between the ends. -/
def lexInside (lo hi : LexEnd) : Value → Bool
  | .bytes member => lo.below member && hi.above member
  | _ => false

omit [PyFloat F] in
theorem lex_bound_run (x : LexEnd) (is_min : Bool) (ctx : Ctx) (k : KState F) :
    _lex_bound x.raw is_min ctx k = (.ok (x.parsed is_min), k) := by
  cases x <;> rfl

/-- No member lies in a window with an end on the wrong side. -/
theorem lexInside_dead {lo hi : LexEnd} (h : ((lo.parsed true).2.2 || (hi.parsed false).2.2) = true) (member : Value) :
    lexInside lo hi member = false := by
  cases member with
  | bytes b =>
    cases lo <;> cases hi <;> simp_all [lexInside, LexEnd.parsed, LexEnd.below, LexEnd.above]
  | _ => rfl

/-- Otherwise the parsed ends make the same window. -/
theorem lexInside_bytes {lo hi : LexEnd} (h : ((lo.parsed true).2.2 || (hi.parsed false).2.2) = false) (b : Bytes) :
    lexInside lo hi (.bytes b) = lexWindow (lo.parsed true).1 (lo.parsed true).2.1 (hi.parsed false).1
      (hi.parsed false).2.1 b := by
  cases lo <;> cases hi <;> simp_all [lexInside, lexWindow, LexEnd.parsed, LexEnd.below, LexEnd.above]

/-! ## Reading -/

variable [PyFloat.Ordered F]

namespace ZSet

theorem le_iff {a b : F} (ha : PyFloat.isNaN a = false) (hb : PyFloat.isNaN b = false) :
    PyFloat.le a b = true ↔ key a ≤ key b := by
  rw [PyFloat.le, Bool.or_eq_true, lt_iff ha hb, eq_iff ha hb]
  exact le_iff_lt_or_eq.symm

theorem key_le_of_pairKey_lt {p q : F × Value} (h : pairKey p < pairKey q) : key p.1 ≤ key q.1 := by
  rcases (Prod.Lex.toLex_lt_toLex).1 h with h | ⟨h, -⟩
  · exact h.le
  · exact h.le

/-- A search by score splits the list. -/
theorem Valid.bisect_score {z : ZSet F} (h : z.Valid) {p : F → Bool}
    (hp : ∀ a b, PyFloat.isNaN a = false → PyFloat.isNaN b = false → key a ≤ key b → p b = true → p a = true) :
    Splits (fun y => p y.1) z.sorted ((bisect z.sorted fun y => some (p y.1)).getD 0) := by
  have hmono : z.sorted.Pairwise fun x y => p y.1 = true → p x.1 = true :=
    List.Pairwise.imp_of_mem (fun hx hy hlt => hp _ _ (h.number _ hx) (h.number _ hy) (key_le_of_pairKey_lt hlt)) h.rows.ascending
  have hrun : ∀ y ∈ z.sorted, some (p y.1) = some (p y.1) := fun _ _ => rfl
  obtain ⟨i, hi, hsplit⟩ := bisect_splits hrun hmono
  rw [hi]
  exact hsplit

/-- The indexes of a window of scores split the list below and above it. -/
theorem Valid.score_bounds {z : ZSet F} (h : z.Valid) {lo hi : F} (hlo : PyFloat.isNaN lo = false)
    (hhi : PyFloat.isNaN hi = false)
    (lo_open hi_open : Bool) :
    Splits (fun y => if lo_open then !PyFloat.lt lo y.1 else PyFloat.lt y.1 lo) z.sorted
      (z._score_bounds lo lo_open hi hi_open).1 ∧
      Splits (fun y => if hi_open then PyFloat.lt y.1 hi else !PyFloat.lt hi y.1) z.sorted
        (z._score_bounds lo lo_open hi hi_open).2 := by
  have hleft {x : F} (hx : PyFloat.isNaN x = false) : Splits (fun y => PyFloat.lt y.1 x) z.sorted
      ((bisect z.sorted fun y => some (PyFloat.lt y.1 x)).getD 0) :=
    h.bisect_score (p := (PyFloat.lt · x)) fun a b ha hb hab hlt => (lt_iff ha hx).2 (hab.trans_lt ((lt_iff hb hx).1 hlt))
  have hright {x : F} (hx : PyFloat.isNaN x = false) : Splits (fun y => !PyFloat.lt x y.1) z.sorted
      ((bisect z.sorted fun y => some !PyFloat.lt x y.1).getD 0) :=
    h.bisect_score (p := fun y => !PyFloat.lt x y) fun a b ha hb hab hge => by
      rw [Bool.not_eq_true', ← Bool.not_eq_true, lt_iff hx ha]
      rw [Bool.not_eq_true', ← Bool.not_eq_true, lt_iff hx hb] at hge
      exact fun hlt => hge (hlt.trans_le hab)
  cases lo_open <;> cases hi_open
  · exact ⟨hleft hlo, hright hhi⟩
  · exact ⟨hleft hlo, hleft hhi⟩
  · exact ⟨hright hlo, hright hhi⟩
  · exact ⟨hright hlo, hleft hhi⟩

theorem scoreWindow_eq {lo hi x : F} (hlo : PyFloat.isNaN lo = false) (hhi : PyFloat.isNaN hi = false)
    (hx : PyFloat.isNaN x = false)
    (lo_open hi_open : Bool) :
    (!(if lo_open then !PyFloat.lt lo x else PyFloat.lt x lo) && if hi_open then PyFloat.lt x hi else !PyFloat.lt hi x) =
      scoreWindow lo lo_open hi hi_open x := by
  have hle {a b : F} (ha : PyFloat.isNaN a = false) (hb : PyFloat.isNaN b = false) : (!PyFloat.lt b a) = PyFloat.le a b := by
    rw [Bool.eq_iff_iff, Bool.not_eq_true', ← Bool.not_eq_true, lt_iff hb ha, le_iff ha hb, not_lt]
  unfold scoreWindow
  cases lo_open <;> cases hi_open <;> simp [hle hlo hx, hle hx hhi]

/-- The pairs in a window of scores, in rank order. -/
theorem Valid.score_pairs {z : ZSet F} (h : z.Valid) {lo hi : F} (hlo : PyFloat.isNaN lo = false) (hhi : PyFloat.isNaN hi = false)
    (lo_open hi_open : Bool) :
    z.score_pairs lo lo_open hi hi_open = z.sorted.filter fun p => scoreWindow lo lo_open hi hi_open p.1 := by
  obtain ⟨hleft, hright⟩ := h.score_bounds hlo hhi lo_open hi_open
  refine (hleft.window hright).trans (List.filter_congr fun p hp => ?_)
  exact scoreWindow_eq hlo hhi (h.number p hp) lo_open hi_open

/-- They are removed, and the others stay in order. -/
theorem Valid.remove_score_window {z : ZSet F} (h : z.Valid) {lo hi : F} (hlo : PyFloat.isNaN lo = false)
    (hhi : PyFloat.isNaN hi = false)
    (lo_open hi_open : Bool) :
    ∃ z', z.remove_score lo lo_open hi hi_open =
      (some (z.sorted.filter fun p => scoreWindow lo lo_open hi hi_open p.1).length, z') ∧
      z'.Valid ∧ z'.sorted = z.sorted.filter fun p => !scoreWindow lo lo_open hi hi_open p.1 := by
  obtain ⟨hleft, hright⟩ := h.score_bounds hlo hhi lo_open hi_open
  have hwindow := h.score_pairs hlo hhi lo_open hi_open
  unfold ZSet.score_pairs at hwindow
  unfold ZSet.remove_score
  generalize z._score_bounds lo lo_open hi hi_open = bounds at hleft hright hwindow
  obtain ⟨i, j⟩ := bounds
  dsimp only at hleft hright hwindow ⊢
  split
  · rename_i hji
    have hnone : z.sorted.filter (fun p => scoreWindow lo lo_open hi hi_open p.1) = [] := by
      rw [← hwindow]
      exact List.drop_eq_nil_of_le (by rw [List.length_take]; omega)
    refine ⟨z, by rw [hnone]; rfl, h, (List.filter_eq_self.2 fun p hp => ?_).symm⟩
    rw [List.filter_eq_nil_iff] at hnone
    simpa using hnone p hp
  · rename_i hij
    have hle : i ≤ j := (not_le.1 hij).le
    obtain ⟨scores, heq, hvalid⟩ := h.slice (n := j - i) hle
    refine ⟨_, heq.trans ?_, hvalid, (hleft.outside hright hle).trans (List.filter_congr fun p hp => ?_)⟩
    · rw [← hwindow, List.length_drop, List.length_take, Nat.min_eq_left hright.1]
    · rw [scoreWindow_eq hlo hhi (h.number p hp) lo_open hi_open]

omit [PyFloat.Ordered F] in
/-- The pairs in a window of members, in rank order. -/
theorem Valid.member_pairs {z : ZSet F} (h : z.Valid) {min max : Option Bytes} {min_open max_open : Bool} {inside : Value → Bool}
    (hinside : ∀ b, inside (.bytes b) = lexWindow min min_open max max_open b) :
    z.member_pairs min min_open max max_open = some (z.sorted.filter fun p => inside p.2) := by
  have hout : ∀ p ∈ z.sorted, outside min max min_open max_open p.2 = some !inside p.2 := by
    intro p hp
    obtain ⟨b, hb⟩ := (Value.isBytes_iff _).1 (h.bytes p hp)
    rw [hb, outside_eq, hinside]
  unfold ZSet.member_pairs
  generalize z.sorted = rows at hout
  induction rows with
  | nil => rfl
  | cons p rest ih =>
    rw [List.foldr_cons, ih fun q hq => hout q (List.mem_cons_of_mem _ hq), hout p List.mem_cons_self]
    cases hp : inside p.2 with
    | true => simp [hp]
    | false => simp [hp]

end ZSet

end Kagni
