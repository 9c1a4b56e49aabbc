import Kagni.Commands.Common
import Kagni.Lemmas.ZSet
import Kagni.SortedSet

/-!
# Sorted sets stay in order

The tuples of a sorted set compare like their keys, so binary search splits the list at the key it looks for. From that: what
adding and deleting do to the list, and that every change keeps the list and the dictionary in step.
-/

namespace Kagni

open Lib PyFloat.Ordered

variable {F : Type}

/-! ## The search -/

section Bisect

variable {α : Type} {a : List α} {goRight : α → Option Bool} {p : α → Bool}

/-- All before `lo` is to the left, all from `hi` on is not. -/
theorem bisectLoop_splits (h : ∀ y ∈ a, goRight y = some (p y)) (hmono : a.Pairwise fun x y => p y = true → p x = true)
    {fuel lo hi : Nat} (hle : lo ≤ hi) (hhi : hi ≤ a.length) (hfuel : hi - lo ≤ fuel)
    (hleft : ∀ n x, a[n]? = some x → n < lo → p x = true) (hright : ∀ n x, a[n]? = some x → hi ≤ n → p x = false) :
    ∃ i, bisectLoop a goRight fuel lo hi = some i ∧ Splits p a i := by
  have hsame : ∀ {lo hi : Nat}, lo = hi → hi ≤ a.length → (∀ n x, a[n]? = some x → n < lo → p x = true) →
      (∀ n x, a[n]? = some x → hi ≤ n → p x = false) → Splits p a lo := by
    rintro lo _ rfl hlen hleft hright
    refine ⟨hlen, fun n x hx => ⟨fun hpx => ?_, hleft n x hx⟩⟩
    by_contra hn
    rw [hright n x hx (Nat.le_of_not_lt hn)] at hpx
    cases hpx
  induction fuel generalizing lo hi with
  | zero => exact ⟨lo, rfl, hsame (by omega) hhi hleft hright⟩
  | succ fuel ih =>
    unfold bisectLoop
    split
    · rename_i hlt
      obtain ⟨y, hy⟩ : ∃ y, a[(lo + hi) / 2]? = some y := ⟨_, List.getElem?_eq_getElem (by omega)⟩
      have hmem := List.mem_of_getElem? hy
      obtain ⟨hmid, hget⟩ := List.getElem?_eq_some_iff.1 hy
      simp only [hy, h y hmem]
      cases hpy : p y with
      | true =>
        refine ih (by omega) hhi (by omega) (fun n x hx hn => ?_) hright
        obtain ⟨hn', rfl⟩ := List.getElem?_eq_some_iff.1 hx
        rcases Nat.lt_or_eq_of_le (Nat.le_of_lt_succ hn) with hn | rfl
        · exact List.pairwise_iff_getElem.1 hmono n _ hn' hmid hn (hget ▸ hpy)
        · rw [hget, hpy]
      | false =>
        refine ih (by omega) (by omega) (by omega) hleft fun n x hx hn => ?_
        obtain ⟨hn', rfl⟩ := List.getElem?_eq_some_iff.1 hx
        rcases Nat.lt_or_eq_of_le hn with hn | hn
        · by_contra hpx
          rw [Bool.not_eq_false] at hpx
          rw [← hget, List.pairwise_iff_getElem.1 hmono _ n hmid hn' hn hpx] at hpy
          cases hpy
        · subst hn
          rw [hget, hpy]
    · exact ⟨lo, rfl, hsame (by omega) hhi hleft hright⟩

/-- The search finds where a predicate splits the list. -/
theorem bisect_splits (h : ∀ y ∈ a, goRight y = some (p y)) (hmono : a.Pairwise fun x y => p y = true → p x = true) :
    ∃ i, bisect a goRight = some i ∧ Splits p a i :=
  bisectLoop_splits h hmono (Nat.zero_le _) le_rfl le_rfl (fun _ _ _ hn => absurd hn (Nat.not_lt_zero _)) fun _ _ hx hn =>
    absurd (List.getElem?_eq_some_iff.1 hx).1 (Nat.not_lt.2 hn)

end Bisect

/-! ## Tuples -/

theorem bytesLt_iff (a b : Bytes) : bytesLt a b = true ↔ a.map UInt8.toNat < b.map UInt8.toNat := by
  induction a generalizing b with
  | nil =>
    cases b with
    | nil => simp [bytesLt]
    | cons d b => simp [bytesLt]
  | cons c a ih =>
    cases b with
    | nil => simp [bytesLt]
    | cons d b =>
      rw [bytesLt, List.map_cons, List.map_cons, List.cons_lt_cons_iff, Bool.or_eq_true, Bool.and_eq_true, decide_eq_true_iff,
        decide_eq_true_iff, ih, UInt8.lt_iff_toNat_lt, UInt8.toNat_inj]

theorem Value.text_injective {v w : Value} (hv : v.IsBytes) (hw : w.IsBytes) (h : v.text = w.text) : v = w := by
  obtain ⟨a, rfl⟩ := (Value.isBytes_iff v).1 hv
  obtain ⟨b, rfl⟩ := (Value.isBytes_iff w).1 hw
  exact congrArg Value.bytes (List.map_injective_iff.2 (fun _ _ => UInt8.toNat_inj.1) h)

variable [PyFloat F] [PyFloat.Ordered F]

/-- What orders the pairs of a sorted set. -/
def pairKey (p : F × Value) : Key F ×ₗ List Nat := toLex (key p.1, p.2.text)

/-- A pair of a score that is not NaN and a member that is a byte string. -/
def Sound (p : F × Value) : Prop := p.2.IsBytes ∧ PyFloat.isNaN p.1 = false

theorem pairKey_inj {p q : F × Value} (hp : Sound p) (hq : Sound q) : pairKey p = pairKey q ↔ key p.1 = key q.1 ∧ p.2 = q.2 := by
  have hpair : pairKey p = pairKey q ↔ key p.1 = key q.1 ∧ p.2.text = q.2.text := toLex_inj.trans Prod.mk_inj
  rw [hpair]
  exact and_congr_right fun _ => ⟨Value.text_injective hp.1 hq.1, congrArg _⟩

/-- Tuples of scores and members compare like their keys, and the comparison does not raise. -/
theorem pairLt?_eq {p q : F × Value} (hp : Sound p) (hq : Sound q) :
    ZSet.pairLt? p q = some (decide (pairKey p < pairKey q)) := by
  have hlt : pairKey p < pairKey q ↔ key p.1 < key q.1 ∨ key p.1 = key q.1 ∧ p.2.text < q.2.text := Prod.Lex.toLex_lt_toLex
  unfold ZSet.pairLt?
  split
  · rename_i heq
    have hkey := (eq_iff hp.2 hq.2).1 heq
    split
    · rename_i hmember
      rw [decide_eq_false (by rw [hlt, hkey, hmember]; simp)]
    · obtain ⟨a, ha⟩ := (Value.isBytes_iff _).1 hp.1
      obtain ⟨b, hb⟩ := (Value.isBytes_iff _).1 hq.1
      rw [ha, hb] at hlt
      rw [ha, hb, Value.lt?]
      refine congrArg some (Bool.eq_iff_iff.2 ?_)
      rw [bytesLt_iff, decide_eq_true_iff, hlt, hkey]
      simp [Value.text]
  · rename_i hne
    refine congrArg some (Bool.eq_iff_iff.2 ?_)
    rw [lt_iff hp.2 hq.2, decide_eq_true_iff, hlt]
    refine ⟨Or.inl, fun h => h.resolve_right fun heq => hne ?_⟩
    exact (eq_iff hp.2 hq.2).2 heq.1

/-- A list of sound pairs in order. -/
structure Rows (l : List (F × Value)) : Prop where
  sound : ∀ p ∈ l, Sound p
  ascending : Ascending pairKey l

theorem rows_iff {l : List (F × Value)} : Rows l ↔
    (∀ p ∈ l, Sound p) ∧ l.Pairwise fun p q => ZSet.pairLt? p q = some true := by
  constructor
  · intro h
    refine ⟨h.sound, List.Pairwise.imp_of_mem (fun hp hq hlt => ?_) h.ascending⟩
    rw [pairLt?_eq (h.sound _ hp) (h.sound _ hq), decide_eq_true hlt]
  · rintro ⟨hsound, hordered⟩
    refine ⟨hsound, List.Pairwise.imp_of_mem (fun hp hq hlt => ?_) hordered⟩
    rw [pairLt?_eq (hsound _ hp) (hsound _ hq)] at hlt
    simpa using hlt

theorem Rows.sublist {l l' : List (F × Value)} (h : Rows l) (hsub : l'.Sublist l) : Rows l' :=
  ⟨fun p hp => h.sound p (hsub.subset hp), h.ascending.sublist hsub⟩

/-- Where `bisect_left` finds a pair. -/
theorem Rows.bisect_left {z : ZSet F} (h : Rows z.sorted) {pair : F × Value} (hpair : Sound pair) :
    ∃ i, z.bisect_left pair = some i ∧ Splits (fun y => decide (pairKey y < pairKey pair)) z.sorted i := by
  refine bisect_splits (fun y hy => pairLt?_eq (h.sound y hy) hpair) (h.ascending.imp fun hxy hy => ?_)
  exact decide_eq_true (hxy.trans (of_decide_eq_true hy))

/-! ## Adding and deleting -/

namespace ZSet

theorem valid_iff {z : ZSet F} :
    z.Valid ↔ Rows z.sorted ∧ ∀ member score, z.scores.get member = some score ↔ (score, member) ∈ z.sorted := by
  constructor
  · intro h
    exact ⟨rows_iff.2 ⟨fun p hp => ⟨h.bytes p hp, h.number p hp⟩, h.ordered⟩, h.scores⟩
  · rintro ⟨hrows, hscores⟩
    exact ⟨fun p hp => (hrows.sound p hp).1, fun p hp => (hrows.sound p hp).2, (rows_iff.1 hrows).2, hscores⟩

theorem Valid.rows {z : ZSet F} (h : z.Valid) : Rows z.sorted := (valid_iff.1 h).1

omit [PyFloat.Ordered F] in
/-- A member stands in the list once. -/
theorem Valid.injective {z : ZSet F} (h : z.Valid) {p q : F × Value} (hp : p ∈ z.sorted) (hq : q ∈ z.sorted)
    (hmember : p.2 = q.2) : p = q := by
  obtain ⟨s, m⟩ := p
  obtain ⟨t, n⟩ := q
  obtain rfl : m = n := hmember
  have hs := (h.scores m s).2 hp
  have ht := (h.scores m t).2 hq
  rw [hs] at ht
  rw [Option.some.inj ht]

theorem Valid.nodup_members {z : ZSet F} (h : z.Valid) : z.members.Nodup :=
  List.Nodup.map_on (fun _ hp _ hq => h.injective hp hq) h.rows.ascending.nodup

omit [PyFloat.Ordered F] in
/-- A member has a score when it stands in the list. -/
theorem Valid.mem_members {z : ZSet F} (h : z.Valid) {member : Value} : member ∈ z.members ↔ z.scores.contains member = true := by
  rw [members, List.mem_map, Dict.contains, Option.isSome_iff_exists]
  constructor
  · rintro ⟨⟨s, m⟩, hp, rfl⟩
    exact ⟨s, (h.scores m s).2 hp⟩
  · rintro ⟨s, hs⟩
    exact ⟨(s, member), (h.scores member s).1 hs, rfl⟩

theorem valid_empty : (empty : ZSet F).Valid := valid_iff.2 ⟨⟨nofun, .nil⟩, fun _ _ => ⟨nofun, nofun⟩⟩

/-- Deleting a pair at the index `bisect_left` finds deletes exactly it. -/
theorem delSorted_eq {z : ZSet F} (h : Rows z.sorted) {pair : F × Value} (hpair : pair ∈ z.sorted) :
    ∃ kept, z.delSorted pair = some ⟨z.scores, kept⟩ ∧ kept.Sublist z.sorted ∧ ∀ p, p ∈ kept ↔ p ∈ z.sorted ∧ p ≠ pair := by
  obtain ⟨i, hi, hsplit⟩ := h.bisect_left (h.sound _ hpair)
  have hlt := (List.getElem?_eq_some_iff.1 (h.ascending.getElem?_split hsplit hpair)).1
  refine ⟨z.sorted.eraseIdx i, ?_, List.eraseIdx_sublist .., fun p => h.ascending.mem_eraseIdx hsplit hpair⟩
  simp only [delSorted, hi, if_pos hlt]

/-- A new pair goes where it belongs. -/
theorem insort_eq {z : ZSet F} (h : Rows z.sorted) {member : Value} {score : F} (hpair : Sound (score, member))
    (hnew : ∀ p ∈ z.sorted, p.2 ≠ member) :
    ∃ l, z.insort member score = (some true, ⟨z.scores.set member score, l⟩) ∧ Rows l ∧ ∀ p, p ∈ l ↔ p = (score, member) ∨
      p ∈ z.sorted := by
  have hkey : ∀ y ∈ z.sorted, pairKey y ≠ pairKey (score, member) := fun y hy heq =>
    hnew y hy ((pairKey_inj (h.sound y hy) hpair).1 heq).2
  have hright : ∀ y ∈ z.sorted, (pairLt? (score, member) y).map (!·) = some (decide (pairKey y < pairKey (score, member))) := by
    intro y hy
    have hle : ¬pairKey (score, member) < pairKey y ↔ pairKey y < pairKey (score, member) := not_lt.trans (hkey y hy).le_iff_lt
    rw [pairLt?_eq hpair (h.sound y hy), Option.map_some, ← decide_not]
    simp only [hle]
  obtain ⟨i, hi, hsplit⟩ := bisect_splits hright
    (h.ascending.imp fun hxy hy => decide_eq_true (hxy.trans (of_decide_eq_true hy)))
  have hmem : ∀ p, p ∈ z.sorted.insertIdx i (score, member) ↔ p = (score, member) ∨ p ∈ z.sorted :=
    fun p => List.mem_insertIdx hsplit.1
  refine ⟨z.sorted.insertIdx i (score, member), ?_, ⟨fun p hp => ?_, h.ascending.insertIdx hsplit hkey⟩, hmem⟩
  · unfold insort
    rw [hi]
  · rcases (hmem p).1 hp with rfl | hp
    · exact hpair
    · exact h.sound p hp

/-- Adding a member: an equal score leaves everything as it is, another one replaces the pair of the member. -/
theorem Valid.add {z : ZSet F} (h : z.Valid) (member : Bytes) {score : F} (hscore : PyFloat.isNaN score = false) :
    ∃ b z', z.add (.bytes member) score = (some b, z') ∧ z'.Valid ∧
      (∀ m, m ≠ .bytes member → z'.score m = z.score m) ∧
      ((b = false ∧ z' = z ∧ ∃ current, z.score (.bytes member) = some current ∧ PyFloat.eq current score = true) ∨
        b = true ∧ z'.score (.bytes member) = some score) := by
  have hpair : Sound (score, Value.bytes member) := ⟨trivial, hscore⟩
  obtain ⟨hrows, hscores⟩ := valid_iff.1 h
  have hset : ∀ {kept l : List (F × Value)}, (∀ p, p ∈ kept ↔ p ∈ z.sorted ∧ p.2 ≠ .bytes member) →
      (∀ p, p ∈ l ↔ p = (score, Value.bytes member) ∨ p ∈ kept) → Rows l → Valid ⟨z.scores.set (.bytes member) score, l⟩ := by
    intro kept l hkept hl hrows'
    refine valid_iff.2 ⟨hrows', fun m s => ?_⟩
    rw [Dict.get_set, hl, hkept]
    split
    · rename_i hm
      subst hm
      simp [eq_comm]
    · rename_i hm
      rw [hscores]
      simp [hm]
  have hhash : (Value.bytes member).hashable = true := rfl
  unfold ZSet.add
  rw [if_pos hhash]
  split
  · rename_i hnone
    have hnew : ∀ p ∈ z.sorted, p.2 ≠ .bytes member := by
      rintro ⟨s, m⟩ hp rfl
      rw [(h.scores _ s).2 hp] at hnone
      cases hnone
    obtain ⟨l, heq, hl, hmem⟩ := insort_eq hrows hpair hnew
    refine ⟨true, _, heq, hset (fun p => ⟨fun hp => ⟨hp, hnew p hp⟩, And.left⟩) hmem hl, fun m hm => ?_,
      .inr ⟨rfl, Dict.get_set_self ..⟩⟩
    exact (Dict.get_set ..).trans (if_neg hm)
  · rename_i current hcurrent
    split
    · rename_i heq
      exact ⟨false, z, rfl, h, fun _ _ => rfl, .inl ⟨rfl, rfl, current, hcurrent, heq⟩⟩
    · have hold := (h.scores _ current).1 hcurrent
      obtain ⟨kept, hdel, hsub, hkept⟩ := delSorted_eq hrows hold
      have hkept' : ∀ p, p ∈ kept ↔ p ∈ z.sorted ∧ p.2 ≠ .bytes member := fun p => by
        rw [hkept]
        refine and_congr_right fun hp => not_congr ⟨fun heq => heq ▸ rfl, fun heq => h.injective hp hold heq⟩
      obtain ⟨l, heq, hl, hmem⟩ := insort_eq (z := ⟨z.scores, kept⟩) (hrows.sublist hsub) hpair fun p hp => ((hkept' p).1 hp).2
      rw [hdel]
      refine ⟨true, _, heq, hset hkept' hmem hl, fun m hm => ?_, .inr ⟨rfl, Dict.get_set_self ..⟩⟩
      exact (Dict.get_set ..).trans (if_neg hm)

/-! ## Removing -/

/-- Some of the pairs are cut out of the list, and their members out of the dictionary. -/
theorem Valid.cut {z : ZSet F} (h : z.Valid) (out : List (F × Value)) {kept : List (F × Value)} {scores : Dict Value F}
    (hsub : kept.Sublist z.sorted)
    (hsplit : ∀ p ∈ z.sorted, p ∈ kept ↔ p ∉ out) (hout : ∀ p ∈ out, p ∈ z.sorted)
    (hscores : ∀ m, scores.get m = if m ∈ out.map Prod.snd then none else z.scores.get m) : Valid ⟨scores, kept⟩ := by
  refine valid_iff.2 ⟨h.rows.sublist hsub, fun m s => ?_⟩
  rw [hscores]
  constructor
  · intro hs
    split at hs
    · cases hs
    · rename_i hm
      have hp := (h.scores m s).1 hs
      exact (hsplit _ hp).2 fun hin => hm (List.mem_map.2 ⟨_, hin, rfl⟩)
  · intro hp
    have hmem := hsub.subset hp
    rw [if_neg, (valid_iff.1 h).2]
    · exact hmem
    · intro hm
      obtain ⟨q, hq, hqm⟩ := List.mem_map.1 hm
      have heq := h.injective (hout q hq) hmem hqm
      exact (hsplit _ hmem).1 hp (heq ▸ hq)

omit [PyFloat F] [PyFloat.Ordered F] in
theorem delScores_eq {members : List Value} (scores : Dict Value F) (hnodup : members.Nodup)
    (hin : ∀ m ∈ members, scores.contains m = true) :
    ∃ scores', delScores members scores = (some (), scores') ∧ ∀ m, scores'.get m = if m ∈ members then none
      else scores.get m := by
  induction members generalizing scores with
  | nil => exact ⟨scores, rfl, fun _ => rfl⟩
  | cons member rest ih =>
    obtain ⟨hnew, hrest⟩ := List.nodup_cons.1 hnodup
    have hin' : ∀ m ∈ rest, (scores.erase member).contains m = true := by
      intro m hm
      rw [Dict.contains, Dict.get_erase, if_neg fun e : m = member => hnew (e ▸ hm)]
      exact hin m (List.mem_cons_of_mem _ hm)
    obtain ⟨scores', heq, hget⟩ := ih (scores.erase member) hrest hin'
    refine ⟨scores', ?_, fun m => ?_⟩
    · rw [delScores, if_pos (hin member List.mem_cons_self), heq]
    · rw [hget, Dict.get_erase]
      by_cases hm : m = member
      · simp [hm]
      · simp [hm]

/-- A slice is cut out. -/
theorem Valid.slice {z : ZSet F} (h : z.Valid) {i j n : Nat} (hij : i ≤ j) :
    ∃ scores, (match delScores (((z.sorted.take j).drop i).map Prod.snd) z.scores with
      | (none, scores) => ((none, ⟨scores, z.sorted⟩) : Option Nat × ZSet F)
      | (some (), scores) => (some n, ⟨scores, z.sorted.take i ++ z.sorted.drop j⟩)) =
        (some n, ⟨scores, z.sorted.take i ++ z.sorted.drop j⟩) ∧ Valid ⟨scores, z.sorted.take i ++ z.sorted.drop j⟩ := by
  have hsub : ((z.sorted.take j).drop i).Sublist z.sorted := (List.drop_sublist ..).trans (List.take_sublist ..)
  have hwhole : z.sorted = z.sorted.take i ++ (z.sorted.take j).drop i ++ z.sorted.drop j := by
    conv_lhs => rw [← List.take_append_drop j z.sorted, ← List.take_append_drop i (z.sorted.take j), List.take_take,
      Nat.min_eq_left hij]
  have hmembers : (((z.sorted.take j).drop i).map Prod.snd).Sublist z.members := hsub.map _
  obtain ⟨scores, hdel, hget⟩ := delScores_eq z.scores (hmembers.nodup h.nodup_members) fun m hm =>
    h.mem_members.1 (hmembers.subset hm)
  refine ⟨scores, by rw [hdel], h.cut _ ?_ (fun p hp => ?_) (fun p hp => hsub.subset hp) hget⟩
  · conv_rhs => rw [hwhole]
    exact (List.sublist_append_left ..).append_right _
  · have hnodup := h.rows.ascending.nodup
    rw [hwhole] at hp hnodup
    obtain ⟨hleft, hright, hcross⟩ := List.nodup_append.1 hnodup
    obtain ⟨hfirst, hmiddle, hcross'⟩ := List.nodup_append.1 hleft
    constructor
    · intro hkept hin
      rcases List.mem_append.1 hkept with hk | hk
      · exact hcross' p hk p hin rfl
      · exact hcross p (List.mem_append_right _ hin) p hk rfl
    · intro hout
      rcases List.mem_append.1 hp with hp | hp
      · exact List.mem_append_left _ ((List.mem_append.1 hp).resolve_right hout)
      · exact List.mem_append_right _ hp

theorem Valid.remove {z : ZSet F} (h : z.Valid) (member : Bytes) :
    ∃ z', z.remove (.bytes member) = (some (z.score (.bytes member)).isSome, z') ∧ z'.Valid ∧
      ∀ m, z'.score m = if m = .bytes member then none else z.score m := by
  have hhash : (Value.bytes member).hashable = true := rfl
  unfold ZSet.remove
  rw [if_pos hhash]
  split
  · rename_i hnone
    refine ⟨z, by rw [hnone]; rfl, h, fun m => ?_⟩
    split
    · rename_i hm
      rw [hm, hnone]
    · rfl
  · rename_i score hscore
    have hpair := (h.scores _ score).1 hscore
    obtain ⟨kept, hdel, hsub, hkept⟩ := delSorted_eq (z := ⟨z.scores.erase (.bytes member), z.sorted⟩) h.rows hpair
    dsimp only at hdel ⊢
    rw [hdel, hscore]
    refine ⟨_, rfl, h.cut [(score, .bytes member)] hsub (fun p hp => ?_) (fun p hp => ?_) fun m => ?_, fun m => Dict.get_erase ..⟩
    · rw [hkept, List.mem_singleton]
      exact and_iff_right hp
    · rw [List.mem_singleton.1 hp]
      exact hpair
    · rw [Dict.get_erase]
      simp

/-- What is left is what is not in the slice. -/
theorem Valid.filter_slice {z : ZSet F} (h : z.Valid) {i j : Nat} (hij : i ≤ j) :
    z.sorted.take i ++ z.sorted.drop j = z.sorted.filter fun p => decide (p.2 ∉ ((z.sorted.take j).drop i).map Prod.snd) := by
  have hwhole : z.sorted = z.sorted.take i ++ ((z.sorted.take j).drop i ++ z.sorted.drop j) := by
    conv_lhs => rw [← List.take_append_drop j z.sorted, ← List.take_append_drop i (z.sorted.take j), List.take_take,
      Nat.min_eq_left hij,
      List.append_assoc]
  have hnodup : (z.sorted.map Prod.snd).Nodup := h.nodup_members
  generalize z.sorted.take i = first at hwhole ⊢
  generalize (z.sorted.take j).drop i = middle at hwhole ⊢
  generalize z.sorted.drop j = last at hwhole ⊢
  rw [hwhole, List.map_append, List.map_append] at hnodup
  obtain ⟨-, hrest, hfirst⟩ := List.nodup_append.1 hnodup
  obtain ⟨-, -, hmiddle⟩ := List.nodup_append.1 hrest
  have hkeep : ∀ p ∈ first, decide (p.2 ∉ middle.map Prod.snd) = true := fun p hp =>
    decide_eq_true fun hin => hfirst p.2 (List.mem_map_of_mem hp) p.2 (List.mem_append_left _ hin) rfl
  have hkeep' : ∀ p ∈ last, decide (p.2 ∉ middle.map Prod.snd) = true := fun p hp =>
    decide_eq_true fun hin => hmiddle p.2 hin p.2 (List.mem_map_of_mem hp) rfl
  have hdrop : ∀ p ∈ middle, ¬decide (p.2 ∉ middle.map Prod.snd) = true := fun p hp hkeep =>
    of_decide_eq_true hkeep (List.mem_map_of_mem hp)
  rw [hwhole, List.filter_append, List.filter_append, List.filter_eq_self.2 hkeep, List.filter_eq_nil_iff.2 hdrop,
    List.filter_eq_self.2 hkeep', List.nil_append]

/-- The pairs of a range of ranks are removed, and the others stay in order. -/
theorem Valid.remove_rank {z : ZSet F} (h : z.Valid) (start stop : Int) :
    ∃ z', z.remove_rank start stop = (some (sliceRanks z.sorted start stop).length, z') ∧ z'.Valid ∧
      z'.sorted = z.sorted.filter fun p => decide (p.2 ∉ (sliceRanks z.sorted start stop).map Prod.snd) := by
  unfold ZSet.remove_rank sliceRanks
  cases hwindow : rankWindow z.sorted.length start stop with
  | none => exact ⟨z, rfl, h, (List.filter_eq_self.2 fun p _ => by simp).symm⟩
  | some window =>
    obtain ⟨i, j⟩ := window
    obtain ⟨hlt, hle⟩ := rankWindow_some hwindow
    have hlen : j - i = ((z.sorted.take j).drop i).length := by
      rw [List.length_drop, List.length_take, Nat.min_eq_left hle]
    obtain ⟨scores, heq, hvalid⟩ := h.slice (n := j - i) hlt.le
    refine ⟨_, ?_, hvalid, h.filter_slice hlt.le⟩
    dsimp only
    rw [← hlen]
    exact heq

theorem Valid.remove_score {z : ZSet F} (h : z.Valid) (lo : F) (lo_open : Bool) (hi : F) (hi_open : Bool) :
    ∃ n z', z.remove_score lo lo_open hi hi_open = (some n, z') ∧ z'.Valid := by
  unfold ZSet.remove_score
  dsimp only
  split
  · exact ⟨0, z, rfl, h⟩
  · rename_i hlt
    obtain ⟨scores, heq, hvalid⟩ := h.slice (not_le.1 hlt).le
    exact ⟨_, _, heq, hvalid⟩

/-! ## Lexicographic windows -/

omit [PyFloat F] [PyFloat.Ordered F] in
theorem bytesLt_trichotomy (a b : Bytes) : bytesLt a b = true ∨ a = b ∨ bytesLt b a = true := by
  have hinj : a.map UInt8.toNat = b.map UInt8.toNat ↔ a = b := (List.map_injective_iff.2 fun _ _ => UInt8.toNat_inj.1).eq_iff
  rw [bytesLt_iff, bytesLt_iff, ← hinj]
  exact lt_trichotomy _ _

omit [PyFloat F] [PyFloat.Ordered F] in
theorem bytesLt_asymm {a b : Bytes} (h : bytesLt a b = true) : bytesLt b a = false ∧ a ≠ b := by
  rw [bytesLt_iff] at h
  refine ⟨?_, ?_⟩
  · rw [← Bool.not_eq_true, bytesLt_iff]
    exact lt_asymm h
  · rintro rfl
    exact lt_irrefl _ h

omit [PyFloat F] [PyFloat.Ordered F] in
/-- The loops skip what is outside the window. -/
theorem outside_eq (min max : Option Bytes) (min_open max_open : Bool) (member : Bytes) :
    outside min max min_open max_open (.bytes member) = some !lexWindow min min_open max max_open member := by
  have hside (m : Bytes) (excluded : Bool) :
      (bytesLt member m || (excluded && decide (member = m))) = !(bytesLt m member || (!excluded && decide (member = m))) := by
    rcases bytesLt_trichotomy member m with h | rfl | h
    · simp [h, (bytesLt_asymm h).1, (bytesLt_asymm h).2]
    · have hirrefl : bytesLt member member = false := by
        by_contra h
        exact (bytesLt_asymm (Bool.not_eq_false _ ▸ h)).2 rfl
      simp [hirrefl]
    · simp [h, (bytesLt_asymm h).1, (bytesLt_asymm h).2.symm]
  have hside' (m : Bytes) (excluded : Bool) :
      (bytesLt m member || (excluded && decide (member = m))) = !(bytesLt member m || (!excluded && decide (member = m))) := by
    rw [← Bool.not_not (bytesLt m member || _)]
    refine congrArg _ ?_
    have := hside m (!excluded)
    rw [Bool.not_not] at this
    exact this.symm
  unfold outside lexWindow
  cases min with
  | none =>
    cases max with
    | none => rfl
    | some mx => simp [Value.lt?, hside']
  | some mn =>
    simp only [Value.lt?, Option.map_some, Value.bytes.injEq, hside]
    cases hmin : (bytesLt mn member || (!min_open && decide (member = mn))) with
    | false => rfl
    | true =>
      cases max with
      | none => rfl
      | some mx => simp [hside']

omit [PyFloat F] [PyFloat.Ordered F] in
/-- The loop of `remove_member` sorts the pairs into those it keeps and those whose members it deletes. -/
theorem removeMemberLoop_eq {min max : Option Bytes} {min_open max_open : Bool} {inside : Value → Bool}
    {rows : List (F × Value)} (kept : List (F × Value))
    (removed : Nat) (scores : Dict Value F) (hinside : ∀ p ∈ rows, outside min max min_open max_open p.2 = some !inside p.2)
    (hnodup : (rows.map Prod.snd).Nodup) (hin : ∀ p ∈ rows, scores.contains p.2 = true) :
    ∃ scores', removeMemberLoop min min_open max max_open rows kept removed scores =
        (some (kept ++ rows.filter fun p => !inside p.2, removed + (rows.filter fun p => inside p.2).length), scores') ∧
      ∀ m, scores'.get m = if m ∈ (rows.filter fun p => inside p.2).map Prod.snd then none else scores.get m := by
  induction rows generalizing kept removed scores with
  | nil => exact ⟨scores, by simp [removeMemberLoop], fun _ => rfl⟩
  | cons p rest ih =>
    rw [List.map_cons, List.nodup_cons] at hnodup
    have hrest := fun q hq => hinside q (List.mem_cons_of_mem _ hq)
    rw [removeMemberLoop, hinside p List.mem_cons_self]
    cases hp : inside p.2 with
    | false =>
      obtain ⟨scores', heq, hget⟩ := ih (kept ++ [p]) removed scores hrest hnodup.2 fun q hq =>
        hin q (List.mem_cons_of_mem _ hq)
      refine ⟨scores', by simp [heq, hp], fun m => ?_⟩
      rw [List.filter_cons_of_neg (by simp [hp])]
      exact hget m
    | true =>
      have hin' : ∀ q ∈ rest, (scores.erase p.2).contains q.2 = true := by
        intro q hq
        have hne : q.2 ≠ p.2 := fun e => hnodup.1 (List.mem_map.2 ⟨q, hq, e⟩)
        rw [Dict.contains, Dict.get_erase, if_neg hne]
        exact hin q (List.mem_cons_of_mem _ hq)
      obtain ⟨scores', heq, hget⟩ := ih kept (removed + 1) (scores.erase p.2) hrest hnodup.2 hin'
      refine ⟨scores', ?_, fun m => ?_⟩
      · simp only [Bool.not_true, if_pos (hin p List.mem_cons_self), heq]
        simp [hp, Nat.add_assoc, Nat.add_comm 1]
      · rw [hget, Dict.get_erase, List.filter_cons_of_pos (by simp [hp]), List.map_cons]
        by_cases hm : m = p.2
        · rw [if_pos hm, ite_self, if_pos (hm ▸ List.mem_cons_self)]
        · rw [if_neg hm]
          exact if_congr (by rw [List.mem_cons, or_iff_right hm]) rfl rfl

/-- The pairs whose members lie in the window are removed, and the others stay in order. -/
theorem Valid.remove_member {z : ZSet F} (h : z.Valid) (min : Option Bytes) (min_open : Bool) (max : Option Bytes)
    (max_open : Bool)
    (inside : Value → Bool) (hinside : ∀ b, inside (.bytes b) = lexWindow min min_open max max_open b) :
    ∃ z', z.remove_member min min_open max max_open = (some (z.sorted.filter fun p => inside p.2).length, z') ∧ z'.Valid ∧
      z'.sorted = z.sorted.filter fun p => !inside p.2 := by
  have hout : ∀ p ∈ z.sorted, outside min max min_open max_open p.2 = some !inside p.2 := by
    intro p hp
    obtain ⟨b, hb⟩ := (Value.isBytes_iff _).1 (h.bytes p hp)
    rw [hb, outside_eq, hinside]
  obtain ⟨scores, heq, hget⟩ := removeMemberLoop_eq [] 0 z.scores hout h.nodup_members fun p hp =>
    h.mem_members.1 (List.mem_map.2 ⟨p, hp, rfl⟩)
  refine ⟨⟨scores, z.sorted.filter fun p => !inside p.2⟩, ?_, h.cut _ List.filter_sublist (fun p hp => ?_)
    (fun p hp => ?_) hget, rfl⟩
  · unfold ZSet.remove_member
    rw [heq, List.nil_append, Nat.zero_add]
  · simp [List.mem_filter, hp]
  · exact (List.mem_filter.1 hp).1

/-! ## Changes -/

/-- A change of a sorted set in order does not raise. -/
theorem Valid.run {z : ZSet F} (h : z.Valid) {op : Op F} (hop : op.Number) : (op.run z).1 = true ∧ (op.run z).2.Valid := by
  cases op with
  | add member score =>
    obtain ⟨b, z', heq, hvalid, -⟩ := h.add member hop
    rw [Op.run, heq]
    exact ⟨rfl, hvalid⟩
  | remove member =>
    obtain ⟨z', heq, hvalid, -⟩ := h.remove member
    rw [Op.run, heq]
    exact ⟨rfl, hvalid⟩
  | remove_rank start stop =>
    obtain ⟨z', heq, hvalid, -⟩ := h.remove_rank start stop
    rw [Op.run, heq]
    exact ⟨rfl, hvalid⟩
  | remove_score lo lo_open hi hi_open =>
    obtain ⟨n, z', heq, hvalid⟩ := h.remove_score lo lo_open hi hi_open
    rw [Op.run, heq]
    exact ⟨rfl, hvalid⟩
  | remove_member min min_open max max_open =>
    obtain ⟨z', heq, hvalid, -⟩ := h.remove_member min min_open max max_open
      (fun v => !(outside min max min_open max_open v).getD true) fun b => by simp [outside_eq]
    rw [Op.run, heq]
    exact ⟨rfl, hvalid⟩
  | copy => exact ⟨rfl, h⟩

/-! ## Ranks -/

/-- What changes make of an empty one is in order. -/
theorem Made.valid {z : ZSet F} (h : Made z) : z.Valid := by
  induction h with
  | empty => exact valid_empty
  | step _ hop ih => exact (ih.run hop).2

/-- The rank of a member is the number of smaller pairs, and its pair stands there. -/
theorem Valid.rank {z : ZSet F} (h : z.Valid) {member : Bytes} {score : F} (hscore : z.score (.bytes member) = some score) :
    z.rank (.bytes member) = some (some (z.pairs.countP fun q => decide (pairLt? q (score, .bytes member) = some true))) ∧
      z.pairs[z.pairs.countP fun q => decide (pairLt? q (score, .bytes member) = some true)]? = some (score, .bytes member) := by
  have hpair : (score, Value.bytes member) ∈ z.sorted := (h.scores _ score).1 hscore
  have hsound := h.rows.sound _ hpair
  obtain ⟨i, hi, hsplit⟩ := h.rows.bisect_left hsound
  have hcount : i = z.pairs.countP fun q => decide (pairLt? q (score, .bytes member) = some true) := by
    refine (hsplit.congr fun q hq => ?_).eq_countP
    rw [pairLt?_eq (h.rows.sound q hq) hsound]
    simp
  have hhash : (Value.bytes member).hashable = true := rfl
  rw [← hcount]
  refine ⟨?_, h.rows.ascending.getElem?_split hsplit hpair⟩
  unfold ZSet.rank
  rw [if_pos hhash, hscore]
  simp only [hi, Option.map_some]

end ZSet

/-- A set in order is told by its scores. -/
theorem ZSet.Valid.pairs_eq {z z' : ZSet F} (h : z.Valid) (h' : z'.Valid)
    (hscores : ∀ m : Bytes, z'.score (.bytes m) = z.score (.bytes m)) :
    z'.pairs = z.pairs := by
  have hmem : ∀ p, p ∈ z'.pairs ↔ p ∈ z.pairs := by
    rintro ⟨score, member⟩
    have hiff : ∀ m : Bytes, (score, Value.bytes m) ∈ z'.pairs ↔ (score, Value.bytes m) ∈ z.pairs := fun m => by
      rw [← h'.scores, ← h.scores, hscores]
    constructor
    · intro hp
      obtain ⟨m, rfl⟩ := (Value.isBytes_iff member).1 (h'.bytes _ hp)
      exact (hiff m).1 hp
    · intro hp
      obtain ⟨m, rfl⟩ := (Value.isBytes_iff member).1 (h.bytes _ hp)
      exact (hiff m).2 hp
  refine List.Perm.eq_of_pairwise (fun p q _ _ hpq hqp => absurd hpq (lt_asymm hqp)) h'.rows.ascending h.rows.ascending ?_
  exact (List.perm_ext_iff_of_nodup h'.rows.ascending.nodup h.rows.ascending.nodup).2 hmem

/-! ## Containers that may be missing -/

theorem valid_getD {o : Option (ZSet F)} (h : ∀ z ∈ o, z.Valid) : (o.getD .empty).Valid := by
  cases o with
  | none => exact ZSet.valid_empty
  | some z => exact h z rfl

omit [PyFloat F] [PyFloat.Ordered F] in
theorem score_getD (o : Option (ZSet F)) (member : Bytes) : (o.getD .empty).score (.bytes member) = scoreIn o member := by
  cases o with
  | none => rfl
  | some z => rfl

omit [PyFloat.Ordered F] in
theorem number_of_scoreIn {o : Option (ZSet F)} (h : ∀ z ∈ o, z.Valid) {member : Bytes} {x : F} (hx : scoreIn o member = some x) :
    PyFloat.isNaN x = false := by
  obtain ⟨z, hz, hscore⟩ := Option.bind_eq_some_iff.1 hx
  exact (h z hz).number _ (((h z hz).scores _ x).1 hscore)

end Kagni
