import Kagni.Lib.Occurrences
import Kagni.Lemmas.Lists

/-!
# Positions

LPOS scans a list from either end with three limits at once. What it finds are the occurrences among the items it may scan,
without the first ones, up to the limit of COUNT.
-/

namespace Kagni

open Lib

variable {F : Type} {ctx : Ctx} {k : KState F} {key : Bytes} {lst : ListRef}

/-- The items in the order LPOS scans them, as far as it does. -/
def scanned (rank maxlen : Int) (items : List Value) : List Value :=
  let scan := if rank < 0 then items.reverse else items
  if maxlen = 0 then scan else scan.take maxlen.toNat

/-- The positions of an element that LPOS is to select, from the head of the list. -/
def positions (element : Value) (rank maxlen : Int) (items : List Value) : List Nat :=
  ((occurrences element (scanned rank maxlen items)).drop (rank.natAbs - 1)).map fun i => if rank <
    0 then items.length - 1 - i else i

/-- The reply: the first `count` positions, all of them if it is 0, and without a count the first one or nil. -/
def lposReply (element : Value) (o : Int × Option Int × Int) (items : List Value) : Reply :=
  let found := positions element o.1 o.2.2 items
  match o.2.1 with
  | none => (found.head?.map fun i => .int i).getD .NIL
  | some count => .list ((if count = 0 then found else found.take count.toNat).map fun (i : Nat) => .int i)

/-! ## The scan -/

/-- The occurrences the scan has ahead of it when it has passed `index` items. -/
def ahead (element : Value) (maxlen index : Nat) (items : List Value) : List Nat :=
  (occurrences element (if maxlen = 0 then items else items.take (maxlen - index))).map (· + index)

theorem ahead_past (element : Value) {maxlen index : Nat} (h : maxlen ≠ 0 ∧ maxlen ≤ index) (items : List Value) :
    ahead element maxlen index items = [] := by
  rw [ahead, if_neg h.1, Nat.sub_eq_zero_of_le h.2, List.take_zero]
  rfl

theorem ahead_cons (element : Value) {maxlen index : Nat} (h : ¬(maxlen ≠ 0 ∧ maxlen ≤ index)) (item : Value)
    (rest : List Value) :
    ahead element maxlen index (item :: rest) =
      if item = element then index :: ahead element maxlen (index + 1) rest else ahead element maxlen (index + 1) rest := by
  have hcut : (if maxlen = 0 then item :: rest else (item :: rest).take (maxlen - index)) =
      item :: if maxlen = 0 then rest else rest.take (maxlen - (index + 1)) := by
    split_ifs with hzero
    · rfl
    · rw [show maxlen - index = maxlen - (index + 1) + 1 by omega, List.take_succ_cons]
  have hshift : ∀ ps : List Nat, (ps.map (· + 1)).map (· + index) = ps.map (· + (index + 1)) := by
    intro ps
    rw [List.map_map]
    exact List.map_congr_left fun i _ => by dsimp only [Function.comp]; omega
  unfold ahead
  rw [hcut, occurrences_cons]
  by_cases hitem : item = element
  · rw [if_pos hitem, if_pos hitem, List.map_cons, hshift, Nat.zero_add]
  · rw [if_neg hitem, if_neg hitem, hshift]

/-- What the limit of COUNT lets through when `n` positions have been found. -/
def capped (count : Option Int) (n : Nat) (l : List Nat) : List Nat :=
  match count with
  | none => l.take 1
  | some c => if c = 0 then l else l.take (c.toNat - n)

@[simp] theorem capped_nil (count : Option Int) (n : Nat) : capped count n [] = [] := by
  cases count <;> simp [capped]

/-- There is room for one more position. -/
def HasRoom (count : Option Int) (n : Nat) : Prop := ∀ c, count = some c → c = 0 ∨ (n : Int) < c

/-- The limit is reached. -/
theorem capped_last {c : Int} {n : Nat} (h : HasRoom (some c) n) (hfull : c ≠ 0 ∧ ((n + 1 : Nat) : Int) ≥ c)
    (i : Nat) (l : List Nat) :
    capped (some c) n (i :: l) = [i] := by
  have hlt := (h c rfl).resolve_left hfull.1
  rw [capped, if_neg hfull.1, show c.toNat - n = 1 by omega]
  rfl

/-- It is not reached yet. -/
theorem capped_more {c : Int} {n : Nat} (hmore : ¬(c ≠ 0 ∧ ((n + 1 : Nat) : Int) ≥ c)) (i : Nat) (l : List Nat) :
    capped (some c) n (i :: l) = i :: capped (some c) (n + 1) l := by
  unfold capped
  dsimp only
  by_cases hzero : c = 0
  · rw [if_pos hzero, if_pos hzero]
  · rw [if_neg hzero, if_neg hzero, show c.toNat - n = c.toNat - (n + 1) + 1 by omega, List.take_succ_cons]

/-- The scan finds the occurrences ahead of it, without those that are still to be passed over. -/
theorem lposLoop_eq (element : Value) (rank : Nat) {count : Option Int} (maxlen : Nat) (items : List Value) (index matched : Nat)
    {found : List Nat} (hroom : HasRoom count found.length) :
    lposLoop element rank count maxlen items index matched found =
      found ++ capped count found.length ((ahead element maxlen index items).drop (rank - 1 - matched)) := by
  induction items generalizing index matched found with
  | nil => simp [lposLoop, ahead]
  | cons item rest ih =>
    rw [lposLoop]
    by_cases hpast : maxlen ≠ 0 ∧ maxlen ≤ index
    · rw [if_pos (by omega), ahead_past element hpast, List.drop_nil, capped_nil, List.append_nil]
    rw [if_neg (by omega), ahead_cons element hpast]
    by_cases hitem : item = element
    · rw [if_neg (not_not.2 hitem), if_pos hitem]
      by_cases hskip : matched + 1 < rank
      · rw [if_pos (by omega), ih _ _ hroom, show rank - 1 - matched = rank - 1 - (matched + 1) + 1 by omega, List.drop_succ_cons]
      · have hlength : (found ++ [index]).length = found.length + 1 := List.length_append
        rw [if_neg (by omega), show rank - 1 - matched = 0 by omega, List.drop_zero]
        cases count with
        | none => rfl
        | some c =>
          dsimp only
          rw [hlength]
          by_cases hfull : c ≠ 0 ∧ ((found.length + 1 : Nat) : Int) ≥ c
          · rw [if_pos hfull, capped_last hroom hfull]
          · have hmore : HasRoom (some c) (found ++ [index]).length := by
              intro c' hc'
              cases hc'
              rw [hlength]
              omega
            rw [if_neg hfull, capped_more hfull, ih _ _ hmore, hlength, show rank - 1 - (matched + 1) =
              0 by omega, List.drop_zero,
              List.append_assoc]
            rfl
    · rw [if_pos hitem, if_neg hitem, ih _ _ hroom]

theorem lt_of_mem_scanned {element : Value} {rank maxlen : Int} {items : List Value} {i : Nat}
    (h : i ∈ occurrences element (scanned rank maxlen items)) : i < items.length := by
  have hlength : (scanned rank maxlen items).length ≤ items.length := by
    unfold scanned
    split_ifs <;> simp
  exact (lt_of_mem_occurrences h).trans_le hlength

/-- From an end the scan finds what is to be selected. -/
theorem lposLoop_start (element : Value) (rank : Int) {count : Option Int} {maxlen : Int} (hcount : ∀ c, count = some c → 0 ≤ c)
    (hmaxlen : 0 ≤ maxlen) (items : List Value) :
    (lposLoop element rank.natAbs count maxlen (if rank < 0 then items.reverse else items) 0 0 []).map
        (fun i => if rank < 0 then items.length - 1 - i else i) = capped count 0 (positions element rank maxlen items) := by
  obtain ⟨m, rfl⟩ := Int.eq_ofNat_of_zero_le hmaxlen
  have hroom : HasRoom count ([] : List Nat).length := by
    intro c hc
    have := hcount c hc
    rw [List.length_nil]
    omega
  have hahead : ahead element m 0 (if rank < 0 then items.reverse else items) = occurrences element (scanned rank m items) := by
    simp [ahead, scanned]
  have hmap : ∀ (f : Nat → Nat) (l : List Nat), (capped count 0 l).map f = capped count 0 (l.map f) := by
    intro f l
    cases count with
    | none => exact List.map_take
    | some c =>
      unfold capped
      dsimp only
      split_ifs
      · rfl
      · exact List.map_take
  rw [lposLoop_eq element rank.natAbs m _ 0 0 hroom, hahead, List.nil_append, Nat.sub_zero, List.length_nil, hmap]
  rfl

/-- The other rank on the list read backwards. -/
theorem positions_reverse (element : Value) {rank : Int} (h : rank ≠ 0) (maxlen : Int) (items : List Value) :
    positions element (-rank) maxlen items = (positions element rank maxlen items.reverse).map fun i => items.length - 1 - i := by
  have hscan : scanned (-rank) maxlen items = scanned rank maxlen items.reverse := by
    have hlist : (if -rank < 0 then items.reverse else items) = if rank < 0 then items.reverse.reverse else items.reverse := by
      rcases lt_or_gt_of_ne h with hneg | hpos
      · rw [if_neg (by omega), if_pos hneg, List.reverse_reverse]
      · rw [if_pos (by omega), if_neg (by omega)]
    exact congrArg (fun scan => if maxlen = 0 then scan else scan.take maxlen.toNat) hlist
  unfold positions
  rw [hscan, Int.natAbs_neg, List.map_map]
  refine List.map_congr_left ?_
  intro i hi
  have hlt := lt_of_mem_scanned (List.mem_of_mem_drop hi)
  rw [List.length_reverse] at hlt
  dsimp only [Function.comp]
  rw [List.length_reverse]
  split_ifs <;> omega

/-! ## The options -/

/-- The options of LPOS. -/
inductive LposOption where
  | RANK | COUNT | MAXLEN
deriving DecidableEq

namespace LposOption

def name : LposOption → Bytes
  | .RANK => bs "RANK"
  | .COUNT => bs "COUNT"
  | .MAXLEN => bs "MAXLEN"

/-- The numbers an option takes. -/
def Takes : LposOption → Int → Prop
  | .RANK, n => n ≠ 0
  | .COUNT, n | .MAXLEN, n => 0 ≤ n

/-- Rank, count and maxlen with an option. -/
def sets (n : Int) (o : Int × Option Int × Int) : LposOption → Int × Option Int × Int
  | .RANK => (n, o.2.1, o.2.2)
  | .COUNT => (o.1, some n, o.2.2)
  | .MAXLEN => (o.1, o.2.1, n)

end LposOption

/-- An option as it is written: its name in any case, and a number it takes. -/
structure LposGiven where
  option : LposOption
  number : Int
  written : Bytes
  value : Value
  named : upper written = option.name
  reads : toLL value = some number
  takes : option.Takes number

namespace LposGiven

def tokens (g : LposGiven) : List Value := [.bytes g.written, g.value]

def apply (o : Int × Option Int × Int) (g : LposGiven) : Int × Option Int × Int := g.option.sets g.number o

/-- Two different options can be read in either order. -/
theorem apply_comm {g g' : LposGiven} (h : g.option ≠ g'.option) (o : Int × Option Int × Int) :
    apply (apply o g) g' = apply (apply o g') g := by
  rw [apply, apply, apply, apply]
  cases hg : g.option <;> cases hg' : g'.option
  all_goals first | rfl | exact absurd (hg.trans hg'.symm) h

/-- Options that are all different can be read in any order. -/
theorem foldl_apply_perm {gs gs' : List LposGiven} (hperm : gs.Perm gs') (hnodup : (gs.map option).Nodup)
    (o : Int × Option Int × Int) :
    gs.foldl apply o = gs'.foldl apply o := by
  refine hperm.foldl_eq' (fun g hg g' hg' o => ?_) o
  by_cases hsame : g.option = g'.option
  · rw [List.inj_on_of_nodup_map hnodup hg hg' hsame]
  · exact apply_comm hsame o

/-- The options are read in turn. -/
theorem yields_lposOptions (gs : List LposGiven) (rank : Int) (count : Option Int) (maxlen : Int) :
    Yields ctx (lposOptions rank count maxlen (gs.flatMap tokens) : K F _) (gs.foldl apply (rank, count, maxlen)) := by
  induction gs generalizing rank count maxlen with
  | nil => exact .pure _
  | cons g gs ih =>
    have hname : Yields ctx (upperArg (.bytes g.written) : K F Bytes) g.option.name := by
      rw [← g.named]
      exact fun _ => rfl
    have hvalue : Yields ctx (orThrow .NOT_INT (toLL g.value) : K F Int) g.number := by
      rw [g.reads]
      exact .pure _
    have htakes := g.takes
    rw [List.flatMap_cons, List.foldl_cons, apply]
    change Yields ctx (lposOptions rank count maxlen (.bytes g.written :: g.value :: gs.flatMap tokens)) _
    unfold lposOptions
    refine hname.bind (.check ?_ (hvalue.bind ?_))
    · cases g.option <;> decide
    · cases hoption : g.option with
      | RANK =>
        rw [hoption] at htakes
        rw [if_pos (by decide)]
        exact .check htakes (ih g.number count maxlen)
      | COUNT =>
        rw [hoption] at htakes
        rw [if_neg (by decide), if_pos (by decide)]
        exact .check (not_lt.2 htakes) (ih rank (some g.number) maxlen)
      | MAXLEN =>
        rw [hoption] at htakes
        rw [if_neg (by decide), if_neg (by decide)]
        exact .check (not_lt.2 htakes) (ih rank count g.number)

end LposGiven

/-! ## LPOS -/

/-- Rank, count and maxlen as the options give them. -/
def settings (gs : List LposGiven) : Int × Option Int × Int := gs.foldl LposGiven.apply (1, none, 0)

/-- The count and maxlen that are given are not negative. -/
theorem settings_nonneg (gs : List LposGiven) : (∀ c, (settings gs).2.1 = some c → 0 ≤ c) ∧ 0 ≤ (settings gs).2.2 := by
  have hkeep : ∀ o : Int × Option Int × Int, ((∀ c, o.2.1 = some c → 0 ≤ c) ∧ 0 ≤ o.2.2) →
      (∀ c, (gs.foldl LposGiven.apply o).2.1 = some c → 0 ≤ c) ∧ 0 ≤ (gs.foldl LposGiven.apply o).2.2 := by
    induction gs with
    | nil => exact fun _ h => h
    | cons g gs ih =>
      intro o ho
      refine ih (g.apply o) ?_
      have htakes := g.takes
      rw [LposGiven.apply]
      cases hoption : g.option with
      | RANK => exact ho
      | COUNT =>
        rw [hoption] at htakes
        exact ⟨fun c hc => Option.some.inj hc ▸ htakes, ho.2⟩
      | MAXLEN =>
        rw [hoption] at htakes
        exact ⟨ho.1, htakes⟩
  exact hkeep (1, none, 0) ⟨nofun, le_refl 0⟩

theorem gives_LPOS (h : (k.store.content ctx.clock.mono).value (.bytes key) = some lst.obj) (element : Value)
    (gs : List LposGiven) :
    Gives (LPOS (.bytes key) element (gs.flatMap LposGiven.tokens)) ctx k (.ok (lposReply element (settings gs) lst.items))
      (k.store.content ctx.clock.mono) := by
  refine Steps.gives ((Steps.of_run (LposGiven.yields_lposOptions gs 1 none 0)).bind ?_) (.none k)
  refine (steps_list (o := some lst) (purges_of_value h) h).bind ?_
  obtain ⟨hcount, hmaxlen⟩ := settings_nonneg gs
  unfold settings at *
  generalize gs.foldl LposGiven.apply (1, none, 0) = o at *
  have hfound := lposLoop_start element o.1 hcount hmaxlen lst.items
  unfold lposReply
  dsimp only
  rw [hfound]
  cases o.2.1 with
  | none =>
    refine .if_pos rfl ?_
    rw [capped, List.head?_take, if_neg one_ne_zero]
    exact .pure _
  | some c =>
    have hints : ∀ l : List Nat, (l >>= fun i => pure (i : Int)).map Reply.int = l.map fun (i : Nat) => Reply.int i := by
      intro l
      induction l with
      | nil => rfl
      | cons i l ih => exact congrArg (List.cons (Reply.int i)) ih
    refine .if_neg nofun ?_
    change Steps ctx ∅ _ (Pure.pure (Reply.list ((capped (some c) 0 _ >>= fun i => pure (i : Int)).map Reply.int))) _ _
    rw [hints]
    exact .pure _

/-- LPOS replies the selected positions, in whichever order its options are written. On the list read backwards the other rank
selects the same positions, counted from the other end. -/
theorem lpos_exact (h : (k.store.content ctx.clock.mono).value (.bytes key) = some lst.obj) (element : Value)
    (gs : List LposGiven) :
    Gives (LPOS (.bytes key) element (gs.flatMap LposGiven.tokens)) ctx k (.ok (lposReply element (settings gs) lst.items))
        (k.store.content ctx.clock.mono) ∧
      ((gs.map LposGiven.option).Nodup → ∀ gs' : List LposGiven, gs.Perm gs' →
        Gives (LPOS (.bytes key) element (gs'.flatMap LposGiven.tokens)) ctx k (.ok (lposReply element (settings gs) lst.items))
          (k.store.content ctx.clock.mono)) ∧
      ∀ rank maxlen : Int, rank ≠ 0 →
        positions element (-rank) maxlen lst.items =
          (positions element rank maxlen lst.items.reverse).map fun i => lst.items.length - 1 - i := by
  refine ⟨gives_LPOS h element gs, fun hnodup gs' hperm => ?_,
    fun rank maxlen hrank => positions_reverse element hrank maxlen lst.items⟩
  have hsame : settings gs = settings gs' := LposGiven.foldl_apply_perm hperm hnodup (1, none, 0)
  rw [hsame]
  exact gives_LPOS h element gs'

/-- `rank -1 COUNT 0`. -/
def lastFirst : List LposGiven :=
  [⟨.RANK, -1, bs "rank", .bytes (bs "-1"), by decide, by decide, Int.neg_ne_zero.2 one_ne_zero⟩,
    ⟨.COUNT, 0, bs "COUNT", .bytes (bs "0"), by decide, by decide, le_refl 0⟩]

/-- On `a b a` they select both positions of `a`, the last one first. -/
theorem lpos_exact_aba :
    Gives (LPOS (.bytes (bs "k")) (.bytes (bs "a")) (lastFirst.flatMap LposGiven.tokens)) Ctx.plain
      (pushedStore (bs "k") ([bs "a", bs "b", bs "a"].map .bytes))
        (.ok (lposReply (.bytes (bs "a")) (settings lastFirst) ([bs "a", bs "b", bs "a"].map .bytes)))
        ((pushedStore (bs "k") ([bs "a", bs "b", bs "a"].map .bytes)).store.content Ctx.plain.clock.mono) ∧
      lposReply (.bytes (bs "a")) (settings lastFirst) ([bs "a", bs "b", bs "a"].map .bytes) = .list [.int 2, .int 0] := by
  have hvalue : ((pushedStore (bs "k") ([bs "a", bs "b", bs "a"].map .bytes)).store.content Ctx.plain.clock.mono).value
    (.bytes (bs "k")) =
      some (ListRef.obj ⟨true, [bs "a", bs "b", bs "a"].map .bytes⟩) := rfl
  exact ⟨(lpos_exact hvalue (.bytes (bs "a")) lastFirst).1, rfl⟩

end Kagni
