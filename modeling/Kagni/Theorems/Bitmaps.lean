import Kagni.Commands.Bit
import Kagni.Lemmas.Content

/-!
# Operations on bitmaps

BITOP makes each bit of its destination of the bits of its sources, and replies the length of the longest. The length is found
through the highest set bit, which starts as 0 as if that bit were not one.
-/

namespace Kagni

open Lib Lib.Prog

variable {F : Type} {ctx : Ctx} {ks : Set Bytes} {s s' : Content F}

/-! ## What BITOP is for -/

/-- The bytes of the string that a bitmap stands for. -/
def byteLength (m : Finset Nat) : Nat := if m = ∅ then 0 else _byte_length (bitMax m)

/-- One bit of the result of an operation. NOT has one source, and reaches to the end of its last byte. -/
def bitopBit (op : Bytes) (maps : List (Finset Nat)) (i : Nat) : Prop :=
  if op = bs "AND" then ∀ m ∈ maps, i ∈ m
  else if op = bs "OR" then ∃ m ∈ maps, i ∈ m
  else if op = bs "XOR" then (maps.countP fun m => i ∈ m) % 2 = 1
  else ∃ m ∈ maps, i < 8 * byteLength m ∧ i ∉ m

/-- The content after BITOP: the destination holds the bits, and is there if there are any. -/
structure BitopDone (op : Bytes) (dest : Value) (maps : List (Finset Nat)) (s s' : Content F) : Prop where
  bits : ∀ i, (∃ r, s'.value dest = some (.bitmap r) ∧ i ∈ r) ↔ bitopBit op maps i
  exists_iff : (s'.lookup dest).isSome ↔ ∃ i, bitopBit op maps i
  others : ∀ key ≠ dest, s'.lookup key = s.lookup key

/-- The operators and their number of sources. -/
def BitopArgs (op : Bytes) {α : Type} (sources : List α) : Prop :=
  ((op = bs "AND" ∨ op = bs "OR" ∨ op = bs "XOR") ∧ sources ≠ []) ∨ (op = bs "NOT" ∧ sources.length = 1)

/-- When the reply is the length: all sources are empty, or some source has a bit other than the first. -/
def BitopFits (maps : List (Finset Nat)) : Prop := (∀ m ∈ maps, m = ∅) ∨ ∃ m ∈ maps, ∃ i ∈ m, i ≠ 0

/-! ## The result -/

theorem mem_foldl_inter (i : Nat) (m : Finset Nat) (rest : List (Finset Nat)) :
    i ∈ rest.foldl (· ∩ ·) m ↔ ∀ x ∈ m :: rest, i ∈ x := by
  induction rest generalizing m with
  | nil => simp
  | cons y rest ih => simp [ih, and_assoc]

theorem mem_foldl_union (i : Nat) (m : Finset Nat) (rest : List (Finset Nat)) :
    i ∈ rest.foldl (· ∪ ·) m ↔ ∃ x ∈ m :: rest, i ∈ x := by
  induction rest generalizing m with
  | nil => simp
  | cons y rest ih => simp [ih, or_assoc]

theorem mem_foldl_xor (i : Nat) (m : Finset Nat) (rest : List (Finset Nat)) :
    i ∈ rest.foldl (fun a b => (a \ b) ∪ (b \ a)) m ↔ ((m :: rest).countP fun x => i ∈ x) % 2 = 1 := by
  induction rest generalizing m with
  | nil => by_cases h : i ∈ m <;> simp [h]
  | cons y rest ih =>
    rw [List.foldl_cons, ih]
    by_cases h : i ∈ m <;> by_cases h' : i ∈ y
    · simp [h, h']
      omega
    all_goals simp [h, h']

/-- The code's result holds the bits of the operation. -/
theorem bitopResult_run (ctx : Ctx) (ks : Set Bytes) (s : Content F) {op : Bytes} {maps : List (Finset Nat)}
    (h : BitopArgs op maps) :
    ∃ r : Finset Nat, Steps ctx ks s (bitopResult op maps) (.ok r) s ∧ ∀ i, i ∈ r ↔ bitopBit op maps i := by
  rcases h with ⟨hop, hne⟩ | ⟨rfl, hlen⟩
  · obtain ⟨m, rest, rfl⟩ := List.exists_cons_of_ne_nil hne
    rcases hop with rfl | rfl | rfl
    · exact ⟨_, .pure _, fun i => mem_foldl_inter i m rest⟩
    · exact ⟨_, .pure _, fun i => mem_foldl_union i m rest⟩
    · exact ⟨_, .pure _, fun i => mem_foldl_xor i m rest⟩
  · obtain ⟨m, rfl⟩ := List.length_eq_one_iff.1 hlen
    refine ⟨_, .pure _, fun i => ?_⟩
    change _ ↔ ∃ x ∈ [m], i < 8 * byteLength x ∧ i ∉ x
    by_cases hm : m = ∅
    · simp [hm, byteLength]
    · have hmax : ∀ j ∈ m, j < _universe m := fun j hj => by
        have hle : j ≤ bitMax m := Finset.le_sup (f := id) hj
        unfold _universe _byte_length
        omega
      have huniverse : 8 * byteLength m = _universe m := by
        rw [byteLength, if_neg hm, _universe, Nat.mul_comm]
      simp only [if_neg hm, flip, Finset.mem_union, Finset.mem_sdiff, Finset.mem_range, List.mem_singleton,
        exists_eq_left, huniverse]
      constructor
      · rintro (h | ⟨hi, h⟩)
        · exact h
        · exact absurd (hmax i hi) h
      · exact .inl

/-! ## The reply -/

theorem foldl_max_spec {α : Type} (f : α → Nat) (xs : List α) (a : Nat) :
    a ≤ (xs.map f).foldl max a ∧ (∀ x ∈ xs, f x ≤ (xs.map f).foldl max a) ∧
      ((xs.map f).foldl max a = a ∨ ∃ x ∈ xs, f x = (xs.map f).foldl max a) := by
  induction xs generalizing a with
  | nil => simp
  | cons x xs ih =>
    obtain ⟨hle, hall, heq⟩ := ih (max a (f x))
    rw [List.map_cons, List.foldl_cons]
    refine ⟨le_trans (le_max_left ..) hle, fun y hy => ?_, ?_⟩
    · rcases List.mem_cons.1 hy with rfl | hy
      · exact le_trans (le_max_right ..) hle
      · exact hall y hy
    · rcases heq with heq | ⟨y, hy, heq⟩
      · rcases Nat.le_total a (f x) with h | h
        · rw [Nat.max_eq_right h] at heq ⊢
          exact .inr ⟨x, List.mem_cons_self, heq.symm⟩
        · rw [Nat.max_eq_left h] at heq ⊢
          exact .inl heq
      · exact .inr ⟨y, List.mem_cons_of_mem _ hy, heq⟩

/-- The longest source, by the highest set bit of all. -/
theorem longest_eq (maps : List (Finset Nat)) :
    (maps.map byteLength).foldl max 0 = if ∀ m ∈ maps, m = ∅ then 0 else _byte_length ((maps.map bitMax).foldl max 0) := by
  obtain ⟨-, hbytes, hbytes'⟩ := foldl_max_spec byteLength maps 0
  obtain ⟨-, hbits, hbits'⟩ := foldl_max_spec bitMax maps 0
  have hlen : ∀ m : Finset Nat, m ≠ ∅ → byteLength m = _byte_length (bitMax m) := fun m hm => if_neg hm
  generalize (maps.map byteLength).foldl max 0 = bytes at *
  generalize (maps.map bitMax).foldl max 0 = top at *
  split
  · rename_i hall
    rcases hbytes' with h | ⟨m, hm, h⟩
    · exact h
    · rw [← h, hall m hm]
      rfl
  · rename_i hsome
    obtain ⟨m, hm⟩ := not_forall.1 hsome
    obtain ⟨hm, hne⟩ := Classical.not_imp.1 hm
    unfold _byte_length at *
    refine Nat.le_antisymm ?_ ?_
    · rcases hbytes' with h | ⟨x, hx, h⟩
      · omega
      · have htop := hbits x hx
        by_cases hxe : x = ∅
        · rw [hxe] at h
          change 0 = bytes at h
          omega
        · rw [hlen x hxe] at h
          omega
    · rcases hbits' with h | ⟨x, hx, h⟩
      · have hbytes₁ := hbytes m hm
        rw [hlen m hne] at hbytes₁
        omega
      · have hbytes₁ := hbytes m hm
        have hbytes₂ := hbytes x hx
        by_cases hxe : x = ∅
        · rw [hxe] at h
          change 0 = top at h
          rw [hlen m hne] at hbytes₁
          omega
        · rw [hlen x hxe] at hbytes₂
          omega

/-- The reply is the length exactly where it fits. -/
theorem reply_iff (maps : List (Finset Nat)) :
    (if (maps.map bitMax).foldl max 0 = 0 then 0 else _byte_length ((maps.map bitMax).foldl max 0)) =
      (maps.map byteLength).foldl max 0 ↔
      BitopFits maps := by
  rw [longest_eq]
  unfold BitopFits
  obtain ⟨-, hbits, hbits'⟩ := foldl_max_spec bitMax maps 0
  generalize (maps.map bitMax).foldl max 0 = top at *
  by_cases hall : ∀ m ∈ maps, m = ∅
  · have htop : top = 0 := by
      rcases hbits' with h | ⟨m, hm, h⟩
      · exact h
      · rw [← h, hall m hm]
        rfl
    rw [if_pos hall, if_pos htop]
    exact ⟨fun _ => .inl hall, fun _ => rfl⟩
  · have hhigh : top ≠ 0 ↔ ∃ m ∈ maps, ∃ i ∈ m, i ≠ 0 := by
      constructor
      · intro htop
        rcases hbits' with h | ⟨m, hm, h⟩
        · exact absurd h htop
        · have hne : m.Nonempty := by
            rw [Finset.nonempty_iff_ne_empty]
            rintro rfl
            exact htop h.symm
          obtain ⟨i, hi, hsup⟩ := Finset.exists_mem_eq_sup m hne id
          exact ⟨m, hm, i, hi, fun hzero => htop (by rw [← h, bitMax, hsup]; exact hzero)⟩
      · rintro ⟨m, hm, i, hi, hne⟩
        have hle : i ≤ bitMax m := Finset.le_sup (f := id) hi
        have := hbits m hm
        omega
    rw [if_neg hall, ← hhigh]
    simp only [hall, false_or]
    by_cases htop : top = 0
    · simp [htop, _byte_length]
    · simp [htop]

/-! ## The command -/

/-- What BITOP ends with: its event is published if there is a result. -/
noncomputable def bitopOutcome (ctx : Ctx) (maps : List (Finset Nat)) (r : Finset Nat) : Except (Exc Errors) Reply :=
  (if r = ∅ then .ok () else ctx.emits .set).map fun _ =>
    .int (if (maps.map bitMax).foldl max 0 = 0 then 0 else _byte_length ((maps.map bitMax).foldl max 0))

/-- What BITOP does with the result `r`. -/
theorem steps_BITOP {op : Bytes} (dest : Bytes) {keys : List Bytes} {maps : Bytes → Finset Nat} {r : Finset Nat} (hne : keys ≠ [])
    (hmaps : ∀ key ∈ keys, Steps ctx ks s (_bitmap (.bytes key) >>= fun b => pure (b.getD ∅)) (.ok (maps key)) s)
    (hresult : Steps ctx ks s (bitopResult (upper op) (keys.map maps)) (.ok r) s) :
    Steps ctx ks s (BITOP (.bytes op) (.bytes dest) (keys.map .bytes)) (bitopOutcome ctx (keys.map maps) r)
      (if r = ∅ then s.erase (.bytes dest) else s.assign (.bytes dest) (.bitmap r)) := by
  have hassert : Steps ctx ks s (_assert_keys (keys.map Value.bytes) .BITOP) (.ok ()) s :=
    .if_neg (fun hnil => hne (List.map_eq_nil_iff.1 hnil)) (.pure ())
  refine hassert.bind ?_
  refine Steps.bind (.pure _) ?_
  refine (steps_mapM hmaps).bind ?_
  refine hresult.bind ?_
  unfold bitopOutcome
  by_cases hr : r = ∅
  · rw [if_pos hr, if_pos hr]
    refine .if_neg (not_not.2 hr) ?_
    exact (steps_remove dest).bind (.pure _)
  · rw [if_neg hr, if_neg hr]
    refine .if_pos hr ?_
    refine (steps_setitem dest _).bind ?_
    by_cases hevent : ctx.EventReturns .set
    · rw [ctx.emits_of_returns hevent]
      exact (steps_after_write hevent).bind (.pure _)
    · rw [ctx.emits_of_not hevent]
      exact Steps.bind_error (steps_after_write_error hevent)

/-- BITOP raises if the purge of one of its sources does. -/
theorem BITOP_shut {k : KState F} {op dest : Bytes} {keys : List Bytes} {maps : Bytes → Option (Finset Nat)}
    (hmaps : ∀ key ∈ keys, (k.store.content ctx.clock.mono).value (.bytes key) = (maps key).map .bitmap)
    (hshut : ∃ key ∈ keys, ¬ctx.Opens k key) : (BITOP (.bytes op) (.bytes dest) (keys.map .bytes) ctx k).1 = .error .other := by
  obtain ⟨shut, hmem, hshut⟩ := hshut
  have hevent := not_returns_of_shut hshut
  -- the sources before the first shut one are read, and change nothing
  have hloop : ∃ k', mapM_ (fun key => do return (← _bitmap key).getD ∅) (keys.map Value.bytes) ctx k = (.error .other, k') := by
    induction keys with
    | nil => cases hmem
    | cons key keys ih =>
      obtain ⟨hmap, hmaps⟩ := List.forall_mem_cons.1 hmaps
      by_cases hopens : ctx.Opens k key
      · have hne : shut ≠ key := fun hsame => hshut (hsame ▸ hopens)
        obtain ⟨k', hrest⟩ := ih hmaps ((List.mem_cons.1 hmem).resolve_left hne)
        have hread : _bitmap (.bytes key) ctx k = (.ok (maps key), k) := bitmap_open_run hopens hevent hmap
        refine ⟨k', ?_⟩
        rw [List.map_cons, mapM_, bind_ok ctx k ((bind_ok ctx k hread).trans rfl)]
        exact bind_error ctx k hrest
      · obtain ⟨k', hrun, -⟩ := gives_bitmap_error hopens
        refine ⟨k', ?_⟩
        rw [List.map_cons, mapM_]
        exact bind_error ctx k (bind_error ctx k hrun)
  obtain ⟨k', hrun⟩ := hloop
  have hassert : _assert_keys (keys.map Value.bytes) Cmd.BITOP ctx k = (.ok (), k) := by
    cases keys with
    | nil => cases hmem
    | cons key keys => rfl
  unfold BITOP
  rw [bind_ok ctx k hassert, bind_ok ctx k (show upperArg (.bytes op) ctx k = (.ok (upper op), k) from rfl),
    bind_error ctx k hrun]

/-- The destination holds the result, and no other key is touched. -/
theorem bitopDone_of_bits (s : Content F) {op : Bytes} (dest : Value) {maps : List (Finset Nat)} {r : Finset Nat}
    (h : ∀ i, i ∈ r ↔ bitopBit op maps i) :
    BitopDone op dest maps s (if r = ∅ then s.erase dest else s.assign dest (.bitmap r)) := by
  by_cases hr : r = ∅
  · rw [if_pos hr]
    have hnone : ∀ i, ¬bitopBit op maps i := fun i hi => Finset.notMem_empty i (hr ▸ (h i).2 hi)
    refine ⟨fun i => ⟨fun ⟨r', hr', _⟩ => ?_, fun hi => absurd hi (hnone i)⟩,
      ⟨fun hsome => ?_, fun ⟨i, hi⟩ => absurd hi (hnone i)⟩,
      fun key hkey => Finmap.lookup_erase_ne hkey⟩
    · rw [Content.value, Finmap.lookup_erase] at hr'
      cases hr'
    · rw [Finmap.lookup_erase] at hsome
      cases hsome
  · rw [if_neg hr]
    have hlookup : (s.assign dest (.bitmap r)).lookup dest = some ⟨.bitmap r, none⟩ := Finmap.lookup_insert ..
    refine ⟨fun i => ?_, ?_, fun key hkey => Finmap.lookup_insert_of_ne _ hkey⟩
    · rw [Content.value, hlookup, ← h]
      constructor
      · rintro ⟨r', hr', hi⟩
        cases hr'
        exact hi
      · exact fun hi => ⟨r, rfl, hi⟩
    · obtain ⟨i, hi⟩ := Finset.nonempty_iff_ne_empty.2 hr
      rw [hlookup]
      exact ⟨fun _ => ⟨i, (h i).1 hi⟩, fun _ => rfl⟩

/-- When BITOP can be told: a look at a source raises nothing, and the event of a result can be published. -/
def BitopTold (ctx : Ctx) (k : KState F) (op : Bytes) (keys : List Bytes) (maps : List (Finset Nat)) : Prop :=
  (∀ key ∈ keys, ctx.Opens k key) ∧ ((∃ i, bitopBit op maps i) → ctx.EventReturns .set)

/-- A bitmap `a` that holds its first bit. -/
def firstBit : KState Int := ⟨⟨Dict.set ∅ (.bytes (bs "a")) ⟨.bitmap {0}, none⟩, ∅⟩, [], 0⟩

/-- The bitmaps of `firstBit`. -/
def firstBitOf (key : Bytes) : Option (Finset Nat) := if key = bs "a" then some {0} else none

end Kagni
