import Kagni.Lemmas.Lists
import Kagni.Theorems.Ranks

/-!
# Windows of lists

LRANGE, LTRIM, LINDEX, LSET, LPOP and RPOP each make their own sense of an index. On a list that is a `deque` and not empty
they make the same.
-/

namespace Kagni

open Lib

variable {F : Type} {ctx : Ctx} {ks : Set Bytes} {k : KState F} {s : Content F} {key : Bytes} {lst : ListRef}

/-! ## What an index denotes -/

/-- The index denotes the item between `pre` and `post`: it counts from the head, or from the end if it is negative. -/
def Addresses (items : List Value) (i : Int) (pre : List Value) (v : Value) (post : List Value) : Prop :=
  items = pre ++ v :: post ∧ ((pre.length : Int) = i ∨ (post.length + 1 : Int) = -i)

theorem position_eq_some_iff {length j : Nat} {i : Int} :
    position length i = some j ↔ j < length ∧ ((j : Int) = i ∨ ((length - j : Nat) : Int) = -i) := by
  unfold position
  dsimp only
  rw [Option.ite_none_left_eq_some, Option.some.injEq]
  split_ifs <;> omega

/-- The position of an index is that of the item it denotes. -/
theorem addresses_iff {items : List Value} {i : Int} {pre post : List Value} {v : Value} :
    Addresses items i pre v post ↔ items = pre ++ v :: post ∧ position items.length i = some pre.length := by
  unfold Addresses
  rw [position_eq_some_iff]
  refine and_congr_right ?_
  intro hitems
  rw [hitems, List.length_append, List.length_cons]
  omega

/-- An index has a position if it denotes an item. -/
theorem exists_addresses {items : List Value} {i : Int} {j : Nat} (h : position items.length i = some j) :
    ∃ pre v post, Addresses items i pre v post ∧ pre.length = j := by
  have hj : j < items.length := (position_eq_some_iff.1 h).1
  have hlength : (items.take j).length = j := List.length_take_of_le hj.le
  refine ⟨items.take j, items[j], items.drop (j + 1), addresses_iff.2 ⟨?_, ?_⟩, hlength⟩
  · rw [List.cons_getElem_drop_succ, List.take_append_drop]
  · rw [hlength, h]

/-- The window of an index that denotes an item is that item. -/
theorem sliceRanks_of_addresses {items : List Value} {i : Int} {pre post : List Value} {v : Value}
    (h : Addresses items i pre v post) :
    sliceRanks items i i = [v] := by
  obtain ⟨hitems, hindex⟩ := h
  have hlength : items.length = pre.length + (post.length + 1) := by rw [hitems, List.length_append, List.length_cons]
  have hwindow : ZSet.rankWindow items.length i i = some (pre.length, pre.length + 1) := by
    unfold ZSet.rankWindow
    dsimp only
    rcases lt_or_ge i 0 with hneg | hpos
    · rw [if_pos hneg, if_neg (by omega), if_neg (by omega), if_neg (by omega)]
      exact congrArg some (Prod.ext (by dsimp only; omega) (by dsimp only; omega))
    · rw [if_neg (by omega), if_neg (by omega), if_neg (by omega), if_neg (by omega)]
      exact congrArg some (Prod.ext (by dsimp only; omega) (by dsimp only; omega))
  rw [sliceRanks, hwindow, hitems]
  simp [List.take_append]

/-- The window of an index that denotes none is empty. -/
theorem sliceRanks_of_position_none {items : List Value} {i : Int} (h : position items.length i = none) :
    sliceRanks items i i = [] := by
  have hbound : i < -(items.length : Int) ∨ (items.length : Int) ≤ i := by
    unfold position at h
    dsimp only at h
    split_ifs at h <;> omega
  have hwindow : ZSet.rankWindow items.length i i = none := by
    unfold ZSet.rankWindow
    dsimp only
    rcases hbound with hlow | hhigh
    · rw [if_pos (show i < 0 by omega), if_pos (show i + items.length < 0 by omega), if_pos (by omega)]
    · rw [if_neg (show ¬i < 0 by omega), if_neg (show ¬i < 0 by omega), if_pos (by omega)]
  rw [sliceRanks, hwindow]

/-! ## The commands -/

theorem steps_LRANGE (h : s.value (.bytes key) = some lst.obj) (start stop : Int) :
    Steps ctx ks s (LRANGE (.bytes key) start stop) (.ok (.values (sliceRanks lst.items start stop))) s :=
  (steps_list (o := some lst) (purges_of_value h) h).bind (.pure _)

theorem steps_LINDEX (h : s.value (.bytes key) = some lst.obj) (i : Int) :
    Steps ctx ks s (LINDEX (.bytes key) i)
      (.ok ((((position lst.items.length i).bind (lst.items[·]?)).map Reply.ofValue).getD .NIL)) s :=
  (steps_list (o := some lst) (purges_of_value h) h).bind (.pure _)

/-- A change of a list that leaves items is a list left there. -/
theorem Content.change_eq_leave (h : s.value (.bytes key) = some lst.obj) {l : ListRef} (hne : l.items ≠ []) :
    s.change (.bytes key) l.obj = s.leave (.bytes key) l := by
  rw [leave_of_ne s _ hne, update_eq_change h]

theorem steps_LTRIM (hevent : ctx.EventReturns .ltrim) (h : s.value (.bytes key) = some lst.obj) (start stop : Int) :
    ∃ isDeque, Steps ctx ks s (LTRIM (.bytes key) start stop) (.ok .OK)
      (s.leave (.bytes key) ⟨isDeque, sliceRanks lst.items start stop⟩) := by
  have hpurges : ctx.Purges ks s key := purges_of_value h
  have hlist := steps_list (o := some lst) hpurges h
  unfold sliceRanks
  cases hwindow : ZSet.rankWindow lst.items.length start stop with
  | none =>
    refine ⟨true, hlist.bind ?_⟩
    dsimp only
    rw [hwindow, Content.leave_empty s _ rfl]
    exact (steps_remove key).bind (.pure _)
  | some w =>
    obtain ⟨i, j⟩ := w
    obtain ⟨hlt, hle⟩ := ZSet.rankWindow_some hwindow
    have hne : (lst.items.take j).drop i ≠ [] := by
      intro hnil
      rw [List.drop_eq_nil_iff, List.length_take] at hnil
      omega
    by_cases hall : i = 0 ∧ j = lst.items.length
    · refine ⟨lst.isDeque, hlist.bind ?_⟩
      dsimp only
      rw [hwindow]
      have hitems : (lst.items.take j).drop i = lst.items := by rw [hall.1, hall.2, List.take_length, List.drop_zero]
      rw [hitems, Content.leave_self h (hitems ▸ hne)]
      exact (steps_after_write hevent).bind (.if_pos hall (.pure _))
    · refine ⟨true, hlist.bind ?_⟩
      dsimp only
      rw [hwindow, Content.leave_of_ne s _ hne]
      exact (steps_after_write hevent).bind (.if_neg hall ((steps_data_set key _).bind (.pure _)))

theorem steps_LSET (hevent : ctx.EventReturns .lset) (h : s.value (.bytes key) = some lst.obj) {i : Int}
    {pre post : List Value} {v : Value}
    (hi : Addresses lst.items i pre v post) (w : Value) :
    Steps ctx ks s (LSET (.bytes key) i w) (.ok .OK) (s.leave (.bytes key) ⟨lst.isDeque, pre ++ w :: post⟩) := by
  obtain ⟨hitems, hposition⟩ := addresses_iff.1 hi
  have hset : lst.items.set pre.length w = pre ++ w :: post := by
    rw [hitems, List.set_append_right _ _ le_rfl, Nat.sub_self, List.set_cons_zero]
  refine (steps_list (o := some lst) (purges_of_value h) h).bind ?_
  dsimp only
  rw [hposition]
  dsimp only
  rw [hset, ← Content.change_eq_leave (l := ⟨lst.isDeque, pre ++ w :: post⟩) h (by simp)]
  exact (steps_store_value _ _).bind ((steps_after_write hevent).bind (.pure _))

theorem steps_LSET_error (h : s.value (.bytes key) = some lst.obj) {i : Int} (hi : position lst.items.length i = none)
    (w : Value) :
    Steps ctx ks s (LSET (.bytes key) i w) (.error (.error .INDEX_RANGE)) s := by
  refine (steps_list (o := some lst) (purges_of_value h) h).bind ?_
  dsimp only
  rw [hi]
  exact .raise _

theorem steps_pop_notify {left : Bool} (h : ctx.Tells (if left then .lpop else .rpop) (s.lookup (.bytes key) = none)) :
    Steps ctx ks s (_pop_notify (.bytes key) left) (.ok ()) s := by
  refine (steps_after_write h.1).bind ((steps_is_live key).bind (.ite (fun hgone => steps_notify (h.2 ?_)) fun _ => .pure ()))
  simpa using hgone

theorem steps_pop_notify_error {left : Bool} (h : ¬ctx.Tells (if left then .lpop else .rpop) (s.lookup (.bytes key) = none)) :
    Steps ctx ks s (_pop_notify (.bytes key) left) (.error .other) s := by
  by_cases hpop : ctx.EventReturns (if left then .lpop else .rpop)
  · obtain ⟨hgone, hdel⟩ := Classical.not_imp.1 fun hdel => h ⟨hpop, hdel⟩
    refine (steps_after_write hpop).bind ((steps_is_live key).bind (.if_pos ?_ (steps_notify_error hdel)))
    rw [hgone]
    rfl
  · exact (steps_after_write_error hpop).bind_error

/-- A list that has become empty is dropped. -/
theorem steps_drop_empty (h : s.value (.bytes key) = some lst.obj) (l : ListRef) :
    Steps ctx ks (s.change (.bytes key) l.obj) (_drop_empty (.bytes key) l.items) (.ok ()) (s.leave (.bytes key) l) := by
  by_cases hempty : l.items = []
  · rw [Content.leave_empty s _ hempty, ← Content.erase_change s _ l.obj]
    exact .if_pos hempty ((steps_remove key).bind (.pure ()))
  · rw [Content.change_eq_leave h hempty]
    exact .if_neg hempty (.pure ())

/-- What is left under a key is gone exactly if it is empty. -/
theorem Content.lookup_leave (s : Content F) (key : Value) (l : ListRef) : (s.leave key l).lookup key = none ↔ l.items = [] := by
  unfold leave update
  split
  · exact iff_of_true (Finmap.lookup_erase ..) ‹_›
  · rw [Finmap.lookup_insert]
    exact iff_of_false nofun ‹_›

/-- Pops in place leave the rest of the list, and return if they can be told. -/
theorem steps_popInPlace_told (h : s.value (.bytes key) = some lst.obj) (n : Nat) {left : Bool}
    (hkind : lst.isDeque = true ∨ left = false)
    {out : Except (Exc Errors) Unit}
    (hnotify : Steps ctx ks (s.leave (.bytes key) ⟨lst.isDeque, (popped lst.items n left).2⟩) (_pop_notify (.bytes key) left) out
      (s.leave (.bytes key) ⟨lst.isDeque, (popped lst.items n left).2⟩)) :
    Steps ctx ks s (popInPlace (.bytes key) lst n left) (out.map fun _ => (popped lst.items n left).1)
      (s.leave (.bytes key) ⟨lst.isDeque, (popped lst.items n left).2⟩) := by
  have hneed : Steps ctx ks s (needDeque lst left : K F Unit) (.ok ()) s :=
    .if_neg (by rcases hkind with h | h <;> simp [h]) (.pure ())
  refine hneed.bind ((steps_store_value _ _).bind ?_)
  refine (steps_drop_empty h ⟨lst.isDeque, (popped lst.items n left).2⟩).bind ?_
  cases out with
  | error e => exact hnotify.bind_error
  | ok _ => exact hnotify.bind (.pure _)

theorem steps_popInPlace (h : s.value (.bytes key) = some lst.obj) (n : Nat) {left : Bool}
    (hkind : lst.isDeque = true ∨ left = false)
    (htold : ctx.Tells (if left then .lpop else .rpop) ((popped lst.items n left).2 = [])) :
    Steps ctx ks s (popInPlace (.bytes key) lst n left) (.ok (popped lst.items n left).1)
      (s.leave (.bytes key) ⟨lst.isDeque, (popped lst.items n left).2⟩) :=
  steps_popInPlace_told h n hkind (steps_pop_notify ⟨htold.1, fun hgone => htold.2 ((Content.lookup_leave ..).1 hgone)⟩)

theorem steps_popInPlace_untold (h : s.value (.bytes key) = some lst.obj) (n : Nat) {left : Bool}
    (hkind : lst.isDeque = true ∨ left = false)
    (huntold : ¬ctx.Tells (if left then .lpop else .rpop) ((popped lst.items n left).2 = [])) :
    Steps ctx ks s (popInPlace (.bytes key) lst n left) (.error .other)
      (s.leave (.bytes key) ⟨lst.isDeque, (popped lst.items n left).2⟩) :=
  steps_popInPlace_told h n hkind
    (steps_pop_notify_error fun htold => huntold ⟨htold.1, fun hnil => htold.2 ((Content.lookup_leave ..).2 hnil)⟩)

/-- A plain list has nothing to pop from its head with. -/
theorem steps_popInPlace_error (h : lst.isDeque = false) (n : Nat) :
    Steps ctx ks s (popInPlace (.bytes key) lst n true) (.error .other) s :=
  .bind_error (.if_pos ⟨rfl, by rw [h]; rfl⟩ (.raise _))

theorem steps_pop {out : Except (Exc Errors) (List Value)} {s' : Content F} (h : s.value (.bytes key) = some lst.obj)
    {n : Int} (hn : 1 ≤ n)
    (hne : lst.items ≠ []) {left : Bool}
    (hpop : Steps ctx ks s (popInPlace (.bytes key) lst (min n.toNat lst.items.length) left) out s') :
    Steps ctx ks s (_pop (.bytes key) (some n) left) (out.map Reply.values) s' := by
  have hpos : ¬(some n).any (fun c => decide (c < 0)) = true := by
    rw [Option.any_some, decide_eq_true_iff]
    omega
  have hzero : ¬some n = some 0 := by
    rw [Option.some.injEq]
    omega
  unfold _pop
  extract_lets rest
  refine .if_neg hpos ?_
  refine (steps_list (o := some lst) (purges_of_value h) h).bind (.if_neg hzero (.if_neg hne ?_))
  cases out with
  | error e => exact hpop.bind_error
  | ok vals => exact hpop.bind (.pure _)

/-! ## The windows -/

/-- LTRIM leaves what LRANGE shows. -/
def TrimAgrees (ctx : Ctx) (k : KState F) (key : Bytes) (start stop : Int) : Prop :=
  ∃ shown isDeque, Gives (LRANGE (.bytes key) start stop) ctx k (.ok (.values shown)) (k.store.content ctx.clock.mono) ∧
    Gives (LTRIM (.bytes key) start stop) ctx k (.ok .OK) ((k.store.content ctx.clock.mono).leave (.bytes key) ⟨isDeque, shown⟩)

/-- LINDEX replies an item that its index denotes, which is the one LRANGE shows and LSET changes, or nil, and then LRANGE
shows nothing and LSET fails. -/
def IndexAgrees (ctx : Ctx) (k : KState F) (key : Bytes) (items : List Value) (i : Int) : Prop :=
  (∃ pre v post, Addresses items i pre v post ∧
      Gives (LINDEX (.bytes key) i) ctx k (.ok (.ofValue v)) (k.store.content ctx.clock.mono) ∧
      Gives (LRANGE (.bytes key) i i) ctx k (.ok (.values [v])) (k.store.content ctx.clock.mono) ∧
      ∀ w, ∃ isDeque, Gives (LSET (.bytes key) i w) ctx k (.ok .OK)
        ((k.store.content ctx.clock.mono).leave (.bytes key) ⟨isDeque, pre ++ w :: post⟩)) ∨
    ((∀ pre v post, ¬Addresses items i pre v post) ∧
      Gives (LINDEX (.bytes key) i) ctx k (.ok .NIL) (k.store.content ctx.clock.mono) ∧
      Gives (LRANGE (.bytes key) i i) ctx k (.ok (.values [])) (k.store.content ctx.clock.mono) ∧
      ∀ w, Gives (LSET (.bytes key) i w) ctx k (.error (.error .INDEX_RANGE)) (k.store.content ctx.clock.mono))

/-- LPOP takes what LRANGE shows from the head, and RPOP the last items in the other order. What they leave is the rest. -/
def PopAgrees (ctx : Ctx) (k : KState F) (key : Bytes) (items : List Value) (n : Int) : Prop :=
  (∃ shown rest isDeque, items = shown ++ rest ∧
      Gives (LRANGE (.bytes key) 0 (n - 1)) ctx k (.ok (.values shown)) (k.store.content ctx.clock.mono) ∧
      Gives (LPOP (.bytes key) (some n)) ctx k (.ok (.values shown))
        ((k.store.content ctx.clock.mono).leave (.bytes key) ⟨isDeque, rest⟩)) ∧
    ∃ rest last isDeque, items = rest ++ last ∧ (last.length : Int) = min n items.length ∧
      Gives (RPOP (.bytes key) (some n)) ctx k (.ok (.values last.reverse))
        ((k.store.content ctx.clock.mono).leave (.bytes key) ⟨isDeque, rest⟩)

theorem trimAgrees (hevent : ctx.EventReturns .ltrim) (h : (k.store.content ctx.clock.mono).value (.bytes key) = some lst.obj)
    (start stop : Int) :
    TrimAgrees ctx k key start stop := by
  obtain ⟨isDeque, htrim⟩ := steps_LTRIM hevent h start stop
  exact ⟨_, isDeque, (steps_LRANGE h start stop).gives (.none k), htrim.gives (.none k)⟩

theorem indexAgrees (hevent : ctx.EventReturns .lset) (h : (k.store.content ctx.clock.mono).value (.bytes key) = some lst.obj)
    (i : Int) :
    IndexAgrees ctx k key lst.items i := by
  have hindex : Gives (LINDEX (.bytes key) i) ctx k _ _ := (steps_LINDEX h i).gives (.none k)
  have hrange : Gives (LRANGE (.bytes key) i i) ctx k _ _ := (steps_LRANGE h i i).gives (.none k)
  cases hposition : position lst.items.length i with
  | none =>
    right
    rw [hposition] at hindex
    rw [sliceRanks_of_position_none hposition] at hrange
    refine ⟨fun pre v post haddr => ?_, hindex, hrange, fun w => (steps_LSET_error h hposition w).gives (.none k)⟩
    rw [(addresses_iff.1 haddr).2] at hposition
    cases hposition
  | some j =>
    left
    obtain ⟨pre, v, post, haddr, rfl⟩ := exists_addresses hposition
    have hitem : lst.items[pre.length]? = some v := by
      rw [haddr.1, List.getElem?_append_right le_rfl, Nat.sub_self]
      rfl
    rw [hposition, Option.bind_some, hitem] at hindex
    rw [sliceRanks_of_addresses haddr] at hrange
    exact ⟨pre, v, post, haddr, hindex, hrange, fun w => ⟨lst.isDeque, (steps_LSET hevent h haddr w).gives (.none k)⟩⟩

theorem popAgrees (hevent : ctx.EventReturns .lpop) (hdel : ctx.EventReturns .del)
    (h : (k.store.content ctx.clock.mono).value (.bytes key) = some lst.obj) (hdeque : lst.isDeque = true)
    (hne : lst.items ≠ []) {n : Int}
    (hn : 1 ≤ n) : PopAgrees ctx k key lst.items n := by
  have htold (left : Bool) (gone : Prop) : ctx.Tells (if left then .lpop else .rpop) gone := by
    refine ⟨?_, fun _ => hdel⟩
    split
    · exact hevent
    · exact (Ctx.eventReturns_congr rfl).1 hevent
  have hpop := fun left : Bool =>
    (steps_pop h hn hne (steps_popInPlace h _ (show lst.isDeque = true ∨ left = false from .inl hdeque) (htold left _))).gives
      (.none k)
  have hrange : Gives (LRANGE (.bytes key) 0 (n - 1)) ctx k _ _ := (steps_LRANGE h 0 (n - 1)).gives (.none k)
  obtain ⟨m, rfl⟩ := Int.eq_ofNat_of_zero_le (show 0 ≤ n by omega)
  have htake : lst.items.take (min m lst.items.length) = lst.items.take m := List.take_eq_take_iff.2 (by omega)
  rw [sliceRanks_first lst.items (show 0 < m by omega), ← htake] at hrange
  refine ⟨⟨_, _, lst.isDeque, (List.take_append_drop _ _).symm, hrange, hpop true⟩, ?_⟩
  refine ⟨_, _, lst.isDeque, (List.take_append_drop _ _).symm, ?_, hpop false⟩
  rw [List.length_drop]
  omega

/-- From an empty list and from a plain one LPOP does not pop. -/
theorem not_popAgrees (h : (k.store.content ctx.clock.mono).value (.bytes key) = some lst.obj)
    (hlst : lst.isDeque = false ∨ lst.items = []) :
    ¬PopAgrees ctx k key lst.items 1 := by
  rintro ⟨⟨shown, rest, isDeque, -, -, hpop⟩, -⟩
  by_cases hne : lst.items = []
  · have hnone : Steps ctx ∅ (k.store.content ctx.clock.mono) (LPOP (.bytes key) (some 1)) (.ok .NIL_ARRAY)
        ((k.store.content ctx.clock.mono).erase (.bytes key)) :=
      (steps_list (o := some lst) (purges_of_value h) h).bind
        (.if_neg (by decide) (.if_pos hne ((steps_remove key).bind (.pure _))))
    cases (hpop.unique (hnone.gives (.none k))).1
  · have hfail := (steps_pop h le_rfl hne (steps_popInPlace_error (hlst.resolve_right hne) _)).gives (.none k)
    cases (hpop.unique hfail).1

/-- The windows of a list agree: LTRIM, LINDEX, LSET and the pops go by what LRANGE shows. -/
structure WindowsAgree (ctx : Ctx) (k : KState F) (key : Bytes) (items : List Value) : Prop where
  trim : ∀ start stop, TrimAgrees ctx k key start stop
  index : ∀ i, IndexAgrees ctx k key items i
  pop : ∀ n, 1 ≤ n → PopAgrees ctx k key items n

/-- LPOP does not pop when its events cannot be published. -/
theorem told_of_popAgrees (h : (k.store.content ctx.clock.mono).value (.bytes key) = some lst.obj) (hdeque : lst.isDeque = true)
    (hne : lst.items ≠ []) {n : Int} (hn : 1 ≤ n) (hagrees : PopAgrees ctx k key lst.items n) :
    ctx.Tells .lpop (lst.items.drop (min n.toNat lst.items.length) = []) := by
  by_contra huntold
  obtain ⟨⟨shown, rest, isDeque, -, -, hpop⟩, -⟩ := hagrees
  have hfail := (steps_pop h hn hne
    (steps_popInPlace_untold h _ (show lst.isDeque = true ∨ true = false from .inl hdeque) huntold)).gives (.none k)
  cases (hpop.unique hfail).1

end Kagni
