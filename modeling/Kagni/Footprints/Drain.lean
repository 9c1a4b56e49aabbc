import Kagni.Lemmas.Drain
import Mathlib.Order.CompletePartialOrder

/-!
# The commands that empty a collection

Each drops the key of a collection it emptied before it ends, and raises before it takes something out or not at all.
-/

namespace Kagni

open Lib Lib.Prog

variable {F : Type} {ctx : Ctx} {key : Value} {now : Clock}

/-! ## Lists -/

/-- A list of the store is a `deque` of byte strings with something in it. -/
theorem list_of_collections {l : ListRef} (h : (Discipline.collections now).obj (F := F) l.obj) :
    l.isDeque = true ∧ (∀ v ∈ l.items, v.IsBytes) ∧ l.items ≠ [] := by
  obtain ⟨isDeque, items⟩ := l
  cases isDeque with
  | false => exact absurd rfl (h.1 items)
  | true => exact ⟨rfl, h.1, h.2 trivial⟩

/-- A deque of byte strings that is not empty may be stored. -/
theorem deque_of_collections {t : Clock} {l : ListRef} (hl : l.isDeque = true) {items : List Value}
    (h : ∀ v ∈ items, v.IsBytes) (hne : items ≠ []) :
    (Discipline.collections t).obj (F := F) (ListRef.obj { l with items := items }) := by
  obtain ⟨isDeque, old⟩ := l
  cases hl
  exact ⟨h, fun _ => hne⟩

/-- A deque has both ends. -/
theorem needDeque_deque {l : ListRef} (hl : l.isDeque = true) (left : Bool) : (needDeque l left : K F Unit) = pure () := by
  rw [needDeque, if_neg (by simp [hl])]

section Lists

variable (hkey : key.IsBytes)
include hkey

/-- The event of a pop stores nothing. -/
theorem collects_pop_notify (left : Bool) : Collects ctx (_pop_notify key left : K F Unit) fun _ => True :=
  Disciplined.collects (S := ∅) (disciplined_pop_notify trivial hkey left)

/-- A pop leaves a list with an item, or drops the key with it. -/
theorem collects_popInPlace {lst : ListRef} (hl : (Discipline.collections ctx.clock).obj (F := F) lst.obj)
    (n : Nat) (left : Bool) :
    Collects ctx (popInPlace key lst n left : K F _) fun _ => True := by
  obtain ⟨hdeque, hitems, -⟩ := list_of_collections hl
  have hrest : ∀ v ∈ (popped lst.items n left).2, v.IsBytes := fun v hv => hitems v (popped_snd_sub hv)
  unfold popInPlace
  rw [needDeque_deque hdeque, pure_bind]
  refine collects_store_value (c := (popped lst.items n left).2 = []) (fun hne => deque_of_collections hdeque hrest hne) ?_
  refine (closes_drop hkey).bind ?_
  intro _ _
  exact (collects_pop_notify hkey left).bind fun _ _ => .pure trivial

/-- LPOP and RPOP leave no empty list. -/
theorem collects_pop (count : Option Int) (left : Bool) : Collects ctx (_pop key count left : K F Reply) fun _ => True := by
  unfold _pop
  refine collects_check fun _ => ?_
  refine (looks_collects (S := ∅) (looks_list trivial)).bind ?_
  intro o ho
  cases o with
  | none => exact .pure trivial
  | some lst =>
    obtain ⟨-, hl⟩ := ho lst rfl
    refine .ite (fun _ => .pure trivial) ?_
    intro _
    refine .ite (fun hnil => absurd hnil (list_of_collections hl).2.2) ?_
    intro _
    cases count with
    | none =>
      refine (collects_popInPlace hkey hl 1 left).bind ?_
      intro vals _
      split
      · exact .pure trivial
      · exact .raise
    | some count => exact (collects_popInPlace hkey hl _ left).bind fun _ _ => .pure trivial

end Lists

theorem collects_lmpopLoop {keys : List Value} (hkeys : ∀ key ∈ keys, key.IsBytes) (count : Int) (from_left : Bool) :
    Collects ctx (lmpopLoop count from_left keys : K F Reply) fun _ => True := by
  induction keys with
  | nil => exact .pure trivial
  | cons key keys ih =>
    obtain ⟨hkey, hkeys⟩ := List.forall_mem_cons.1 hkeys
    refine (looks_collects (S := ∅) (looks_list trivial)).bind ?_
    intro o ho
    cases o with
    | none => exact ih hkeys
    | some lst =>
      obtain ⟨-, hl⟩ := ho lst rfl
      refine .ite (fun hnil => absurd hnil (list_of_collections hl).2.2) fun _ => ?_
      exact (collects_popInPlace hkey hl _ from_left).bind fun _ _ => .pure trivial

/-- Nor LMPOP. -/
theorem collects_LMPOP {rest : List Value} (hrest : ∀ v ∈ rest, v.IsBytes) (numkeys : Int) :
    Collects ctx (LMPOP numkeys rest : K F Reply) fun _ => True := by
  unfold LMPOP
  refine collects_check fun _ => ?_
  split
  · exact Triple.raise fun _ hs => hs
  · rename_i side options _
    refine (computes_collects (computes_list_side side)).bind ?_
    intro _ _
    refine (computes_collects (computes_lmpopOptions options)).bind ?_
    intro _ _
    exact collects_lmpopLoop (fun key hk => hrest key (List.mem_of_mem_take hk)) _ _

/-- What a move does once the value has left the source: the source is dropped if it is another key and empty. -/
theorem closes_move_end (hquiet : ctx.Quiet) {source destination value : Value} (hsource : source.IsBytes)
    (hdestination : destination.IsBytes) {rest : List Value} (e e' : Event) :
    Closes ctx source (destination ≠ source ∧ rest = []) (do
      _after_write destination e
      _after_write source e'
      if destination ≠ source ∧ rest = [] then
        let _ ← data_remove source
        _notify source .del
      return .ofValue value : K F Reply) fun _ => True := by
  refine (mute_after_write hquiet hdestination e).closes ?_
  intro _ _
  refine (mute_after_write hquiet hsource e').closes ?_
  intro _ _
  refine .ite (fun _ => ?_) fun hc => .of_collects hc (.pure trivial)
  refine (closes_remove hsource _).bind ?_
  intro _ _
  exact (keeping_notify source .del).bind fun _ _ => .pure trivial

/-- A move leaves no empty list where its events return. -/
theorem collects_move (hquiet : ctx.Quiet) {source destination : Value} (hsource : source.IsBytes)
    (hdestination : destination.IsBytes)
    (from_left to_left : Bool) : Collects ctx (_move source destination from_left to_left : K F Reply) fun _ => True := by
  refine (looks_collects (S := ∅) (looks_list trivial)).bind ?_
  intro o ho
  cases o with
  | none => exact .pure trivial
  | some src =>
    obtain ⟨-, hl⟩ := ho src rfl
    obtain ⟨hdeque, hitems, hne⟩ := list_of_collections hl
    refine .ite (fun hnil => absurd hnil hne) fun _ => ?_
    have hdst : Collects ctx (if destination = source then pure (some src) else _list destination : K F (Option ListRef)) fun o =>
        ∀ l, o = some l → (Discipline.collections ctx.clock).obj (F := F) l.obj := by
      refine .ite (fun _ => .pure fun l h => Option.some.inj h ▸ hl) fun _ => ?_
      exact (looks_collects (S := ∅) (looks_list trivial)).weaken fun o ho l h => (ho l h).2
    refine hdst.bind ?_
    intro dst hdst
    rw [needDeque_deque hdeque, pure_bind]
    split
    · rename_i value rest hpopped
      have hvalue : value.IsBytes := hitems value (popped_fst_sub (show value ∈ (popped _ 1 from_left).1 by rw [hpopped]; simp))
      have hrest : ∀ v ∈ rest, v.IsBytes :=
        fun v hv => hitems v (popped_snd_sub (show v ∈ (popped _ 1 from_left).2 by rw [hpopped]; exact hv))
      refine collects_store_value (c := rest = []) (fun hne => deque_of_collections hdeque hrest hne) ?_
      cases dst with
      | none =>
        have hobj : (Discipline.collections ctx.clock).obj (F := F) (.deque [value]) :=
          ⟨fun v hv => List.mem_singleton.1 hv ▸ hvalue, fun _ => List.cons_ne_nil _ _⟩
        exact closes_setitem hdestination hobj (closes_move_end hquiet hsource hdestination _ _)
      | some dst =>
        obtain ⟨hdeque', hitems', -⟩ := list_of_collections (hdst dst rfl)
        have hitems'' : ∀ v ∈ pushed (if destination = source then rest else dst.items) [value] to_left, v.IsBytes := by
          intro v hv
          rcases mem_pushed.1 hv with hv | hv
          · split at hv
            · exact hrest v hv
            · exact hitems' v hv
          · rw [List.mem_singleton.1 hv]
            exact hvalue
        have hobj := deque_of_collections (F := F) (t := ctx.clock) hdeque' hitems''
          (List.ne_nil_of_mem (mem_pushed.2 (.inr (List.mem_singleton_self value))))
        simp only [needDeque_deque hdeque', pure_bind]
        exact closes_store_other hobj (closes_move_end hquiet hsource hdestination _ _)
    · exact Triple.raise fun _ hs => hs

/-! ## Sets -/

/-- A set of byte strings that is not empty may be stored. -/
theorem set_of_collections {s : OrdSet Value} (helems : (Discipline.collections now).elems s) (hne : s.elems ≠ []) :
    (Discipline.collections now).obj (F := F) (.set s) := ⟨helems, fun _ => hne⟩

/-- Byte strings can be members. -/
theorem needHashes_bytes {vals : List Value} (h : ∀ v ∈ vals, v.IsBytes) : (needHashes vals : K F Unit) = pure () := by
  rw [needHashes, if_pos (List.all_eq_true.2 fun v hv => (h v hv).hashable)]

/-- SREM leaves no empty set where its events return. -/
theorem collects_SREM (hquiet : ctx.Quiet) (hkey : key.IsBytes) {vals : List Value} (hvals : ∀ v ∈ vals, v.IsBytes) :
    Collects ctx (SREM key vals : K F Reply) fun _ => True := by
  refine (computes_collects (computes_assert_keys vals .SREM)).bind ?_
  intro _ _
  refine (looks_collects (S := ∅) (looks_set trivial)).bind ?_
  intro o ho
  cases o with
  | none => exact .pure trivial
  | some cur =>
    obtain ⟨-, helems, -⟩ := ho cur rfl
    have hleft := elems_sremLoop (hashables vals) helems 0
    dsimp only
    refine collects_store_value (c := (sremLoop (hashables vals) cur 0).1.elems = []) (set_of_collections hleft) ?_
    rw [needHashes_bytes hvals, pure_bind]
    have hend : Closes ctx key ((sremLoop (hashables vals) cur 0).1.elems = [])
      (if (sremLoop (hashables vals) cur 0).1.elems = [] then
        data_remove key >>= fun _ => (if (sremLoop (hashables vals) cur 0).2 ≠ 0 then _notify key .del >>= fun _ =>
          pure (.int (sremLoop (hashables vals) cur 0).2) else pure (.int (sremLoop (hashables vals) cur 0).2))
        else pure (.int (sremLoop (hashables vals) cur 0).2) : K F Reply) fun _ => True := by
      refine .ite (fun _ => (closes_remove hkey _).bind fun _ _ => .ite (fun _ => ?_) fun _ => .pure trivial) fun hc =>
        .of_collects hc (.pure trivial)
      exact (keeping_notify key .del).bind fun _ _ => .pure trivial
    exact .ite (fun _ => (mute_after_write hquiet hkey .srem).closes fun _ _ => hend) fun _ => hend

theorem collects_SMOVE (hquiet : ctx.Quiet) {source target val : Value} (hsource : source.IsBytes) (htarget : target.IsBytes) :
    Collects ctx (SMOVE source target val : K F Reply) fun _ => True := by
  refine (looks_collects (S := ∅) (looks_set trivial)).bind ?_
  intro src hsrc
  cases src with
  | none => exact .pure trivial
  | some src =>
    obtain ⟨-, helems, -⟩ := hsrc src rfl
    refine (computes_collects (computes_needHash val)).bind ?_
    intro _ _
    refine .ite (fun _ => .pure trivial) ?_
    intro hin
    have hval : val.IsBytes := helems val (not_not.1 hin)
    have hsrc' := Discipline.elems_erase helems val
    refine (looks_collects (S := ∅) (looks_set trivial)).bind ?_
    intro dst hdst
    refine collects_store_value (c := (src.erase val).elems = []) (set_of_collections hsrc') ?_
    have hend : Closes ctx source (target ≠ source ∧ (src.erase val).elems = []) (do
        let src'' := if source = target then (src.erase val).insert val else src.erase val
        _after_write source .srem
        if src''.elems = [] then
          let _ ← data_remove source
          _notify source .del
        _after_write target .sadd
        return .int 1 : K F Reply) fun _ => True := by
      have htail : Collects ctx (_after_write target .sadd >>= fun _ => pure (.int 1) : K F Reply) fun _ => True :=
        (Disciplined.collects (S := ∅) (disciplined_after_write htarget .sadd)).bind fun _ _ => .pure trivial
      refine (mute_after_write hquiet hsource .srem).closes ?_
      intro _ _
      refine .ite (fun _ => ?_) fun hc => ?_
      · refine (closes_remove hsource _).bind ?_
        intro _ _
        exact (keeping_notify source .del).bind fun _ _ => htail
      · refine .of_collects ?_ htail
        rintro ⟨hne, hnil⟩
        rw [if_neg (Ne.symm hne)] at hc
        exact hc hnil
    have hne : ∀ s : OrdSet Value, (s.insert val).elems ≠ [] :=
      fun s => List.ne_nil_of_mem ((OrdSet.mem_insert s val val).2 (.inl rfl))
    cases dst with
    | none =>
      have hobj := set_of_collections (F := F) (Discipline.elems_insert (Discipline.collections ctx.clock).elems_empty hval)
        (hne _)
      exact closes_setitem htarget hobj hend
    | some dst =>
      obtain ⟨-, hdelems, -⟩ := hdst dst rfl
      have hbase : (Discipline.collections ctx.clock).elems (if source = target then src.erase val else dst) := by
        split
        · exact hsrc'
        · exact hdelems
      exact closes_store_other (set_of_collections (Discipline.elems_insert hbase hval) (hne _)) hend

/-- Taking fewer members than there are leaves one. -/
theorem collects_popMembers {cur : OrdSet Value} (helems : (Discipline.collections ctx.clock).elems cur) {count : Nat}
    (hcount : count < cur.card) : Collects ctx (popMembers key count cur : K F _) fun _ => True := by
  induction count generalizing cur with
  | zero => exact .pure trivial
  | succ count ih =>
    refine Keeps.bind (Q := fun p => (Discipline.collections ctx.clock).elems p.2 ∧ count < p.2.card) ?_ fun p hp =>
      (ih hp.1 hp.2).bind fun _ _ => .pure trivial
    refine (Disciplined.collects (S := ∅) (disciplined_choice cur.elems)).bind ?_
    intro val _
    have hcard := cur.card_erase_le val
    have hrest := Discipline.elems_erase helems val
    have hne : (cur.erase val).elems ≠ [] := fun hnil => by
      have hzero : (cur.erase val).card = 0 := congrArg List.length hnil
      omega
    have hlt : count < (cur.erase val).card := by omega
    refine collects_store_value (c := False) (fun _ => set_of_collections hrest hne) ?_
    exact .of_collects id (.pure ⟨hrest, hlt⟩)

theorem collects_SPOP (hquiet : ctx.Quiet) (hkey : key.IsBytes) (count : Option Int) :
    Collects ctx (SPOP key count : K F Reply) fun _ => True := by
  have hwrite : ∀ event, Collects ctx (_after_write key event : K F Unit) fun _ => True := fun event =>
    Disciplined.collects (S := ∅) (disciplined_after_write hkey event)
  unfold SPOP
  refine collects_check fun _ => ?_
  refine (looks_collects (S := ∅) (looks_set trivial)).bind ?_
  intro o ho
  cases o with
  | none => exact .ite (fun _ => .pure trivial) fun h => absurd rfl h
  | some cur =>
    obtain ⟨-, helems, -⟩ := ho cur rfl
    refine .ite (fun _ => .pure trivial) fun hne => ?_
    have hpos : 0 < cur.card := List.length_pos_of_ne_nil hne
    cases count with
    | none =>
      unfold popMember
      simp only [bind_assoc, pure_bind]
      refine (Disciplined.collects (S := ∅) (disciplined_choice cur.elems)).bind ?_
      intro val _
      refine collects_store_value (c := (cur.erase val).elems = []) (set_of_collections (Discipline.elems_erase helems val)) ?_
      refine (mute_after_write hquiet hkey .spop).closes ?_
      intro _ _
      refine .ite (fun _ => ?_) fun hc => .of_collects hc (.pure trivial)
      refine (closes_remove hkey _).bind ?_
      intro _ _
      exact (keeping_notify key .del).bind fun _ _ => .pure trivial
    | some count =>
      refine .ite (fun _ => .pure trivial) ?_
      intro _
      refine .ite (fun _ => ?_) fun hlt => ?_
      · refine (hwrite .spop).bind ?_
        intro _ _
        refine (keeping_remove key).bind ?_
        intro _ _
        exact (keeping_notify key .del).bind fun _ _ => .pure trivial
      · have hcount : count < cur.card := not_le.1 hlt
        exact (hwrite .spop).bind fun _ _ => (collects_popMembers helems (by omega)).bind fun _ _ => .pure trivial

/-! ## Sorted sets -/

/-- A sorted set of byte strings, with no more scores than members. -/
structure ByteZset (z : ZSet F) : Prop where
  scores : ∀ v ∈ z.scores.keys, v.IsBytes
  sorted : z.BytesOnly
  tight : z.Tight

/-- A sorted set of byte strings with a member may be stored. -/
theorem ByteZset.obj {z : ZSet F} (h : ByteZset z) (hne : z.sorted ≠ []) : (Discipline.collections now).obj (.zset z) :=
  ⟨⟨h.scores, h.sorted⟩, fun _ => ⟨hne, h.tight⟩⟩

/-- What is stored is of byte strings and has a member. -/
theorem byteZset_of_obj {z : ZSet F} (h : (Discipline.collections now).obj (.zset z)) : ByteZset z ∧ z.sorted ≠ [] :=
  ⟨⟨h.1.1, h.1.2, (h.2 trivial).2⟩, (h.2 trivial).1⟩

/-- Its members are permitted. -/
theorem ByteZset.zset {z : ZSet F} (h : ByteZset z) (now : Clock) : (Discipline.collections now).zset z := ⟨h.scores, h.sorted⟩

/-- An empty sorted set has no members to be byte strings. -/
theorem byteZset_empty : ByteZset (.empty : ZSet F) := ⟨nofun, nofun, ZSet.tight_empty⟩

/-- What a removal leaves is of byte strings. -/
theorem ByteZset.of_left {α : Type} {r : Option α × ZSet F} (hr : ZSet.Left r) (h : (Discipline.collections now).zset r.2) :
    ByteZset r.2 :=
  ⟨h.scores, h.sorted, hr.tight⟩

/-- A removal in place: the container it leaves may be empty, unless it raises. -/
theorem closes_inPlace {α : Type} {r : Option α × ZSet F} (hr : ZSet.Left r) (hbytes : ByteZset r.2) {c : Prop}
    {f : α × ZSet F → K F β}
    {R : β → Prop} (hf : ∀ a, Closes ctx key (r.2.sorted = []) (f (a, r.2)) R) : Closes ctx key c (inPlace key r >>= f) R := by
  obtain ⟨out, z⟩ := r
  unfold inPlace
  simp only [bind_assoc, pure_bind]
  refine closes_store_value (b := z.sorted = []) hbytes.obj ?_
  cases out with
  | some a =>
    simp only [orFail, pure_bind]
    exact hf a
  | none => exact .of_collects (hr.raised rfl) (.bind (Q := fun _ => False) .raise fun _ => False.elim)

/-- The end of a removal drops a set that is left empty. -/
theorem closes_afterRemoval (hquiet : ctx.Quiet) (hkey : key.IsBytes) (z : ZSet F) (removed : Nat) (event : Event) :
    Closes ctx key (z.sorted = []) (afterRemoval key z removed event : K F Reply) fun _ => True := by
  have hend : Closes ctx key (z.sorted = []) (dropEmptyZset key z >>= fun _ => pure (.int removed) : K F Reply) fun _ =>
      True := by
    refine Closes.bind (Q := fun _ => True) ?_ fun _ _ => .pure trivial
    refine .ite (fun _ => (closes_remove hkey _).bind fun _ _ => .pure trivial) fun h => .of_collects
      (fun hnil => h ?_) (.pure trivial)
    exact List.length_eq_zero_iff.2 hnil
  exact .ite (fun _ => (mute_after_write hquiet hkey event).closes fun _ _ => hend) fun _ => hend

section Writes

variable [PyFloat F]

/-- The members go in turn, and the key with the last. -/
theorem closes_zremLoop {vals : List Value} (hvals : ∀ v ∈ vals, v.IsBytes) {z : ZSet F} (hz : ByteZset z) (removed : Nat)
    {f : ZSet F × Nat → K F β} {R : β → Prop} (hf : ∀ z n, Closes ctx key (z.sorted = []) (f (z, n)) R) :
    Closes ctx key (z.sorted = []) (zremLoop key vals z removed >>= f) R := by
  induction vals generalizing z removed with
  | nil => exact hf z removed
  | cons member rest ih =>
    obtain ⟨hmember, hrest⟩ := List.forall_mem_cons.1 hvals
    have hleft := ZSet.left_remove hz.tight member hmember.hashable
    have hbytes := ByteZset.of_left hleft (Discipline.zset_remove (hz.zset ctx.clock) member)
    rw [zremLoop, bind_assoc]
    exact closes_inPlace hleft hbytes fun was => ih hrest hbytes _

/-- ZREM leaves no empty sorted set where its events return. -/
theorem collects_ZREM (hquiet : ctx.Quiet) (hkey : key.IsBytes) {vals : List Value} (hvals : ∀ v ∈ vals, v.IsBytes) :
    Collects ctx (ZREM key vals : K F Reply) fun _ => True := by
  unfold ZREM
  refine collects_check fun _ => ?_
  refine (looks_collects (S := ∅) (looks_zset trivial)).bind ?_
  intro o ho
  cases o with
  | none => exact .pure trivial
  | some z =>
    obtain ⟨hz, -⟩ := byteZset_of_obj (ho z rfl).2
    exact (closes_zremLoop hvals hz 0 fun z n => closes_afterRemoval hquiet hkey z n .zrem).collects

omit [PyFloat F] in
/-- A removal of a range. -/
theorem collects_removeRange (hquiet : ctx.Quiet) (hkey : key.IsBytes) {r : Option Nat × ZSet F} (hr : ZSet.Left r)
    (hbytes : ByteZset r.2) (event : Event) : Collects ctx (do
      let (removed, z) ← inPlace key r
      afterRemoval key z removed event : K F Reply) fun _ => True :=
  (closes_inPlace (c := False) hr hbytes fun n => closes_afterRemoval hquiet hkey r.2 n event).collects

omit [PyFloat F] in
theorem collects_ZREMRANGEBYRANK (hquiet : ctx.Quiet) (hkey : key.IsBytes) (start stop : Int) :
    Collects ctx (ZREMRANGEBYRANK key start stop : K F Reply) fun _ => True := by
  refine (looks_collects (S := ∅) (looks_zset trivial)).bind ?_
  intro o ho
  cases o with
  | none => exact .pure trivial
  | some z =>
    obtain ⟨hz, -⟩ := byteZset_of_obj (ho z rfl).2
    have hleft := ZSet.left_remove_rank hz.tight start stop
    exact collects_removeRange hquiet hkey hleft (.of_left hleft (Discipline.zset_remove_rank (hz.zset ctx.clock) start stop)) _

theorem collects_ZREMRANGEBYSCORE (hquiet : ctx.Quiet) (hkey : key.IsBytes) (min_ max_ : Value) :
    Collects ctx (ZREMRANGEBYSCORE key min_ max_ : K F Reply) fun _ => True := by
  refine (computes_collects (computes_score_bound min_)).bind ?_
  intro lo _
  refine (computes_collects (computes_score_bound max_)).bind ?_
  intro hi _
  refine (looks_collects (S := ∅) (looks_zset trivial)).bind ?_
  intro o ho
  cases o with
  | none => exact .pure trivial
  | some z =>
    obtain ⟨hz, -⟩ := byteZset_of_obj (ho z rfl).2
    have hleft := ZSet.left_remove_score hz.tight lo.1 lo.2 hi.1 hi.2
    exact collects_removeRange hquiet hkey hleft (.of_left hleft (Discipline.zset_remove_score (hz.zset ctx.clock) _ _ _ _)) _

omit [PyFloat F] in
theorem collects_ZREMRANGEBYLEX (hquiet : ctx.Quiet) (hkey : key.IsBytes) (min_ max_ : Value) :
    Collects ctx (ZREMRANGEBYLEX key min_ max_ : K F Reply) fun _ => True := by
  refine (computes_collects (computes_lex_bound min_ true)).bind ?_
  intro lo _
  refine (computes_collects (computes_lex_bound max_ false)).bind ?_
  intro hi _
  refine (looks_collects (S := ∅) (looks_zset trivial)).bind ?_
  intro o ho
  cases o with
  | none => exact .pure trivial
  | some z =>
    obtain ⟨hz, -⟩ := byteZset_of_obj (ho z rfl).2
    refine .ite (fun _ => .pure trivial) fun _ => ?_
    have hleft := ZSet.left_remove_member hz.tight lo.1 lo.2.1 hi.1 hi.2.1
    exact collects_removeRange hquiet hkey hleft (.of_left hleft (Discipline.zset_remove_member (hz.zset ctx.clock) _ _ _ _)) _

theorem collects_zpop (hquiet : ctx.Quiet) (hkey : key.IsBytes) (count : Option Int) (left : Bool) :
    Collects ctx (_zpop key count left : K F Reply) fun _ => True := by
  have hend : ∀ (z : ZSet F) event reply, Closes ctx key (z.sorted = []) (do
      _after_write key event
      dropEmptyZset key z
      if !(← is_live key) then _notify key .del
      return reply : K F Reply) fun _ => True := by
    intro z event reply
    refine (mute_after_write hquiet hkey event).closes ?_
    intro _ _
    refine Closes.bind (Q := fun _ => True) ?_ fun _ _ => ?_
    · refine .ite (fun _ => (closes_remove hkey _).bind fun _ _ => .pure trivial) fun h => .of_collects
        (fun hnil => h ?_) (.pure trivial)
      exact List.length_eq_zero_iff.2 hnil
    · refine (keeping_is_live key).bind ?_
      intro live _
      refine .ite (fun _ => ?_) fun _ => .pure trivial
      exact (keeping_notify key .del).bind fun _ _ => .pure trivial
  unfold _zpop
  refine collects_check fun _ => ?_
  refine (looks_collects (S := ∅) (looks_zset trivial)).bind ?_
  intro o ho
  cases o with
  | none => exact .pure trivial
  | some z =>
    obtain ⟨hz, hne⟩ := byteZset_of_obj (ho z rfl).2
    have htake : ∀ (start stop : Int) (taken : List (F × Value)) event reply, Collects ctx ((if taken = [] then pure z else do
        return (← inPlace key (z.remove_rank start stop)).2 : K F (ZSet F)) >>= fun z => do
          _after_write key event
          dropEmptyZset key z
          if !(← is_live key) then _notify key .del
          return reply : K F Reply) fun _ => True := by
      intro start stop taken event reply
      have hleft := ZSet.left_remove_rank hz.tight start stop
      have hbytes := ByteZset.of_left hleft (Discipline.zset_remove_rank (hz.zset ctx.clock) start stop)
      split
      · exact (hend z event reply).collects
      · simp only [bind_assoc, pure_bind]
        exact (closes_inPlace (c := False) hleft hbytes fun _ => hend _ event reply).collects
    refine .ite (fun _ => .pure trivial) fun _ => ?_
    cases left
    · exact htake _ _ _ .zpopmax _
    · exact htake _ _ _ .zpopmin _

/-- Adding a byte string leaves a member behind: it raises only on a container that has one. -/
theorem byteZset_add {z : ZSet F} (hz : ByteZset z) {member : Value} (hmember : member.IsBytes) (score : F)
    (h : z.sorted ≠ [] ∨ z = .empty) : ByteZset (z.add member score).2 ∧ (z.add member score).2.sorted ≠ [] := by
  have hzset := Discipline.zset_add (hz.zset ⟨0, 0⟩) (fun _ => hmember) score
  cases hadd : z.add member score with
  | mk out z' =>
    rw [hadd] at hzset
    cases out with
    | some b =>
      obtain ⟨htight, hne⟩ := ZSet.add_some hz.tight hadd
      exact ⟨⟨hzset.scores, hzset.sorted, htight⟩, hne⟩
    | none =>
      obtain rfl := ZSet.add_none hz.sorted hmember hadd
      refine ⟨hz, h.resolve_right fun hempty => ?_⟩
      subst hempty
      have hinsort : (ZSet.empty.add member score).1 = (ZSet.empty.insort member score).1 := by
        rw [ZSet.add, if_pos hmember.hashable]
        rfl
      rw [hadd] at hinsort
      exact ZSet.insort_ne_none hz.sorted hmember score hinsort.symm

/-- What a write finds under the key: nothing, or a sorted set with a member. -/
def ByteFound (z : Option (ZSet F)) : Prop := ∀ z', z = some z' → ByteZset z' ∧ z'.sorted ≠ []

/-- A member is added to the container under the key, or to one that is made for it. -/
theorem collects_fill (hkey : key.IsBytes) {z : Option (ZSet F)} (hz : ByteFound z) {member : Value}
    (hmember : member.IsBytes) (score : F)
    {f : Bool × ZSet F → K F β} {R : β → Prop} (hf : ∀ p : Bool × ZSet F, ByteZset p.2 → p.2.sorted ≠ [] → Collects ctx (f p) R) :
    Collects ctx (zsetOrNew key z >>= fun z => inPlace key (z.add member score) >>= f) R := by
  have hadd : ∀ {c : Prop} (z : ZSet F), ByteZset z → z.sorted ≠ [] ∨ z = .empty →
      Closes ctx key c (inPlace key (z.add member score) >>= f) R := by
    intro c z hz h
    obtain ⟨hbytes, hne⟩ := byteZset_add hz hmember score h
    unfold inPlace
    simp only [bind_assoc, pure_bind]
    refine closes_store_value (b := False) (fun _ => hbytes.obj hne) (.of_collects id ?_)
    exact (computes_collects (computes_orFail _)).bind fun b _ => hf (b, _) hbytes hne
  cases z with
  | some z =>
    obtain ⟨hbytes, hne⟩ := hz z rfl
    exact (hadd (c := False) z hbytes (.inl hne)).collects
  | none =>
    unfold zsetOrNew _create_zset
    simp only [bind_assoc, pure_bind]
    have hmade : Triple ctx (fun k => (Discipline.collections ctx.clock).Holds k.store) (setitem key (.zset .empty))
        (fun _ (k : KState F) => (Discipline.collections ctx.clock).Pending key True k.store)
        fun _ k => (Discipline.collections ctx.clock).Holds k.store := by
      rw [setitem, needHash, if_pos hkey.hashable, pure_bind]
      refine Triple.modify fun k hk => ⟨fun p hp => ?_, fun h => absurd trivial h⟩
      rcases Dict.mem_entries_set hp with rfl | hp
      · exact ⟨hkey, fun hne => absurd rfl hne⟩
      · exact ⟨(hk p hp).1, fun _ => (hk p hp).2⟩
    exact Triple.bind hmade fun _ => hadd _ byteZset_empty (.inr rfl)

/-- ZADD with INCR stores a set that has a member. -/
theorem collects_zaddIncr (hkey : key.IsBytes) {z : Option (ZSet F)} (hz : ByteFound z) {pair : F × Value}
    (hmember : pair.2.IsBytes)
    (fl : ZaddFlags) : Collects ctx (zaddIncr key fl z pair : K F Reply) fun _ => True := by
  refine (computes_collects (computes_scoreOf z pair.2)).bind ?_
  intro current _
  refine .ite (fun _ => .pure trivial) ?_
  intro _
  refine collects_check fun _ => ?_
  refine .ite (fun _ => .pure trivial) ?_
  intro _
  refine collects_fill hkey hz hmember _ ?_
  intro _ _ _
  exact (Disciplined.collects (S := ∅) (disciplined_after_write hkey .zadd)).bind fun _ _ => .pure trivial

/-- Each pair of ZADD leaves a set with a member. -/
theorem collects_zaddLoop (hkey : key.IsBytes) {pairs : List (F × Value)} (hpairs : ∀ p ∈ pairs, p.2.IsBytes)
    {z : Option (ZSet F)}
    (hz : ByteFound z) (fl : ZaddFlags) (added changed : Nat) :
    Collects ctx (zaddLoop key fl pairs z added changed : K F _) fun _ => True := by
  induction pairs generalizing z added changed with
  | nil => exact .pure trivial
  | cons p rest ih =>
    obtain ⟨hp, hrest⟩ := List.forall_mem_cons.1 hpairs
    have hfound : ∀ z : ZSet F, ByteZset z → z.sorted ≠ [] → ByteFound (some z) :=
      fun z h hne z' e => Option.some.inj e ▸ ⟨h, hne⟩
    refine (computes_collects (computes_scoreOf z p.2)).bind ?_
    intro current _
    cases current with
    | none =>
      refine .ite (fun _ => ih hrest hz _ _) ?_
      intro _
      refine collects_fill hkey hz hp _ ?_
      intro r hr hne
      exact ih hrest (hfound _ hr hne) _ _
    | some current =>
      refine .ite (fun _ => ih hrest hz _ _) fun _ => ?_
      cases z with
      | none => exact Triple.raise fun _ hs => hs
      | some z => exact collects_fill hkey hz hp p.1 fun r hr hne => ih hrest (hfound _ hr hne) _ _

/-- ZADD leaves no empty sorted set. -/
theorem collects_ZADD (hkey : key.IsBytes) {args : List Value} (hargs : ∀ v ∈ args, v.IsBytes) :
    Collects ctx (ZADD key args : K F Reply) fun _ => True := by
  refine (computes_collects (computes_parse_zadd_flags args)).bind ?_
  intro parsed hparsed
  obtain ⟨fl, rest⟩ := parsed
  obtain rfl : rest = args.dropWhile zaddFlag := hparsed
  refine collects_check fun _ => ?_
  refine collects_check fun _ => ?_
  refine collects_check fun _ => ?_
  refine (computes_collects (computes_zaddPairs _)).bind ?_
  intro pairs hpairs
  refine (looks_collects (S := ∅) (looks_zset trivial)).bind ?_
  intro z hz
  have hfound : ByteFound z := fun z' h => byteZset_of_obj (hz z' h).2
  have hmembers : ∀ p ∈ pairs, p.2.IsBytes := fun p hp =>
by
    obtain ⟨q, hq, hqp⟩ := List.mem_map.1 (hpairs p hp).2
    exact hqp ▸ hargs q.2 ((List.dropWhile_suffix _).subset (mem_of_mem_pairsOf hq).2)
  refine .ite (fun _ => .pure trivial) fun _ => ?_
  split
  · exact collects_zaddIncr hkey hfound (hmembers _ (by simp)) fl
  · exact Triple.raise fun _ hs => hs
  · refine (collects_zaddLoop hkey hmembers hfound fl 0 0).bind ?_
    intro r _
    refine .ite (fun _ => ?_) fun _ => .pure trivial
    exact (Disciplined.collects (S := ∅) (disciplined_after_write hkey .zadd)).bind fun _ _ => .pure trivial

theorem collects_ZINCRBY (hkey : key.IsBytes) {member : Value} (hmember : member.IsBytes) (increment : Value) :
    Collects ctx (ZINCRBY key increment member : K F Reply) fun _ => True := by
  refine (computes_collects (computes_floatArg _ increment)).bind ?_
  intro increment _
  refine (looks_collects (S := ∅) (looks_zset trivial)).bind ?_
  intro z hz
  have hfound : ByteFound z := fun z' h => byteZset_of_obj (hz z' h).2
  refine (computes_collects (computes_scoreOf z member)).bind ?_
  intro current _
  refine collects_check fun _ => ?_
  refine collects_fill hkey hfound hmember _ ?_
  intro _ _ _
  exact (Disciplined.collects (S := ∅) (disciplined_after_write hkey .zincr)).bind fun _ _ => .pure trivial

/-! ## The commands -/

/-- A program that keeps the collections nonempty, as the primitive of a method. -/
def Keeper (ctx : Ctx) : Leaf Unit Ctx (KState F) (Exc Errors) := fun _ _ m Q _ => Collects ctx m Q

omit [PyFloat F] in
/-- A program built of such steps is one. -/
theorem collects_of_built {m : K F α} {Q : α → Prop} (h : Built (Keeper ctx) () m Q) : Collects ctx m Q :=
  Built.triple (I := fun _ (k : KState F) => (Discipline.collections ctx.clock).Holds k.store) (fun _ _ hk => hk) (fun h => h) h

omit [PyFloat F] in
theorem built_collects {m : K F α} {Q : α → Prop} (h : Collects ctx m Q) : Built (Keeper ctx) () m Q := .leaf h le_rfl

omit [PyFloat F] in
/-- An integer argument is read first. -/
theorem collects_int {v : Value} {f : Int → K F α} {Q : α → Prop} (h : ∀ n, Collects ctx (f n) Q) :
    Collects ctx (intArg v >>= f) Q :=
  (computes_collects (computes_intArg v)).bind fun n _ => h n

/-- Every argument is a byte string. -/
def AllBytes (args : List Value) : Prop := ∀ v ∈ args, v.IsBytes

/-- The commands that leave a collection empty for a moment. -/
theorem collects_drain (hquiet : ctx.Quiet) {c : Cmd} {method : List Value → K F Reply} (h : handler c = .keyspace method)
    (hc : c.drains = true) {args : List Value} (hargs : AllBytes args) : Collects ctx (method args) fun _ => True := by
  have hint : ∀ v, Built (Keeper ctx) () (intArg? v : K F _) fun _ => True :=
    fun v => built_collects (computes_collects (computes_intArg? v))
  refine collects_of_built ?_
  cases c with
  | SREM =>
    refine built_rest1 h hargs fun key rest hargs => built_collects ?_
    exact collects_SREM hquiet (hargs key (by simp)) fun v hv => hargs v (by simp [hv])
  | SMOVE =>
    exact built_args3 h hargs fun source target _ hargs =>
      built_collects (collects_SMOVE hquiet (hargs source (by simp)) (hargs target (by simp)))
  | SPOP =>
    exact built_keyCount h hargs hint fun key _ hargs count => built_collects
      (collects_SPOP hquiet (hargs key (by simp)) count)
  | LPOP =>
    exact built_keyCount h hargs hint fun key _ hargs count => built_collects (collects_pop (hargs key (by simp)) count true)
  | RPOP =>
    exact built_keyCount h hargs hint fun key _ hargs count => built_collects (collects_pop (hargs key (by simp)) count false)
  | LMOVE =>
    refine built_args4 h hargs fun source destination wherefrom whereto hargs => built_collects ?_
    refine (computes_collects (computes_list_side wherefrom)).bind ?_
    intro _ _
    refine (computes_collects (computes_list_side whereto)).bind ?_
    intro _ _
    exact collects_move hquiet (hargs source (by simp)) (hargs destination (by simp)) _ _
  | RPOPLPUSH =>
    exact built_args2 h hargs fun source destination hargs =>
      built_collects (collects_move hquiet (hargs source (by simp)) (hargs destination (by simp)) _ _)
  | LMPOP =>
    exact built_rest1 h hargs fun numkeys rest hargs =>
      built_collects (collects_int fun n => collects_LMPOP (fun v hv => hargs v (by simp [hv])) n)
  | ZADD =>
    exact built_rest1 h hargs fun key rest hargs =>
      built_collects (collects_ZADD (hargs key (by simp)) fun v hv => hargs v (by simp [hv]))
  | ZINCRBY =>
    exact built_args3 h hargs fun key increment member hargs =>
      built_collects (collects_ZINCRBY (hargs key (by simp)) (hargs member (by simp)) increment)
  | ZREM =>
    exact built_rest1 h hargs fun key rest hargs =>
      built_collects (collects_ZREM hquiet (hargs key (by simp)) fun v hv => hargs v (by simp [hv]))
  | ZREMRANGEBYRANK =>
    exact built_args3 h hargs fun key _ _ hargs =>
      built_collects (collects_int fun _ => collects_int fun _ => collects_ZREMRANGEBYRANK hquiet (hargs key (by simp)) _ _)
  | ZREMRANGEBYSCORE =>
    exact built_args3 h hargs fun key _ _ hargs => built_collects (collects_ZREMRANGEBYSCORE hquiet (hargs key (by simp)) _ _)
  | ZREMRANGEBYLEX =>
    exact built_args3 h hargs fun key _ _ hargs => built_collects (collects_ZREMRANGEBYLEX hquiet (hargs key (by simp)) _ _)
  | ZPOPMIN =>
    exact built_keyCount h hargs hint fun key _ hargs count => built_collects
      (collects_zpop hquiet (hargs key (by simp)) count true)
  | ZPOPMAX =>
    exact built_keyCount h hargs hint fun key _ hargs count => built_collects
      (collects_zpop hquiet (hargs key (by simp)) count false)
  | _ => cases hc

/-- Every keyspace command with byte strings for arguments keeps the collections nonempty. -/
theorem collects_command (hquiet : ctx.Quiet) {c : Cmd} {method : List Value → K F Reply} (h : handler c = .keyspace method)
    {args : List Value} (hargs : AllBytes args) : Collects ctx (method args) fun _ => True := by
  by_cases hc : c.drains = true
  · exact collects_drain hquiet h hc hargs
  have hallows : (Discipline.collections ctx.clock).Allows c args :=
    { look := fun _ _ => trivial
      fields := fun _ _ => trivial
      replace := fun _ _ => trivial
      create := fun key hk _ => hargs key (Cmd.mem_of_mem_created hk)
      store := fun v hv => hargs v (Cmd.mem_of_mem_stored hv)
      value := fun v hv items he => by
        have hbytes := hargs v (Cmd.mem_of_mem_valued hv)
        rw [he] at hbytes
        exact hbytes
      scan := fun _ => trivial
      past := fun _ => trivial
      empty := fun h => absurd h hc }
  exact Disciplined.collects (hallows.disciplined (S := ∅) h)

end Writes

end Kagni
