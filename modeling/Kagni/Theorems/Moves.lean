import Kagni.Commands.Set
import Kagni.Lemmas.Lists

/-!
# Moves

LMOVE and RPOPLPUSH take an item from one list and put it into another, or into the same, and SMOVE does this with a member of
a set. A plain list has no way to put an item at its head, and is asked for one only when the item has already left its
source.
-/

namespace Kagni

open Lib Lib.Prog

variable {F : Type} {ctx : Ctx} {ks : Set Bytes} {k : KState F} {s : Content F} {source destination : Bytes}

/-- A move succeeds as it should, or it is refused and keeps what was there. -/
def Conserves (ctx : Ctx) (k : KState F) (m : K F Reply) (refusal : Reply) (Moved : Reply → Content F → Prop)
    (Kept : Content F → Prop) : Prop :=
  ∃ out s', Gives m ctx k out s' ∧ ((∃ r, out = .ok r ∧ Moved r s') ∨ ((out = .ok refusal ∨ ∃ e, out = .error e) ∧ Kept s'))

/-- Nothing was changed. -/
def Unchanged (ctx : Ctx) (k : KState F) (s : Content F) : Prop := s = k.store.content ctx.clock.mono

/-! ## Ends of a list -/

/-- A list with an item at one of its ends. -/
def atEnd (left : Bool) (v : Value) (rest : List Value) : List Value := if left then v :: rest else rest ++ [v]

theorem atEnd_ne_nil (left : Bool) (v : Value) (rest : List Value) : atEnd left v rest ≠ [] := by
  cases left <;> simp [atEnd]

theorem atEnd_perm (left : Bool) (v : Value) (rest : List Value) : (atEnd left v rest).Perm (v :: rest) := by
  cases left with
  | true => exact .refl _
  | false => exact List.perm_append_singleton v rest

theorem length_atEnd (left : Bool) (v : Value) (rest : List Value) : (atEnd left v rest).length = rest.length + 1 :=
  (atEnd_perm left v rest).length_eq

/-- A pop takes the item at the end. -/
theorem popped_atEnd (left : Bool) (v : Value) (rest : List Value) : popped (atEnd left v rest) 1 left = ([v], rest) := by
  cases left <;> simp [popped, atEnd]

theorem exists_atEnd {items : List Value} (h : items ≠ []) (left : Bool) : ∃ v rest, items = atEnd left v rest := by
  cases left with
  | true => exact List.exists_cons_of_ne_nil h
  | false => exact ⟨items.getLast h, items.dropLast, (List.dropLast_append_getLast h).symm⟩

theorem pushed_eq_atEnd (items : List Value) (v : Value) (left : Bool) : pushed items [v] left = atEnd left v items := by
  cases left <;> rfl

/-! ## Lists -/

/-- An item is taken from one end of the source and put at one end of the destination. The other items keep their order, and a
source without one disappears. -/
structure ListMoved (s s' : Content F) (source destination : Value) (from_left to_left : Bool) (v : Value) : Prop where
  moved : ∃ rest, s.list source = some (atEnd from_left v rest) ∧
    if destination = source then s'.list source = some (atEnd to_left v rest)
    else s'.list destination = some (atEnd to_left v ((s.list destination).getD [])) ∧ (s'.list source).getD [] = rest
  gone : s'.lookup source = none ↔ (s'.list source).getD [] = []
  others : ∀ x, x ≠ source → x ≠ destination → s'.lookup x = s.lookup x

/-- All the items of two lists. -/
def allItems (s : Content F) (source destination : Value) : List Value :=
  (s.list source).getD [] ++ if destination = source then [] else (s.list destination).getD []

/-- A move keeps all the items. -/
theorem ListMoved.perm {s s' : Content F} {source destination : Value} {from_left to_left : Bool} {v : Value}
    (h : ListMoved s s' source destination from_left to_left v) :
    (allItems s' source destination).Perm (allItems s source destination) := by
  obtain ⟨rest, hsource, hmoved⟩ := h.moved
  unfold allItems
  rw [hsource, Option.getD_some]
  by_cases hsame : destination = source
  · rw [if_pos hsame] at hmoved ⊢
    rw [hmoved, if_pos hsame, Option.getD_some, List.append_nil, List.append_nil]
    exact (atEnd_perm to_left v rest).trans (atEnd_perm from_left v rest).symm
  · rw [if_neg hsame] at hmoved ⊢
    rw [hmoved.1, hmoved.2, if_neg hsame, Option.getD_some]
    refine ((atEnd_perm to_left v _).append_left rest).trans ?_
    exact List.perm_middle.trans ((atEnd_perm from_left v rest).symm.append_right _)

/-- The content after the item has left its source. -/
def afterPop (s : Content F) (source : Value) (isDeque : Bool) (rest : List Value) : Content F :=
  s.change source (ListRef.obj ⟨isDeque, rest⟩)

/-- The content after the move. -/
def afterMove (s : Content F) (source destination : Value) (isDeque : Bool) (rest : List Value) (o : Option ListRef)
    (v : Value) (to_left : Bool) :
    Content F :=
  let items := if destination = source then rest else (o.map ListRef.items).getD []
  let s' := (afterPop s source isDeque rest).write destination
    (ListRef.obj ⟨(o.map ListRef.isDeque).getD true, atEnd to_left v items⟩)
  if destination ≠ source ∧ rest = [] then s'.erase source else s'

variable {a : ListRef} {key key' : Value} {from_left to_left : Bool} {v : Value} {rest : List Value} {o : Option ListRef}

theorem listMoved_same (ha : s.value key = some a.obj) (hitems : a.items = atEnd from_left v rest) :
    ListMoved s (afterMove s key key a.isDeque rest (some a) v to_left) key key from_left to_left v := by
  have hpop : (afterPop s key a.isDeque rest).value key = some (ListRef.obj ⟨a.isDeque, rest⟩) :=
    Content.value_change ha _ (ListRef.obj_ne_null _)
  have hafter : afterMove s key key a.isDeque rest (some a) v to_left =
      (afterPop s key a.isDeque rest).change key (ListRef.obj ⟨a.isDeque, atEnd to_left v rest⟩) := by
    unfold afterMove
    dsimp only
    rw [if_neg (fun h => h.1 rfl), if_pos rfl, Content.write_of_some hpop]
    rfl
  have hvalue := Content.value_change hpop (ListRef.obj ⟨a.isDeque, atEnd to_left v rest⟩) (ListRef.obj_ne_null _)
  have hlist := Content.list_of_value hvalue
  rw [hafter]
  refine ⟨⟨rest, hitems ▸ Content.list_of_value ha, ?_⟩, iff_of_false (Content.lookup_of_value hvalue) ?_, fun x hx _ => ?_⟩
  · rw [if_pos rfl, hlist]
  · rw [hlist, Option.getD_some]
    exact atEnd_ne_nil to_left v rest
  · rw [Content.lookup_change_of_ne hx, afterPop, Content.lookup_change_of_ne hx]

theorem listMoved_other (hne : key' ≠ key) (ha : s.value key = some a.obj) (hitems : a.items = atEnd from_left v rest)
    (ho : s.value key' = o.map ListRef.obj) :
    ListMoved s (afterMove s key key' a.isDeque rest o v to_left) key key' from_left to_left v := by
  have hold : (s.list key').getD [] = (o.map ListRef.items).getD [] := by
    cases o with
    | none => rw [Content.list, ho]; rfl
    | some b => rw [Content.list_of_value ho]; rfl
  generalize hnew : ListRef.mk ((o.map ListRef.isDeque).getD true) (atEnd to_left v ((o.map ListRef.items).getD [])) = new
  have hl := Content.value_write (afterPop s key a.isDeque rest) key' (ListRef.obj_ne_null new)
  have hput := Content.lookup_write_of_ne hne.symm (afterPop s key a.isDeque rest) new.obj
  have hothers : ∀ x, x ≠ key → x ≠ key' → ((afterPop s key a.isDeque rest).write key' new.obj).lookup x = s.lookup x :=
    fun x hx hx' =>
    (Content.lookup_write_of_ne hx' _ _).trans (Content.lookup_change_of_ne hx _ _)
  generalize hs' : (afterPop s key a.isDeque rest).write key' new.obj = s' at *
  have hafter : afterMove s key key' a.isDeque rest o v to_left = if rest = [] then s'.erase key else s' := by
    unfold afterMove
    dsimp only
    rw [if_neg hne, hnew, hs']
    simp [hne]
  have hsource : s'.value key = some (ListRef.obj ⟨a.isDeque, rest⟩) :=
    (Content.value_congr hput).trans (Content.value_change ha _ (ListRef.obj_ne_null _))
  have hrest := Content.list_of_value hsource
  have hmoved := Content.list_of_value hl
  rw [← hnew, ← hold] at hmoved
  rw [hafter]
  by_cases hempty : rest = []
  · have herased : (Content.list (s'.erase key) key).getD [] = [] := by
      rw [Content.list, Content.value, Finmap.lookup_erase]
      rfl
    have hkept : Content.list (s'.erase key) key' = s'.list key' :=
      congrArg (Option.bind · Obj.items?) (Content.value_erase_of_ne hne s')
    rw [if_pos hempty]
    refine ⟨⟨rest, hitems ▸ Content.list_of_value ha, ?_⟩, iff_of_true (Finmap.lookup_erase ..) herased, fun x hx hx' => ?_⟩
    · rw [if_neg hne, hkept, herased, hempty]
      exact ⟨hmoved, rfl⟩
    · rw [Finmap.lookup_erase_ne hx, hothers x hx hx']
  · rw [if_neg hempty]
    refine ⟨⟨rest, hitems ▸ Content.list_of_value ha, ?_⟩, iff_of_false (Content.lookup_of_value hsource) ?_, hothers⟩
    · rw [if_neg hne, hrest]
      exact ⟨hmoved, rfl⟩
    · rw [hrest]
      exact hempty

theorem listMoved_afterMove (ha : s.value key = some a.obj) (hitems : a.items = atEnd from_left v rest)
    (ho : s.value key' = o.map ListRef.obj) :
    ListMoved s (afterMove s key key' a.isDeque rest o v to_left) key key' from_left to_left v := by
  by_cases hsame : key' = key
  · subst hsame
    cases o with
    | none => cases ha.symm.trans ho
    | some b =>
      rw [← ListRef.obj_injective (Option.some.inj (ha.symm.trans ho))]
      exact listMoved_same ha hitems
  · exact listMoved_other hsame ha hitems ho

/-! ## LMOVE and RPOPLPUSH -/

/-- A list has the methods for one of its ends. -/
def ListRef.HasEnd (l : ListRef) (left : Bool) : Prop := l.isDeque = true ∨ left = false

theorem steps_needDeque {l : ListRef} {left : Bool} (h : l.HasEnd left) :
    Steps ctx ks s (needDeque l left : K F Unit) (.ok ()) s :=
  .if_neg (by rcases h with h | h <;> simp [h]) (.pure ())

theorem steps_needDeque_error {l : ListRef} {left : Bool} (h : ¬l.HasEnd left) :
    Steps ctx ks s (needDeque l left : K F Unit) (.error .other) s := by
  obtain ⟨hdeque, hleft⟩ := not_or.1 h
  exact .if_pos ⟨by simpa using hleft, by simpa using hdeque⟩ (.raise _)

/-- The destination is looked up, unless it is the source. -/
theorem steps_destination (hdst : ctx.Purges ks s destination) (ha : s.value (.bytes source) = some a.obj)
    (ho : s.value (.bytes destination) = o.map ListRef.obj) :
    Steps ctx ks s (if Value.bytes destination = .bytes source then pure (some a) else _list (.bytes destination) :
      K F (Option ListRef)) (.ok o) s := by
  refine .ite (fun hsame => ?_) fun _ => steps_list hdst ho
  rw [hsame, ha] at ho
  cases o with
  | none => cases ho
  | some b =>
    rw [ListRef.obj_injective (Option.some.inj ho)]
    exact .pure _

/-- The events of a move, and the end of an empty source. -/
theorem steps_finish (htold : ctx.Tells .lpop (Value.bytes destination ≠ .bytes source ∧ rest = [])) (v : Value)
    (to_left from_left : Bool) :
    Steps ctx ks s
      (_after_write (.bytes destination) (if to_left = true then .lpush else .rpush) >>= fun _ =>
        _after_write (.bytes source) (if from_left = true then .lpop else .rpop) >>= fun _ =>
          if Value.bytes destination ≠ .bytes source ∧ rest = [] then
            data_remove (.bytes source) >>= fun _ => _notify (.bytes source) .del >>= fun _ => pure (Reply.ofValue v)
          else pure (Reply.ofValue v))
      (.ok (Reply.ofValue v)) (if Value.bytes destination ≠ .bytes source ∧ rest = [] then s.erase (.bytes source) else s) := by
  have hpush : ctx.EventReturns (if to_left = true then .lpush else .rpush) := by
    split <;> exact (Ctx.eventReturns_congr rfl).1 htold.1
  have hpop : ctx.EventReturns (if from_left = true then .lpop else .rpop) := by
    split <;> exact (Ctx.eventReturns_congr rfl).1 htold.1
  refine (steps_after_write hpush).bind ((steps_after_write hpop).bind ?_)
  split_ifs with hgone
  · exact (steps_remove source).bind ((steps_notify (htold.2 hgone)).bind (.pure _))
  · exact .pure _

/-- A move that cannot be told raises, behind the change. -/
theorem steps_finish_error (huntold : ¬ctx.Tells .lpop (Value.bytes destination ≠ .bytes source ∧ rest = [])) (v : Value)
    (to_left from_left : Bool) :
    ∃ s', (s' = s ∨ Value.bytes destination ≠ .bytes source ∧ s' = s.erase (.bytes source)) ∧ Steps ctx ks s
      (_after_write (.bytes destination) (if to_left = true then .lpush else .rpush) >>= fun _ =>
        _after_write (.bytes source) (if from_left = true then .lpop else .rpop) >>= fun _ =>
          if Value.bytes destination ≠ .bytes source ∧ rest = [] then
            data_remove (.bytes source) >>= fun _ => _notify (.bytes source) .del >>= fun _ => pure (Reply.ofValue v)
          else pure (Reply.ofValue v))
      (.error .other) s' := by
  by_cases hevent : ctx.EventReturns .lpop
  · obtain ⟨hgone, hdel⟩ := Classical.not_imp.1 fun hdel => huntold ⟨hevent, hdel⟩
    have hpush : ctx.EventReturns (if to_left = true then .lpush else .rpush) := by
      split <;> exact (Ctx.eventReturns_congr rfl).1 hevent
    have hpop : ctx.EventReturns (if from_left = true then .lpop else .rpop) := by
      split <;> exact (Ctx.eventReturns_congr rfl).1 hevent
    refine ⟨_, .inr ⟨hgone.1, rfl⟩, (steps_after_write hpush).bind ((steps_after_write hpop).bind (.if_pos hgone ?_))⟩
    exact (steps_remove source).bind ((steps_notify_error hdel).bind_error)
  · have hpush : ¬ctx.EventReturns (if to_left = true then .lpush else .rpush) := by
      split <;> exact mt (Ctx.eventReturns_congr rfl).1 hevent
    exact ⟨s, .inl rfl, (steps_after_write_error hpush).bind_error⟩

/-- A move takes the item from the source and puts it into the destination, and ends as its events do. -/
theorem steps_move_end (hdst : ctx.Purges ks s destination) (ha : s.value (.bytes source) = some a.obj)
    (hitems : a.items = atEnd from_left v rest)
    (ho : s.value (.bytes destination) = o.map ListRef.obj) (hpop : a.HasEnd from_left)
    (hpush : ∀ b, o = some b → b.HasEnd to_left)
    {out : Except (Exc Errors) Reply} {s' : Content F}
    (hend : Steps ctx ks
      ((afterPop s (.bytes source) a.isDeque rest).write (.bytes destination)
        (ListRef.obj ⟨(o.map ListRef.isDeque).getD true,
          atEnd to_left v (if Value.bytes destination = .bytes source then rest else (o.map ListRef.items).getD [])⟩))
      (_after_write (.bytes destination) (if to_left = true then .lpush else .rpush) >>= fun _ =>
        _after_write (.bytes source) (if from_left = true then .lpop else .rpop) >>= fun _ =>
          if Value.bytes destination ≠ .bytes source ∧ rest = [] then
            data_remove (.bytes source) >>= fun _ => _notify (.bytes source) .del >>= fun _ => pure (Reply.ofValue v)
          else pure (Reply.ofValue v)) out s') :
    Steps ctx ks s (_move (.bytes source) (.bytes destination) from_left to_left) out s' := by
  have hne : a.items ≠ [] := hitems ▸ atEnd_ne_nil from_left v rest
  refine (steps_list (o := some a) (purges_of_value ha) ha).bind (.if_neg hne ?_)
  refine (steps_destination hdst ha ho).bind ((steps_needDeque hpop).bind ?_)
  rw [hitems, popped_atEnd]
  refine (steps_store_value _ _).bind ?_
  cases o with
  | none =>
    have hother : Value.bytes destination ≠ .bytes source := fun hsame => by
      rw [hsame, ha] at ho
      cases ho
    have hlist : [v] = atEnd to_left v (if Value.bytes destination = .bytes source then rest else []) := by
      rw [if_neg hother]
      cases to_left <;> rfl
    rw [hlist]
    refine (steps_setitem destination _).bind ?_
    rw [← Content.write_of_none ((Content.value_change_of_ne hother s _).trans ho)]
    exact hend
  | some b =>
    have hthere : ∃ w, (s.change (.bytes source) (ListRef.obj ⟨a.isDeque, rest⟩)).value (.bytes destination) = some w := by
      by_cases hsame : Value.bytes destination = .bytes source
      · rw [hsame]
        exact ⟨_, Content.value_change ha _ (ListRef.obj_ne_null _)⟩
      · exact ⟨_, (Content.value_change_of_ne hsame s _).trans ho⟩
    obtain ⟨w, hw⟩ := hthere
    refine (steps_needDeque (hpush b rfl)).bind ?_
    dsimp only
    rw [pushed_eq_atEnd]
    refine (steps_store_value _ _).bind ?_
    rw [← Content.write_of_some hw]
    exact hend

/-- A move that can be told goes through. -/
theorem steps_move (htold : ctx.Tells .lpop (Value.bytes destination ≠ .bytes source ∧ rest = []))
    (hdst : ctx.Purges ks s destination)
    (ha : s.value (.bytes source) = some a.obj) (hitems : a.items = atEnd from_left v rest)
    (ho : s.value (.bytes destination) = o.map ListRef.obj)
    (hpop : a.HasEnd from_left) (hpush : ∀ b, o = some b → b.HasEnd to_left) :
    Steps ctx ks s (_move (.bytes source) (.bytes destination) from_left to_left) (.ok (.ofValue v))
      (afterMove s (.bytes source) (.bytes destination) a.isDeque rest o v to_left) :=
  steps_move_end hdst ha hitems ho hpop hpush (steps_finish htold v to_left from_left)

/-- A list with nothing to put the item at its head with: the item is lost. -/
theorem steps_move_lost {b : ListRef} (hdst : ctx.Purges ks s destination) (ha : s.value (.bytes source) = some a.obj)
    (hitems : a.items = atEnd from_left v rest) (hb : s.value (.bytes destination) = some b.obj) (hpop : a.HasEnd from_left)
    (hpush : ¬b.HasEnd to_left) :
    Steps ctx ks s (_move (.bytes source) (.bytes destination) from_left to_left) (.error .other)
      (afterPop s (.bytes source) a.isDeque rest) := by
  have hne : a.items ≠ [] := hitems ▸ atEnd_ne_nil from_left v rest
  refine (steps_list (o := some a) (purges_of_value ha) ha).bind (.if_neg hne ?_)
  refine (steps_destination (o := some b) hdst ha hb).bind ((steps_needDeque hpop).bind ?_)
  rw [hitems, popped_atEnd]
  exact (steps_store_value _ _).bind (steps_needDeque_error hpush).bind_error

/-- A source with no way to take the item from its head: nothing is moved. -/
theorem steps_move_stuck (hdst : ctx.Purges ks s destination) (ha : s.value (.bytes source) = some a.obj) (hne : a.items ≠ [])
    (ho : s.value (.bytes destination) = o.map ListRef.obj) (hpop : ¬a.HasEnd from_left) :
    Steps ctx ks s (_move (.bytes source) (.bytes destination) from_left to_left) (.error .other) s := by
  refine (steps_list (o := some a) (purges_of_value ha) ha).bind (.if_neg hne ?_)
  exact (steps_destination hdst ha ho).bind (steps_needDeque_error hpop).bind_error

/-- A destination that is no list: nothing is moved. -/
theorem steps_move_wrong (hdst : ctx.Purges ks s destination) (ha : s.value (.bytes source) = some a.obj)
    (hne : a.items ≠ []) {w : Obj F}
    (hw : s.value (.bytes destination) = some w) (hkind : kind_of w ≠ some .list) :
    Steps ctx ks s (_move (.bytes source) (.bytes destination) from_left to_left) (.error (.error .WRONGTYPE)) s := by
  have hother : Value.bytes destination ≠ .bytes source := fun hsame => by
    rw [hsame, ha] at hw
    rw [← Option.some.inj hw] at hkind
    exact hkind a.kind_obj
  refine (steps_list (o := some a) (purges_of_value ha) ha).bind (.if_neg hne ?_)
  exact Steps.bind_error (.if_neg hother (steps_list_error hdst hw hkind))

/-- An empty source is dropped. -/
theorem steps_move_empty (ha : s.value (.bytes source) = some a.obj) (hempty : a.items = []) :
    Steps ctx ks s (_move (.bytes source) (.bytes destination) from_left to_left) (.ok .NIL) (s.erase (.bytes source)) :=
  (steps_list (o := some a) (purges_of_value ha) ha).bind (.if_pos hempty ((steps_remove source).bind (.pure _)))

/-- The item is put back where it was. -/
theorem afterPop_write_self_iff (ha : s.value key = some a.obj) :
    (afterPop s key a.isDeque rest).write key (ListRef.obj ⟨a.isDeque, atEnd to_left v rest⟩) = s ↔
      atEnd to_left v rest = a.items := by
  have hpop : (afterPop s key a.isDeque rest).value key = some (ListRef.obj ⟨a.isDeque, rest⟩) :=
    Content.value_change ha _ (ListRef.obj_ne_null _)
  rw [Content.write_of_some hpop, afterPop, Content.change_change]
  refine ⟨fun hsame => ?_, fun hitems => ?_⟩
  · have hvalue := Content.value_change ha (ListRef.obj ⟨a.isDeque, atEnd to_left v rest⟩) (ListRef.obj_ne_null _)
    rw [hsame, ha] at hvalue
    exact (congrArg ListRef.items (ListRef.obj_injective (Option.some.inj hvalue))).symm
  · rw [hitems]
    exact Content.change_value ha

/-- The destination has got the item. -/
theorem value_ne_of_moved {s' : Content F} {isDeque : Bool} (ho : s.value key' = o.map ListRef.obj)
    (h : s'.value key' = some (ListRef.obj ⟨isDeque, atEnd to_left v ((o.map ListRef.items).getD [])⟩)) : s' ≠ s := by
  rintro rfl
  rw [ho] at h
  cases o with
  | none => cases h
  | some b =>
    have hlength := congrArg (fun l : ListRef => l.items.length) (ListRef.obj_injective (Option.some.inj h))
    dsimp only at hlength
    rw [length_atEnd, Option.map_some, Option.getD_some] at hlength
    omega

/-- A move that cannot be told raises, and the item is where it was only if it was put back there. -/
theorem steps_move_untold (huntold : ¬ctx.Tells .lpop (Value.bytes destination ≠ .bytes source ∧ rest = []))
    (hdst : ctx.Purges ks s destination)
    (ha : s.value (.bytes source) = some a.obj) (hitems : a.items = atEnd from_left v rest)
    (ho : s.value (.bytes destination) = o.map ListRef.obj)
    (hpop : a.HasEnd from_left) (hpush : ∀ b, o = some b → b.HasEnd to_left) :
    ∃ s', (s' = s ↔ destination = source ∧ atEnd to_left v rest = a.items) ∧
      Steps ctx ks s (_move (.bytes source) (.bytes destination) from_left to_left) (.error .other) s' := by
  obtain ⟨s', hs', hend⟩ := steps_finish_error huntold v to_left from_left
  refine ⟨s', ?_, steps_move_end hdst ha hitems ho hpop hpush hend⟩
  by_cases hsame : destination = source
  · subst hsame
    obtain rfl := hs'.resolve_right fun h => h.1 rfl
    obtain rfl : o = some a := by
      cases o with
      | none => cases ha.symm.trans ho
      | some b => rw [ListRef.obj_injective (Option.some.inj (ha.symm.trans ho))]
    rw [if_pos rfl, Option.map_some, Option.getD_some, afterPop_write_self_iff ha]
    exact (and_iff_right rfl).symm
  · have hne : Value.bytes destination ≠ .bytes source := fun h => hsame (Value.bytes.inj h)
    refine iff_of_false ?_ fun h => hsame h.1
    rw [if_neg hne] at hs'
    have hvalue := Content.value_write (afterPop s (.bytes source) a.isDeque rest) (.bytes destination)
      (ListRef.obj_ne_null ⟨(o.map ListRef.isDeque).getD true, atEnd to_left v ((o.map ListRef.items).getD [])⟩)
    have hmoved : s'.value (.bytes destination) =
        some (ListRef.obj ⟨(o.map ListRef.isDeque).getD true, atEnd to_left v ((o.map ListRef.items).getD [])⟩) := by
      rcases hs' with rfl | ⟨-, rfl⟩
      · exact hvalue
      · rwa [Content.value_erase_of_ne hne]
    exact value_ne_of_moved ho hmoved

/-- A list move fits if the source is not empty, and a list at the destination has the end the item goes to when the source
has the one it comes from. -/
def ListFits (s : Content F) (source destination : Value) (from_left to_left : Bool) : Prop :=
  ∀ a : ListRef, s.value source = some a.obj →
    a.items ≠ [] ∧ (a.HasEnd from_left → ∀ b : ListRef, s.value destination = some b.obj → b.HasEnd to_left)

/-- A list move that comes to its events can publish them, or it puts the item back where it was. -/
def ListTold (ctx : Ctx) (k : KState F) (source destination : Bytes) (from_left to_left : Bool) : Prop :=
  ∀ (a : ListRef) (v : Value) (rest : List Value), (k.store.content ctx.clock.mono).value (.bytes source) = some a.obj →
    a.items = atEnd from_left v rest → a.HasEnd from_left →
    (∃ o : Option ListRef, (k.store.content ctx.clock.mono).value (.bytes destination) = o.map ListRef.obj) →
      ctx.Opens k destination →
      ctx.Tells .lpop (destination ≠ source ∧ rest = []) ∨ destination = source ∧ atEnd to_left v rest = a.items

/-- The reply is the item that was moved, and no item is lost or gained. -/
def ListDone (s : Content F) (source destination : Value) (from_left to_left : Bool) (r : Reply) (s' : Content F) : Prop :=
  ∃ v, r = .ofValue v ∧ ListMoved s s' source destination from_left to_left v ∧
    (allItems s' source destination).Perm (allItems s source destination)

/-- A refusal changes nothing. -/
theorem Conserves.refused {m : K F Reply} {refusal : Reply} {Moved : Reply → Content F → Prop} {Kept : Content F → Prop}
    {out : Except (Exc Errors) Reply} (hout : out = .ok refusal ∨ ∃ e, out = .error e)
    (h : Gives m ctx k out (k.store.content ctx.clock.mono))
    (hkept : Kept (k.store.content ctx.clock.mono)) : Conserves ctx k m refusal Moved Kept := ⟨out, _, h, .inr ⟨hout, hkept⟩⟩

theorem tells_iff (hne : Prop) : ctx.Tells .lpop (Value.bytes destination ≠ .bytes source ∧ hne) ↔ ctx.Tells .lpop
    (destination ≠ source ∧ hne) := by
  rw [Ne, Value.bytes.injEq]

/-- Where the purge of the destination raises nothing is moved. -/
theorem gives_move_shut {a : ListRef} (hdst : ¬ctx.Opens k destination)
    (ha : (k.store.content ctx.clock.mono).value (.bytes source) = some a.obj)
    (hne : a.items ≠ []) : Gives (_move (.bytes source) (.bytes destination) from_left to_left) ctx k (.error .other)
    (k.store.content ctx.clock.mono) := by
  have hother : Value.bytes destination ≠ .bytes source := fun hsame => hdst (Value.bytes.inj hsame ▸ opens_of_value ha)
  refine Gives.bind_run (list_live_run ha) ?_
  dsimp only
  rw [if_neg hne, if_neg hother]
  exact Gives.bind_error (gives_list_error hdst) _

theorem conserves_move (hfits : ListFits (k.store.content ctx.clock.mono) (.bytes source) (.bytes destination) from_left to_left)
    (htold : ListTold ctx k source destination from_left to_left) :
    Conserves ctx k (_move (.bytes source) (.bytes destination) from_left to_left) .NIL
      (ListDone (k.store.content ctx.clock.mono) (.bytes source) (.bytes destination) from_left to_left) (Unchanged ctx k) := by
  by_cases hsrc : ctx.Opens k source
  · rcases list_or_other (k.store.content ctx.clock.mono) (.bytes source) with ⟨osrc, hvalue⟩ | ⟨w, hw, hkind⟩
    · cases osrc with
      | none =>
        have hnone : Steps ctx {source} _ (_move (.bytes source) (.bytes destination) from_left to_left) (.ok .NIL) _ :=
          (steps_list (o := none) (purges_of_mem (Set.mem_singleton _)) hvalue).bind (.pure _)
        exact .refused (.inl rfl) (hnone.gives (.one hsrc)) rfl
      | some a =>
        obtain ⟨hne, hends⟩ := hfits a hvalue
        by_cases hdst : ctx.Opens k destination
        · have hpurges : ctx.Purges {destination} (k.store.content ctx.clock.mono) destination :=
            purges_of_mem (Set.mem_singleton _)
          rcases list_or_other (k.store.content ctx.clock.mono) (.bytes destination) with ⟨o, ho⟩ | ⟨w, hw, hkind⟩
          · by_cases hpop : a.HasEnd from_left
            · obtain ⟨v, rest, hitems⟩ := exists_atEnd hne from_left
              have hpush : ∀ b, o = some b → b.HasEnd to_left := fun b hb => hends hpop b (by rw [ho, hb]; rfl)
              by_cases htells : ctx.Tells .lpop (Value.bytes destination ≠ .bytes source ∧ rest = [])
              · have hmoved : ListMoved _ _ _ _ from_left to_left v := listMoved_afterMove hvalue hitems ho
                exact ⟨_, _, (steps_move htells hpurges hvalue hitems ho hpop hpush).gives (.one hdst),
                  .inl ⟨_, rfl, v, rfl, hmoved, hmoved.perm⟩⟩
              · obtain ⟨s', hs', hraises⟩ := steps_move_untold htells hpurges hvalue hitems ho hpop hpush
                have hback := (htold a v rest hvalue hitems hpop ⟨o, ho⟩ hdst).resolve_left (mt (tells_iff _).2 htells)
                obtain rfl := hs'.2 hback
                exact .refused (.inr ⟨_, rfl⟩) (hraises.gives (.one hdst)) rfl
            · exact .refused (.inr ⟨_, rfl⟩) ((steps_move_stuck hpurges hvalue hne ho hpop).gives (.one hdst)) rfl
          · exact .refused (.inr ⟨_, rfl⟩) ((steps_move_wrong hpurges hvalue hne hw hkind).gives (.one hdst)) rfl
        · exact .refused (.inr ⟨_, rfl⟩) (gives_move_shut hdst hvalue hne) rfl
    · have hwrong : Steps ctx ∅ _ _ _ _ := steps_list_error (purges_of_value hw) hw hkind
      exact .refused (.inr ⟨_, rfl⟩) (Gives.bind_error (hwrong.gives (.none k)) _) rfl
  · exact .refused (.inr ⟨_, rfl⟩) (Gives.bind_error (gives_list_error hsrc) _) rfl

/-- A move that ends without an item and has changed something does not conserve. -/
theorem not_conserves {m : K F Reply} {Moved : Reply → Content F → Prop} {Kept : Content F → Prop}
    {out : Except (Exc Errors) Reply} {s' : Content F}
    (h : Gives m ctx k out s') (hout : ∀ r, out = .ok r → ¬Moved r s') (hs' : ¬Kept s') (refusal : Reply) :
    ¬Conserves ctx k m refusal Moved Kept := by
  rintro ⟨out', s'', hrun, hdone⟩
  obtain ⟨rfl, rfl⟩ := hrun.unique h
  rcases hdone with ⟨r, hr, hmoved⟩ | ⟨-, hsame⟩
  · exact hout r hr hmoved
  · exact hs' hsame

/-- A move conserves the items exactly if it fits and can be told. -/
theorem conserves_move_iff :
    Conserves ctx k (_move (.bytes source) (.bytes destination) from_left to_left) .NIL
        (ListDone (k.store.content ctx.clock.mono) (.bytes source) (.bytes destination) from_left to_left) (Unchanged ctx k) ↔
      ListFits (k.store.content ctx.clock.mono) (.bytes source) (.bytes destination) from_left to_left ∧
        ListTold ctx k source destination from_left to_left := by
  refine ⟨fun hconserves => ?_, fun h => conserves_move h.1 h.2⟩
  have hfits : ListFits (k.store.content ctx.clock.mono) (.bytes source) (.bytes destination) from_left to_left := by
    intro a ha
    have hne : a.items ≠ [] := by
      intro hempty
      refine not_conserves ((steps_move_empty ha hempty).gives (.none k)) ?_ (fun h => Content.erase_ne ha h) _ hconserves
      rintro r hr ⟨v, rfl, -⟩
      cases v <;> cases hr
    refine ⟨hne, fun hpop b hb => ?_⟩
    by_contra hpush
    obtain ⟨v, rest, hitems⟩ := exists_atEnd hne from_left
    refine not_conserves ((steps_move_lost (purges_of_value hb) ha hitems hb hpop hpush).gives (.none k)) nofun ?_ _ hconserves
    intro hsame
    have hvalue := Content.value_change ha (ListRef.obj ⟨a.isDeque, rest⟩) (ListRef.obj_ne_null _)
    rw [show (k.store.content ctx.clock.mono).change (.bytes source) (ListRef.obj ⟨a.isDeque, rest⟩) = _ from hsame, ha] at hvalue
    have hlength := congrArg (fun l : ListRef => l.items.length) (ListRef.obj_injective (Option.some.inj hvalue))
    dsimp only at hlength
    rw [hitems, length_atEnd] at hlength
    omega
  refine ⟨hfits, fun a v rest ha hitems hpop ⟨o, ho⟩ hdst => ?_⟩
  by_contra huntold
  obtain ⟨htells, hback⟩ := not_or.1 huntold
  have hpush : ∀ b, o = some b → b.HasEnd to_left := fun b hb => (hfits a ha).2 hpop b (by rw [ho, hb]; rfl)
  obtain ⟨s', hs', hraises⟩ :=
    steps_move_untold (mt (tells_iff _).1 htells) (purges_of_mem (Set.mem_singleton destination)) ha hitems ho
    hpop hpush
  exact not_conserves (hraises.gives (.one hdst)) nofun (mt hs'.1 hback) _ hconserves

/-! ### The sides of LMOVE -/

/-- The side an argument names: whether it is LEFT. -/
def sideOf : Value → Option Bool
  | .bytes b => if upper b = bs "LEFT" then some true else if upper b = bs "RIGHT" then some false else none
  | _ => none

theorem yields_list_side {v : Value} {left : Bool} (h : sideOf v = some left) : Yields ctx (_list_side v : K F Bool) left := by
  intro k
  cases v with
  | bytes b =>
    have hside : (if upper b = bs "LEFT" then some true else if upper b = bs "RIGHT" then some false else none) = some left := h
    change (if upper b = bs "LEFT" then pure true else if upper b = bs "RIGHT" then pure false else throw_ .SYNTAX : K F Bool)
      ctx k = _
    split_ifs at hside with hleft hright
    · rw [if_pos hleft, ← Option.some.inj hside]
      rfl
    · rw [if_neg hleft, if_pos hright, ← Option.some.inj hside]
      rfl
  | _ => cases h

theorem list_side_error {v : Value} (h : sideOf v = none) : ∃ e, ∀ k, (_list_side v : K F Bool) ctx k = (.error e, k) := by
  cases v with
  | bytes b =>
    have hside : (if upper b = bs "LEFT" then some true else if upper b = bs "RIGHT" then some false else none) = none := h
    refine ⟨.error .SYNTAX, fun k => ?_⟩
    change (if upper b = bs "LEFT" then pure true else if upper b = bs "RIGHT" then pure false else throw_ .SYNTAX : K F Bool)
      ctx k = _
    split_ifs at hside with hleft hright
    rw [if_neg hleft, if_neg hright]
    rfl
  | _ => exact ⟨.other, fun _ => rfl⟩

/-- LMOVE is refused or it moves an item between the sides that are named. -/
def LmoveDone (s : Content F) (source destination wherefrom whereto : Value) (r : Reply) (s' : Content F) : Prop :=
  ∃ from_left to_left, sideOf wherefrom = some from_left ∧ sideOf whereto = some to_left ∧
    ListDone s source destination from_left to_left r s'

/-- LMOVE fits if its arguments name no two sides, or the move between them fits and can be told. -/
def LmoveFits (ctx : Ctx) (k : KState F) (source destination : Bytes) (wherefrom whereto : Value) : Prop :=
  ∀ from_left to_left, sideOf wherefrom = some from_left → sideOf whereto = some to_left →
    ListFits (k.store.content ctx.clock.mono) (.bytes source) (.bytes destination) from_left to_left ∧
      ListTold ctx k source destination from_left to_left

/-- A side that is none refuses the move. -/
theorem conserves_of_no_side {wherefrom whereto : Value} (h : sideOf wherefrom = none ∨ sideOf whereto = none)
    (Moved : Reply → Content F → Prop) :
    Conserves ctx k (LMOVE (.bytes source) (.bytes destination) wherefrom whereto) .NIL Moved (Unchanged ctx k) := by
  cases hfrom : sideOf wherefrom with
  | none =>
    obtain ⟨e, hrun⟩ : ∃ e, ∀ k, (_list_side wherefrom : K F Bool) ctx k = (.error e, k) := list_side_error hfrom
    exact .refused (.inr ⟨e, rfl⟩) ⟨k, bind_error ctx k (hrun k), rfl⟩ rfl
  | some from_left =>
    have hto : sideOf whereto = none := h.resolve_left (by rw [hfrom]; nofun)
    obtain ⟨e, hrun⟩ : ∃ e, ∀ k, (_list_side whereto : K F Bool) ctx k = (.error e, k) := list_side_error hto
    exact .refused (.inr ⟨e, rfl⟩) (Gives.bind_run (yields_list_side hfrom k) ⟨k, bind_error ctx k (hrun k), rfl⟩) rfl

theorem conserves_LMOVE_iff (wherefrom whereto : Value) :
    Conserves ctx k (LMOVE (.bytes source) (.bytes destination) wherefrom whereto) .NIL
        (LmoveDone (k.store.content ctx.clock.mono) (.bytes source) (.bytes destination) wherefrom whereto) (Unchanged ctx k) ↔
      LmoveFits ctx k source destination wherefrom whereto := by
  unfold LmoveDone LmoveFits
  cases hfrom : sideOf wherefrom with
  | none => exact iff_of_true (conserves_of_no_side (.inl hfrom) _) nofun
  | some from_left =>
    cases hto : sideOf whereto with
    | none => exact iff_of_true (conserves_of_no_side (.inr hto) _) fun _ _ _ h => nomatch h
    | some to_left =>
      have hrun : LMOVE (.bytes source) (.bytes destination) wherefrom whereto ctx k =
          _move (.bytes source) (.bytes destination) from_left to_left ctx k :=
        (bind_ok ctx k (yields_list_side hfrom k)).trans (bind_ok ctx k (yields_list_side hto k))
      have hmove : Conserves ctx k (_move (.bytes source) (.bytes destination) from_left to_left) .NIL
          (ListDone (k.store.content ctx.clock.mono) (.bytes source) (.bytes destination) from_left to_left)
            (Unchanged ctx k) ↔ _ :=
        conserves_move_iff
      simpa [Conserves, Gives, hrun] using hmove

/-! ## Sets -/

/-- The members of the set under a key. -/
def Content.members (s : Content F) (key : Value) : Set Value := {x | ∃ c, s.value key = some (.set c) ∧ x ∈ c}

theorem Content.mem_members {c : OrdSet Value} (h : s.value key = some (.set c)) (x : Value) : x ∈ s.members key ↔ x ∈ c := by
  constructor
  · rintro ⟨c', hc', hx⟩
    rw [h] at hc'
    cases hc'
    exact hx
  · exact fun hx => ⟨c, h, hx⟩

theorem Content.members_of_none (h : s.value key = none) : s.members key = ∅ := by
  refine Set.eq_empty_of_forall_notMem ?_
  rintro x ⟨c, hc, -⟩
  rw [h] at hc
  cases hc

/-- A member is taken from the source and added to the target. A source without one disappears, and one key for both has what
it had. -/
structure SetMoved (s s' : Content F) (source target : Value) (v : Value) : Prop where
  member : v ∈ s.members source
  left : s'.members source = if source = target then s.members source else s.members source \ {v}
  joined : s'.members target = insert v (s.members target)
  gone : s'.lookup source = none ↔ s'.members source = ∅
  deadline : ∀ e, s.lookup source = some e → ∀ e', s'.lookup source = some e' → e'.expires_at = e.expires_at
  others : ∀ x, x ≠ source → x ≠ target → s'.lookup x = s.lookup x

/-- A move keeps the union. -/
theorem SetMoved.union {s s' : Content F} {source target v : Value} (h : SetMoved s s' source target v) :
    s'.members source ∪ s'.members target = s.members source ∪ s.members target := by
  have hmember := h.member
  rw [h.left, h.joined]
  split_ifs
  · rw [Set.union_insert, Set.insert_eq_of_mem (Set.mem_union_left _ hmember)]
  · rw [Set.union_insert, ← Set.insert_union, Set.insert_sdiff_singleton, Set.insert_eq_of_mem hmember]

/-- Under a key there is at most a set, or something else. -/
theorem set_or_other (s : Content F) (key : Value) :
    (∃ o : Option (OrdSet Value), s.value key = o.map .set) ∨ ∃ w, s.value key = some w ∧ kind_of w ≠ some .set := by
  cases hvalue : s.value key with
  | none => exact .inl ⟨none, rfl⟩
  | some w =>
    cases w with
    | set c => exact .inl ⟨some c, rfl⟩
    | raw v => exact .inr ⟨_, rfl, by cases v <;> nofun⟩
    | _ => exact .inr ⟨_, rfl, nofun⟩

/-- The content after SMOVE. -/
def afterSmove (s : Content F) (source target : Value) (src : OrdSet Value) (o : Option (OrdSet Value)) (v : Value) : Content F :=
  let dst := if source = target then src.erase v else o.getD ∅
  let s' := (s.change source (.set (src.erase v))).write target (.set (dst.insert v))
  if source ≠ target ∧ (src.erase v).elems = [] then s'.erase source else s'

variable {src : OrdSet Value} {dst : Option (OrdSet Value)}

theorem setMoved_same (hs : s.value key = some (.set src)) (hv : v ∈ src) :
    SetMoved s (afterSmove s key key src (some src) v) key key v := by
  have hpop : (s.change key (.set (src.erase v))).value key = some (.set (src.erase v)) := Content.value_change hs _ nofun
  have hafter : afterSmove s key key src (some src) v = s.change key (.set ((src.erase v).insert v)) := by
    unfold afterSmove
    dsimp only
    rw [if_neg (fun h => h.1 rfl), if_pos rfl, Content.write_of_some hpop, Content.change_change]
  have hvalue := Content.value_change hs (.set ((src.erase v).insert v)) nofun
  have hmembers : Content.members (s.change key (.set ((src.erase v).insert v))) key = s.members key := by
    ext x
    rw [Content.mem_members hvalue, Content.mem_members hs, OrdSet.mem_insert, OrdSet.mem_erase]
    constructor
    · rintro (rfl | ⟨hx, -⟩)
      · exact hv
      · exact hx
    · exact fun hx => (eq_or_ne x v).imp id fun hne => ⟨hx, hne⟩
  have hmember : v ∈ s.members key := (Content.mem_members hs v).2 hv
  rw [hafter]
  refine ⟨hmember, ?_, ?_, iff_of_false (Content.lookup_of_value hvalue) ?_, ?_, fun x hx _ => Content.lookup_change_of_ne hx s _⟩
  · rw [if_pos rfl, hmembers]
  · rw [hmembers, Set.insert_eq_of_mem hmember]
  · rw [hmembers]
    exact Set.nonempty_iff_ne_empty.1 ⟨v, hmember⟩
  · intro e he e' he'
    rw [Content.change, he, Finmap.lookup_insert] at he'
    rw [← Option.some.inj he']

theorem Content.members_congr {s' : Content F} {key : Value} (h : s'.value key = s.value key) :
    s'.members key = s.members key := by
  unfold members
  rw [h]

theorem setMoved_other (hne : key ≠ key') (hs : s.value key = some (.set src)) (hv : v ∈ src) (ho : s.value key' = dst.map .set) :
    SetMoved s (afterSmove s key key' src dst v) key key' v := by
  have hold : s.members key' = {x | x ∈ dst.getD ∅} := by
    cases dst with
    | none =>
      rw [Content.members_of_none ho, eq_comm, Set.eq_empty_iff_forall_notMem]
      exact OrdSet.not_mem_empty
    | some c => exact Set.ext fun x => Content.mem_members ho x
  have hput := Content.lookup_write_of_ne hne (s.change key (.set (src.erase v))) (.set ((dst.getD ∅).insert v))
  have hnew := Content.value_write (s.change key (.set (src.erase v))) key' (v := .set ((dst.getD ∅).insert v)) nofun
  have hothers : ∀ x, x ≠ key → x ≠ key' →
      ((s.change key (.set (src.erase v))).write key' (.set ((dst.getD ∅).insert v))).lookup x = s.lookup x := fun x hx hx' =>
    (Content.lookup_write_of_ne hx' _ _).trans (Content.lookup_change_of_ne hx _ _)
  generalize hs' : (s.change key (.set (src.erase v))).write key' (.set ((dst.getD ∅).insert v)) = s' at *
  have hafter : afterSmove s key key' src dst v = if (src.erase v).elems = [] then s'.erase key else s' := by
    unfold afterSmove
    dsimp only
    rw [if_neg hne, hs']
    simp [hne]
  have hsource : s'.value key = some (.set (src.erase v)) := (Content.value_congr hput).trans (Content.value_change hs _ nofun)
  have hleft : s'.members key = s.members key \ {v} := by
    ext x
    rw [Content.mem_members hsource, Set.mem_sdiff, Content.mem_members hs, OrdSet.mem_erase, Set.mem_singleton_iff]
  have hjoined : s'.members key' = insert v (s.members key') := by
    ext x
    rw [Content.mem_members hnew, hold, OrdSet.mem_insert]
    rfl
  have hdeadline : ∀ e, s.lookup key = some e → ∀ e', s'.lookup key = some e' → e'.expires_at = e.expires_at := by
    intro e he e' he'
    rw [hput, Content.change, he, Finmap.lookup_insert] at he'
    rw [← Option.some.inj he']
  rw [hafter]
  by_cases hempty : (src.erase v).elems = []
  · have hnone : s'.members key = ∅ := Set.eq_empty_of_forall_notMem fun x hx => by
      have hx' : x ∈ (src.erase v).elems := (Content.mem_members hsource x).1 hx
      rw [hempty] at hx'
      cases hx'
    have hgone : Content.members (s'.erase key) key = ∅ :=
      Content.members_of_none (by rw [Content.value, Finmap.lookup_erase]; rfl)
    rw [if_pos hempty]
    refine ⟨(Content.mem_members hs v).2 hv, ?_, ?_, iff_of_true (Finmap.lookup_erase ..) hgone, fun e _ e' he' => ?_,
      fun x hx hx' => ?_⟩
    · rw [if_neg hne, hgone, ← hleft, hnone]
    · rw [Content.members_congr (Content.value_erase_of_ne hne.symm s'), hjoined]
    · rw [Finmap.lookup_erase] at he'
      cases he'
    · rw [Finmap.lookup_erase_ne hx, hothers x hx hx']
  · rw [if_neg hempty]
    refine ⟨(Content.mem_members hs v).2 hv, ?_, hjoined, iff_of_false (Content.lookup_of_value hsource) ?_, hdeadline, hothers⟩
    · rw [if_neg hne, hleft]
    · obtain ⟨x, hx⟩ := List.exists_mem_of_ne_nil _ hempty
      exact Set.nonempty_iff_ne_empty.1 ⟨x, (Content.mem_members hsource x).2 hx⟩

theorem setMoved_afterSmove (hs : s.value key = some (.set src)) (hv : v ∈ src) (ho : s.value key' = dst.map .set) :
    SetMoved s (afterSmove s key key' src dst v) key key' v := by
  by_cases hsame : key = key'
  · subst hsame
    cases dst with
    | none => cases hs.symm.trans ho
    | some c =>
      cases hs.symm.trans ho
      exact setMoved_same hs hv
  · exact setMoved_other hsame hs hv ho

/-! ## SMOVE -/

variable {target : Bytes}

/-- The events of SMOVE, and the end of an empty source. -/
theorem steps_finish_SMOVE {left : OrdSet Value} (htold : ctx.Tells .srem (left.elems = [])) :
    Steps ctx ks s
      (_after_write (.bytes source) .srem >>= fun _ =>
        if left.elems = [] then
          data_remove (.bytes source) >>= fun _ => _notify (.bytes source) .del >>= fun _ =>
            _after_write (.bytes target) .sadd >>= fun _ => pure (Reply.int 1)
        else _after_write (.bytes target) .sadd >>= fun _ => pure (Reply.int 1))
      (.ok (.int 1)) (if left.elems = [] then s.erase (.bytes source) else s) := by
  have hsadd : ctx.EventReturns .sadd := (Ctx.eventReturns_congr rfl).1 htold.1
  refine (steps_after_write htold.1).bind ?_
  split_ifs with hempty
  · refine (steps_remove source).bind ?_
    refine (steps_notify (htold.2 hempty)).bind ?_
    exact (steps_after_write hsadd).bind (.pure _)
  · exact (steps_after_write hsadd).bind (.pure _)

/-- An SMOVE that cannot be told raises, behind the change. -/
theorem steps_finish_SMOVE_error (ks : Set Bytes) (s : Content F) (source target : Bytes) {left : OrdSet Value}
    (huntold : ¬ctx.Tells .srem (left.elems = [])) :
    ∃ s', (s' = s ∨ left.elems = [] ∧ s' = s.erase (.bytes source)) ∧ Steps ctx ks s
      (_after_write (.bytes source) .srem >>= fun _ =>
        if left.elems = [] then
          data_remove (.bytes source) >>= fun _ => _notify (.bytes source) .del >>= fun _ =>
            _after_write (.bytes target) .sadd >>= fun _ => pure (Reply.int 1)
        else _after_write (.bytes target) .sadd >>= fun _ => pure (Reply.int 1))
      (.error .other) s' := by
  by_cases hevent : ctx.EventReturns .srem
  · obtain ⟨hempty, hdel⟩ := Classical.not_imp.1 fun hdel => huntold ⟨hevent, hdel⟩
    refine ⟨_, .inr ⟨hempty, rfl⟩, (steps_after_write hevent).bind (.if_pos hempty ?_)⟩
    exact (steps_remove source).bind ((steps_notify_error hdel).bind_error)
  · exact ⟨s, .inl rfl, (steps_after_write_error hevent).bind_error⟩

/-- SMOVE leaves its source empty only if it is another key. -/
theorem left_empty_iff (same : Prop) [Decidable same] (src : OrdSet Value) (v : Value) :
    (if same then (src.erase v).insert v else src.erase v).elems = [] ↔ ¬same ∧ (src.erase v).elems = [] := by
  split_ifs with h
  · have hmem : v ∈ ((src.erase v).insert v).elems := (OrdSet.mem_insert _ v v).2 (.inl rfl)
    exact iff_of_false (List.ne_nil_of_mem hmem) fun hboth => hboth.1 h
  · exact (and_iff_right h).symm

/-- The content after the member has been put into the target. -/
def afterJoin (s : Content F) (source target : Value) (src : OrdSet Value) (o : Option (OrdSet Value)) (v : Value) : Content F :=
  (s.change source (.set (src.erase v))).write target (.set ((if source = target then src.erase v else o.getD ∅).insert v))

/-- SMOVE takes the member from the source and puts it into the target, and ends as its events do. -/
theorem steps_SMOVE_end (htgt : ctx.Purges ks s target) (hs : s.value (.bytes source) = some (.set src))
    (hhash : v.hashable = true) (hv : v ∈ src)
    (ho : s.value (.bytes target) = dst.map .set) {out : Except (Exc Errors) Reply} {s' : Content F}
    (hend : Steps ctx ks (afterJoin s (.bytes source) (.bytes target) src dst v)
      (_after_write (.bytes source) .srem >>= fun _ =>
        if (if Value.bytes source = .bytes target then (src.erase v).insert v else src.erase v).elems = [] then
          data_remove (.bytes source) >>= fun _ => _notify (.bytes source) .del >>= fun _ =>
            _after_write (.bytes target) .sadd >>= fun _ => pure (Reply.int 1)
        else _after_write (.bytes target) .sadd >>= fun _ => pure (Reply.int 1)) out s') :
    Steps ctx ks s (SMOVE (.bytes source) (.bytes target) v) out s' := by
  refine (steps_set (o := some src) (purges_of_value hs) hs).bind ((steps_needHash hhash).bind (.if_neg (not_not.2 hv) ?_))
  refine (steps_set htgt ho).bind ((steps_store_value _ _).bind ?_)
  unfold afterJoin at hend
  cases dst with
  | none =>
    have hother : Value.bytes target ≠ .bytes source := fun hsame => by
      rw [hsame, hs] at ho
      cases ho
    have hdst : (if Value.bytes source = .bytes target then src.erase v else (none : Option (OrdSet Value)).getD ∅) = ∅ :=
      if_neg hother.symm
    rw [Content.write_of_none ((Content.value_change_of_ne hother s _).trans ho), hdst] at hend
    exact (steps_setitem target _).bind hend
  | some c =>
    have hthere : ∃ w, (s.change (.bytes source) (.set (src.erase v))).value (.bytes target) = some w := by
      by_cases hsame : Value.bytes target = .bytes source
      · rw [hsame]
        exact ⟨_, Content.value_change hs _ nofun⟩
      · exact ⟨_, (Content.value_change_of_ne hsame s _).trans ho⟩
    obtain ⟨w, hw⟩ := hthere
    rw [Content.write_of_some hw] at hend
    exact (steps_store_value _ _).bind hend

theorem afterSmove_eq (s : Content F) (source target : Value) (src : OrdSet Value) (o : Option (OrdSet Value)) (v : Value) :
    afterSmove s source target src o v =
      if (if source = target then (src.erase v).insert v else src.erase v).elems =
        [] then (afterJoin s source target src o v).erase source
      else afterJoin s source target src o v := if_congr (left_empty_iff _ src v).symm rfl rfl

/-- An SMOVE that can be told goes through. -/
theorem steps_SMOVE (htold : ctx.Tells .srem (Value.bytes source ≠ .bytes target ∧ (src.erase v).elems = []))
    (htgt : ctx.Purges ks s target)
    (hs : s.value (.bytes source) = some (.set src)) (hhash : v.hashable = true) (hv : v ∈ src)
    (ho : s.value (.bytes target) = dst.map .set) :
    Steps ctx ks s (SMOVE (.bytes source) (.bytes target) v) (.ok (.int 1))
      (afterSmove s (.bytes source) (.bytes target) src dst v) := by
  rw [afterSmove_eq]
  exact steps_SMOVE_end htgt hs hhash hv ho (steps_finish_SMOVE ⟨htold.1, fun h => htold.2 ((left_empty_iff _ src v).1 h)⟩)

/-- A key has what it had, up to the order of the members of a set. -/
def AsBefore (s s' : Content F) (key : Value) : Prop :=
  s'.lookup key = s.lookup key ∨ ∃ e e' c c', s.lookup key = some e ∧ s'.lookup key = some e' ∧ e'.expires_at = e.expires_at ∧
    e.value = .set c ∧ e'.value = .set c' ∧ ∀ x, x ∈ c' ↔ x ∈ c

/-- An SMOVE that cannot be told raises. The members are where they were only if one key was given for both. -/
theorem steps_SMOVE_untold (huntold : ¬ctx.Tells .srem (Value.bytes source ≠ .bytes target ∧ (src.erase v).elems = []))
    (htgt : ctx.Purges ks s target) (hs : s.value (.bytes source) = some (.set src)) (hhash : v.hashable = true) (hv : v ∈ src)
    (ho : s.value (.bytes target) = dst.map .set) :
    ∃ s', ((∀ key, AsBefore s s' key) ↔ source = target) ∧ Steps ctx ks s (SMOVE (.bytes source) (.bytes target) v)
      (.error .other) s' := by
  have hleft : ¬ctx.Tells .srem
      ((if Value.bytes source = .bytes target then (src.erase v).insert v else src.erase v).elems = []) :=
    mt (fun h => ⟨h.1, fun hgone => h.2 ((left_empty_iff _ src v).2 hgone)⟩) huntold
  obtain ⟨s', hs', hend⟩ :=
    steps_finish_SMOVE_error ks (afterJoin s (.bytes source) (.bytes target) src dst v) source target hleft
  refine ⟨s', ?_, steps_SMOVE_end htgt hs hhash hv ho hend⟩
  obtain ⟨e, he, hvalue⟩ := Content.exists_of_value hs
  by_cases hsame : source = target
  · subst hsame
    obtain rfl := hs'.resolve_right fun h => ((left_empty_iff _ src v).1 h.1).1 rfl
    have hpop : (s.change (.bytes source) (.set (src.erase v))).value (.bytes source) = some (.set (src.erase v)) :=
      Content.value_change hs _ nofun
    refine iff_of_true (fun key => ?_) rfl
    unfold afterJoin
    rw [if_pos rfl, Content.write_of_some hpop, Content.change_change]
    by_cases hkey : key = .bytes source
    · subst hkey
      refine .inr ⟨e, { e with value := .set ((src.erase v).insert v) }, src, (src.erase v).insert v, he, ?_, rfl,
        hvalue, rfl, fun x => ?_⟩
      · rw [Content.change, he]
        exact Finmap.lookup_insert _
      · rw [OrdSet.mem_insert, OrdSet.mem_erase]
        constructor
        · rintro (rfl | ⟨hx, -⟩)
          · exact hv
          · exact hx
        · exact fun hx => (eq_or_ne x v).imp id fun hne => ⟨hx, hne⟩
    · exact .inl (Content.lookup_change_of_ne hkey s _)
  · have hne : Value.bytes source ≠ .bytes target := fun h => hsame (Value.bytes.inj h)
    refine iff_of_false (fun hbefore => ?_) hsame
    have hleft : (afterJoin s (.bytes source) (.bytes target) src dst v).lookup (.bytes source) =
        some { e with value := .set (src.erase v) } := by
      unfold afterJoin
      rw [Content.lookup_write_of_ne hne, Content.change, he]
      exact Finmap.lookup_insert _
    have hwithout : v ∉ src.erase v := fun h => (OrdSet.mem_erase ..).1 h |>.2 rfl
    rcases hs' with rfl | ⟨-, rfl⟩
    · rcases hbefore (.bytes source) with hlookup | ⟨e₁, e₂, c, c', he₁, he₂, -, hc, hc', hmem⟩
      · rw [hleft, he, Option.some.injEq] at hlookup
        rw [← hlookup] at hvalue
        exact hwithout ((Obj.set.inj hvalue).symm ▸ hv)
      · rw [hleft, Option.some.injEq] at he₂
        rw [he, Option.some.injEq] at he₁
        subst he₁ he₂
        rw [hvalue, Obj.set.injEq] at hc
        rw [Obj.set.injEq] at hc'
        subst hc hc'
        exact hwithout ((hmem v).2 hv)
    · rcases hbefore (.bytes source) with hlookup | ⟨e₁, e₂, c, c', -, he₂, -⟩
      · rw [Finmap.lookup_erase, he] at hlookup
        cases hlookup
      · rw [Finmap.lookup_erase] at he₂
        cases he₂

/-- SMOVE replies 1, and no member is lost or gained. -/
def SetDone (s : Content F) (source target v : Value) (r : Reply) (s' : Content F) : Prop :=
  r = .int 1 ∧ SetMoved s s' source target v ∧ s'.members source ∪ s'.members target = s.members source ∪ s.members target

/-- An SMOVE that comes to its events can publish them, or it is given one key for both. -/
def SetTold (ctx : Ctx) (k : KState F) (source target : Bytes) (v : Value) : Prop :=
  ∀ src : OrdSet Value, (k.store.content ctx.clock.mono).value (.bytes source) = some (.set src) → v.hashable = true → v ∈ src →
    (∃ o : Option (OrdSet Value), (k.store.content ctx.clock.mono).value (.bytes target) = o.map .set) → ctx.Opens k target →
      source = target ∨ ctx.Tells .srem ((src.erase v).elems = [])

/-- Each key has what it had, up to the order of the members of a set. -/
def SetsUnchanged (ctx : Ctx) (k : KState F) (s : Content F) : Prop := ∀ key, AsBefore (k.store.content ctx.clock.mono) s key

theorem setsUnchanged_self (ctx : Ctx) (k : KState F) : SetsUnchanged ctx k (k.store.content ctx.clock.mono) := fun _ => .inl rfl

/-- A look for a set whose purge raises. -/
theorem gives_set_error (h : ¬ctx.Opens k source) :
    Gives (_set (.bytes source)) ctx k (.error .other) (k.store.content ctx.clock.mono) :=
  Gives.bind_error (Gives.bind_error (gives_get_error h) _) _

/-- A look at a set that is there changes nothing at all. -/
theorem set_live_run (h : (k.store.content ctx.clock.mono).value (.bytes source) = some (.set src)) :
    _set (.bytes source) ctx k = (.ok (some src), k) := by
  have hkind : expect_kind (.bytes source) .set ctx k = (.ok (some (.set src)), k) := by
    unfold expect_kind
    rw [bind_ok ctx k (get_live_run h)]
    rfl
  unfold _set
  rw [bind_ok ctx k hkind]
  rfl

/-- Where the purge of the target raises nothing is moved. -/
theorem gives_SMOVE_shut {v : Value} (htgt : ¬ctx.Opens k target)
    (hs : (k.store.content ctx.clock.mono).value (.bytes source) = some (.set src))
    (hhash : v.hashable = true) (hv : v ∈ src) :
    Gives (SMOVE (.bytes source) (.bytes target) v) ctx k (.error .other) (k.store.content ctx.clock.mono) := by
  refine Gives.bind_run (set_live_run hs) ?_
  dsimp only
  rw [needHash, if_pos hhash]
  refine Gives.bind_run (show (pure () : K F Unit) ctx k = (.ok (), k) from rfl) ?_
  rw [if_neg (not_not.2 hv)]
  exact Gives.bind_error (gives_set_error htgt) _

/-- A key holds one set. -/
theorem eq_of_set_value {src' : OrdSet Value} (h : s.value (.bytes source) = some (.set src))
    (h' : s.value (.bytes source) = some (.set src')) : src' = src := by
  rw [h] at h'
  cases h'
  rfl

/-- Between two sets SMOVE conserves the members exactly if it can be told. -/
theorem conserves_SMOVE_sets {v : Value} (hvalue : (k.store.content ctx.clock.mono).value (.bytes source) = some (.set src))
    (hhash : v.hashable = true) (hv : v ∈ src) (htgt : ctx.Opens k target)
    (hdst : (k.store.content ctx.clock.mono).value (.bytes target) = dst.map .set) :
    Conserves ctx k (SMOVE (.bytes source) (.bytes target) v) (.int 0)
      (SetDone (k.store.content ctx.clock.mono) (.bytes source) (.bytes target) v) (SetsUnchanged ctx k) ↔
        SetTold ctx k source target v := by
  have hpurges : ctx.Purges {target} (k.store.content ctx.clock.mono) target := purges_of_mem (Set.mem_singleton _)
  by_cases htells : ctx.Tells .srem (Value.bytes source ≠ .bytes target ∧ (src.erase v).elems = [])
  · have hmoved := setMoved_afterSmove hvalue hv hdst
    refine iff_of_true ?_ fun src' hs' _ _ _ _ => ?_
    · exact ⟨_, _, (steps_SMOVE htells hpurges hvalue hhash hv hdst).gives (.one htgt),
        .inl ⟨_, rfl, rfl, hmoved, hmoved.union⟩⟩
    · refine or_iff_not_imp_left.2 fun hne => ⟨htells.1, fun hempty => htells.2 ⟨fun h => hne (Value.bytes.inj h), ?_⟩⟩
      rw [← eq_of_set_value hvalue hs']
      exact hempty
  · obtain ⟨s', hs', hraises⟩ := steps_SMOVE_untold htells hpurges hvalue hhash hv hdst
    constructor
    · intro hconserves src' _ _ _ _ _
      by_contra hother
      exact not_conserves (hraises.gives (.one htgt)) nofun (fun hbefore => hother (.inl (hs'.1 hbefore))) _ hconserves
    · intro htold
      refine ⟨_, _, hraises.gives (.one htgt), .inr ⟨.inr ⟨_, rfl⟩, hs'.2 ?_⟩⟩
      refine (htold src hvalue hhash hv ⟨dst, hdst⟩ htgt).resolve_right fun htells' => htells
        ⟨htells'.1, fun h => htells'.2 h.2⟩

/-- SMOVE conserves the members of the two sets exactly if it can be told. -/
theorem conserves_SMOVE_iff (v : Value) :
    Conserves ctx k (SMOVE (.bytes source) (.bytes target) v) (.int 0)
      (SetDone (k.store.content ctx.clock.mono) (.bytes source) (.bytes target) v) (SetsUnchanged ctx k) ↔
        SetTold ctx k source target v := by
  have hkept := setsUnchanged_self ctx k
  by_cases hsrc : ctx.Opens k source
  case neg =>
    refine iff_of_true (.refused (.inr ⟨_, rfl⟩) (Gives.bind_error (gives_set_error hsrc) _) hkept) fun src hs => ?_
    exact absurd (opens_of_value hs) hsrc
  rcases set_or_other (k.store.content ctx.clock.mono) (.bytes source) with ⟨osrc, hvalue⟩ | ⟨w, hw, hkind⟩
  case inr =>
    have hwrong : Steps ctx ∅ _ _ _ _ := steps_wrong_kind (purges_of_value hw) hw hkind
    refine iff_of_true (.refused (.inr ⟨_, rfl⟩) (Gives.bind_error (Gives.bind_error (hwrong.gives (.none k)) _) _) hkept)
      fun src hs => ?_
    rw [hw, Option.some.injEq] at hs
    exact absurd (hs ▸ rfl) hkind
  cases osrc with
  | none =>
    have hnone : Steps ctx {source} _ (SMOVE (.bytes source) (.bytes target) v) (.ok (.int 0)) _ :=
      (steps_set (o := none) (purges_of_mem (Set.mem_singleton _)) hvalue).bind (.pure _)
    refine iff_of_true (.refused (.inl rfl) (hnone.gives (.one hsrc)) hkept) fun src hs => ?_
    rw [hvalue] at hs
    cases hs
  | some src =>
    have hset : Steps ctx ∅ _ _ _ _ := steps_set (o := some src) (purges_of_value hvalue) hvalue
    by_cases hhash : v.hashable = true
    case neg =>
      refine iff_of_true (.refused (.inr ⟨.other, rfl⟩) ?_ hkept) fun _ _ h => absurd h hhash
      exact (hset.bind (Steps.bind_error (.if_neg hhash (.raise _)))).gives (.none k)
    by_cases hv : v ∈ src
    case neg =>
      refine iff_of_true (.refused (.inl rfl) ?_ hkept) fun src' hs' _ hv' => absurd (eq_of_set_value hvalue hs' ▸ hv') hv
      exact (hset.bind ((steps_needHash hhash).bind (.if_pos hv (.pure _)))).gives (.none k)
    by_cases htgt : ctx.Opens k target
    case neg =>
      exact iff_of_true (.refused (.inr ⟨_, rfl⟩) (gives_SMOVE_shut htgt hvalue hhash hv) hkept) fun _ _ _ _ _ h =>
        absurd h htgt
    rcases set_or_other (k.store.content ctx.clock.mono) (.bytes target) with ⟨dst, hdst⟩ | ⟨w, hw, hkind⟩
    case inr =>
      refine iff_of_true (.refused (.inr ⟨.error .WRONGTYPE, rfl⟩) ?_ hkept) fun _ _ _ _ ⟨o, ho⟩ => ?_
      · refine ((hset.bind ((steps_needHash hhash).bind (.if_neg (not_not.2 hv) ?_)))).gives (.none k)
        exact (Steps.bind_error (steps_wrong_kind (purges_of_value hw) hw hkind)).bind_error
      · rw [hw] at ho
        obtain ⟨c, -, rfl⟩ := Option.map_eq_some_iff.1 ho.symm
        exact absurd rfl hkind
    exact conserves_SMOVE_sets hvalue hhash hv htgt hdst

/-! ## Moves -/

/-- RPUSH has put `x` under `src`, and SET an array under `dst`. -/
def srcAndArray : KState Int :=
  (RPUSH (.bytes (bs "src")) [.bytes (bs "x")] Ctx.plain (arrayStore (bs "dst") [.bytes (bs "a")])).2

end Kagni
