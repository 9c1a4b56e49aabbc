import Kagni.Commands.Lists
import Kagni.Footprints.Basic
import Kagni.Lemmas.ZSet

/-!
# Lists obey the discipline

A list is a `deque` or a Python list, which a client stored as the value of a string. What is pushed must be allowed to be
stored; what is moved was. The pops leave a list empty for a moment, so they obey no discipline in which a list must not be
empty.
-/

namespace Kagni

open Lib Lib.Prog

variable {F : Type} {d : Discipline} {S : Set Value} {key : Value}

/-! ## Values that may be stored -/

namespace Discipline

/-- The items of a permitted list are permitted. -/
theorem items_of_obj {l : ListRef} (h : d.obj (F := F) l.obj) : ∀ v ∈ l.items, d.permits (.store v) := by
  obtain ⟨isDeque, items⟩ := l
  cases isDeque with
  | false => exact (d.value_array items h.1).1
  | true => exact h.1

/-- A deque of permitted items may be stored, unless it is empty and must not be. -/
theorem obj_deque (d : Discipline) (items : List Value) (h : ∀ v ∈ items, d.permits (.store v)) (hne : d.nonempty → items ≠ []) :
    d.obj (F := F) (.deque items) := ⟨h, hne⟩

/-- A list may be changed in place to another one of the same type. -/
theorem obj_list {l : ListRef} (hl : d.obj (F := F) l.obj) (items : List Value) (h : ∀ v ∈ items, d.permits (.store v))
    (hne : d.nonempty → items ≠ []) : d.obj (F := F) (ListRef.obj { l with items := items }) := by
  obtain ⟨isDeque, old⟩ := l
  cases isDeque with
  | false => exact d.obj_raw ((d.value_array old hl.1).2 items h)
  | true => exact d.obj_deque items h hne

end Discipline

/-- A push adds the values and keeps the items. -/
theorem mem_pushed {items vals : List Value} {left : Bool} {v : Value} : v ∈ pushed items vals left ↔ v ∈ items ∨ v ∈ vals := by
  cases left
  · simp [pushed]
  · simp [pushed, or_comm]

/-- What is left after a pop was there. -/
theorem popped_snd_sub {items : List Value} {n : Nat} {left : Bool} {v : Value} (h : v ∈ (popped items n left).2) :
    v ∈ items := by
  cases left
  · exact List.mem_of_mem_take h
  · exact List.mem_of_mem_drop h

/-- What was popped was there. -/
theorem popped_fst_sub {items : List Value} {n : Nat} {left : Bool} {v : Value} (h : v ∈ (popped items n left).1) :
    v ∈ items := by
  cases left
  · exact List.mem_of_mem_drop (List.mem_reverse.1 h)
  · exact List.mem_of_mem_take h

/-- A window that exists is not empty. -/
theorem window_ne_nil {items : List Value} {start stop : Int} {i j : Nat}
    (h : ZSet.rankWindow items.length start stop = some (i, j)) :
    (items.take j).drop i ≠ [] := by
  have := ZSet.rankWindow_some h
  apply List.ne_nil_of_length_pos
  rw [List.length_drop, List.length_take]
  omega

/-! ## Commands -/

/-- A plain list has no left end. -/
theorem computes_needDeque (l : ListRef) (left : Bool) : Computes (needDeque l left : K F Unit) fun _ => True :=
  .ite (fun _ => .raise _) fun _ => .pure trivial

/-- A list that is left empty goes. -/
theorem disciplined_drop_empty (hseen : key ∈ S) (items : List Value) :
    Disciplined d S (_drop_empty key items : K F Unit) fun _ => True :=
  .ite (fun _ => disciplined_discard (.inl hseen) (.pure trivial)) fun _ => .pure trivial

/-- A pop is told of at the key it was taken from. -/
theorem disciplined_pop_notify (hlook : d.permits (.look key)) (hold : d.permits (.create key)) (left : Bool) :
    Disciplined d S (_pop_notify key left : K F Unit) fun _ => True := by
  refine (disciplined_after_write hold _).bind ?_
  intro _ _
  refine (disciplined_is_live hlook).bind ?_
  intro live _
  exact .ite (fun _ => disciplined_notify hold .del) fun _ => .pure trivial

/-- A push writes the list it looked at, or a new one. -/
theorem disciplined_push {vals : List Value} {xx : Bool} (hlook : d.permits (.look key))
    (hkey : xx = false → key.hashable = true → d.permits (.create key)) (hval : ∀ v ∈ vals, d.permits (.store v)) (command : Cmd)
    (left : Bool) : Disciplined d S (push command left xx key vals : K F Reply) fun _ => True := by
  unfold push
  refine built_check fun hne => ?_
  refine (looks_list hlook).andThen ?_
  intro o ho
  have hpushed : ∀ items, pushed items vals left ≠ [] := by
    intro items
    obtain ⟨v, hv⟩ := List.exists_mem_of_ne_nil _ hne
    exact List.ne_nil_of_mem (mem_pushed.2 (.inr hv))
  cases o with
  | none =>
    refine .ite (fun _ => .pure trivial) fun hxx => ?_
    have hobj := d.obj_deque (F := F) (pushed [] vals left) (fun v hv => hval v (by simpa using mem_pushed.1 hv))
      fun _ => hpushed []
    refine (disciplined_setitem (hkey (eq_false_of_ne_true hxx)) hobj (d.seen_insert S key)).bind ?_
    intro _ hhash
    exact (disciplined_after_write (hkey (eq_false_of_ne_true hxx) hhash) _).bind fun _ _ => .pure trivial
  | some lst =>
    obtain ⟨hold, hl⟩ := ho lst rfl
    have hitems : ∀ v ∈ pushed lst.items vals left, d.permits (.store v) := by
      intro v hv
      rcases mem_pushed.1 hv with hv | hv
      · exact Discipline.items_of_obj hl v hv
      · exact hval v hv
    refine (of_computes (computes_needDeque lst left)).bind ?_
    intro _ _
    refine (disciplined_store_value (Discipline.obj_list hl _ hitems fun _ => hpushed _) hlook (Set.mem_insert key S)).bind ?_
    intro _ _
    exact (disciplined_after_write hold _).bind fun _ _ => .pure trivial

theorem disciplined_LLEN (hlook : d.permits (.look key)) : Disciplined d S (LLEN key : K F Reply) fun _ => True := by
  refine (looks_list hlook).andThen ?_
  intro o _
  cases o <;> exact .pure trivial

theorem disciplined_LRANGE (hlook : d.permits (.look key)) (start stop : Int) :
    Disciplined d S (LRANGE key start stop : K F Reply) fun _ => True := by
  refine (looks_list hlook).andThen ?_
  intro o _
  cases o <;> exact .pure trivial

theorem disciplined_LINDEX (hlook : d.permits (.look key)) (index : Int) :
    Disciplined d S (LINDEX key index : K F Reply) fun _ => True := by
  refine (looks_list hlook).andThen ?_
  intro o _
  cases o <;> exact .pure trivial

/-- A pop writes the rest before an empty list goes, which needs a discipline that lets it be for so long. -/
theorem disciplined_popInPlace {lst : ListRef} (hempty : ¬d.nonempty) (hlook : d.permits (.look key)) (hseen : key ∈ S)
    (hold : d.permits (.create key)) (hl : d.obj (F := F) lst.obj) (n : Nat) (left : Bool) :
    Disciplined d S (popInPlace key lst n left : K F _) fun _ => True := by
  have hobj := Discipline.obj_list hl (popped lst.items n left).2
    (fun v hv => Discipline.items_of_obj hl v (popped_snd_sub hv)) fun h => absurd h hempty
  refine (of_computes (computes_needDeque lst left)).bind ?_
  intro _ _
  refine (disciplined_store_value hobj hlook hseen).bind ?_
  intro _ _
  refine (disciplined_drop_empty hseen _).bind ?_
  intro _ _
  exact (disciplined_pop_notify hlook hold left).bind fun _ _ => .pure trivial

/-- LPOP and RPOP pop from the list they looked at. -/
theorem disciplined_pop (hempty : ¬d.nonempty) (hlook : d.permits (.look key)) (count : Option Int) (left : Bool) :
    Disciplined d S (_pop key count left : K F Reply) fun _ => True := by
  have hseen := Set.mem_insert key S
  unfold _pop
  refine built_check fun _ => ?_
  refine (looks_list hlook).andThen ?_
  intro o ho
  cases o with
  | none => exact .pure trivial
  | some lst =>
    obtain ⟨hold, hl⟩ := ho lst rfl
    refine .ite (fun _ => .pure trivial) ?_
    intro _
    refine .ite (fun _ => disciplined_discard (.inl hseen) (.pure trivial)) ?_
    intro _
    cases count with
    | none =>
      refine (disciplined_popInPlace hempty hlook hseen hold hl 1 left).bind ?_
      intro vals _
      split
      · exact .pure trivial
      · exact .raise _
    | some count => exact (disciplined_popInPlace hempty hlook hseen hold hl _ left).bind fun _ _ => .pure trivial

/-- A position is within the list. -/
theorem position_lt {length : Nat} {index : Int} {i : Nat} (h : position length index = some i) : i < length := by
  simp only [position, Option.ite_none_left_eq_some, Option.some.injEq] at h
  obtain ⟨hin, rfl⟩ := h
  omega

/-- LSET replaces one item. -/
theorem disciplined_LSET {val : Value} (hlook : d.permits (.look key)) (hval : d.permits (.store val)) (index : Int) :
    Disciplined d S (LSET key index val : K F Reply) fun _ => True := by
  refine (looks_list hlook).andThen ?_
  intro o ho
  cases o with
  | none => exact .raise _
  | some lst =>
    obtain ⟨hold, hl⟩ := ho lst rfl
    dsimp only
    split
    · exact .raise _
    · rename_i i hi
      have hitems : ∀ v ∈ lst.items.set i val, d.permits (.store v) := by
        intro v hv
        rcases List.mem_or_eq_of_mem_set hv with hv | rfl
        · exact Discipline.items_of_obj hl v hv
        · exact hval
      have hne : d.nonempty → lst.items.set i val ≠ [] := by
        intro _ hnil
        have hlen := position_lt hi
        rw [← List.length_eq_zero_iff, List.length_set] at hnil
        omega
      refine (disciplined_store_value (Discipline.obj_list hl _ hitems hne) hlook (Set.mem_insert key S)).bind ?_
      intro _ _
      exact (disciplined_after_write hold .lset).bind fun _ _ => .pure trivial

/-- LTRIM keeps a window, or removes the key. -/
theorem disciplined_LTRIM (hlook : d.permits (.look key)) (start stop : Int) :
    Disciplined d S (LTRIM key start stop : K F Reply) fun _ => True := by
  have hseen := d.seen_insert S key
  refine (looks_list hlook).andThen ?_
  intro o ho
  cases o with
  | none => exact .pure trivial
  | some lst =>
    obtain ⟨hold, hl⟩ := ho lst rfl
    dsimp only
    split
    · exact disciplined_discard hseen (.pure trivial)
    · rename_i i j hwindow
      refine (disciplined_after_write hold .ltrim).bind ?_
      intro _ _
      refine .ite (fun _ => .pure trivial) ?_
      intro _
      have hobj := d.obj_deque (F := F) ((lst.items.take j).drop i)
        (fun v hv => Discipline.items_of_obj hl v (List.mem_of_mem_take (List.mem_of_mem_drop hv))) fun _ => window_ne_nil hwindow
      exact (disciplined_data_set (fun _ => hold) hobj hseen (fun _ => hlook) (.inr (by nofun))).bind fun _ _ => .pure trivial

/-- What the loop leaves was there. -/
theorem mem_of_lremLoop {val : Value} {count : Nat} {items : List Value} {removed : Nat} {v : Value}
    (h : v ∈ (lremLoop val count items removed).1) : v ∈ items := by
  induction items generalizing removed with
  | nil => exact h
  | cons item rest ih =>
    unfold lremLoop at h
    split at h
    · exact List.mem_cons_of_mem _ (ih h)
    · rcases List.mem_cons.1 h with rfl | h
      · exact List.mem_cons_self
      · exact List.mem_cons_of_mem _ (ih h)

/-- What LREM keeps, and how much it removes. -/
def lremResult (items : List Value) (count : Int) (val : Value) : List Value × Nat :=
  if count ≥ 0 then lremLoop val count.toNat items 0
  else ((lremLoop val count.natAbs items.reverse 0).1.reverse, (lremLoop val count.natAbs items.reverse 0).2)

/-- What LREM leaves was there. -/
theorem mem_of_lremResult {items : List Value} {count : Int} {val v : Value} (h : v ∈ (lremResult items count val).1) :
    v ∈ items := by
  unfold lremResult at h
  split at h
  · exact mem_of_lremLoop h
  · exact List.mem_reverse.1 (mem_of_lremLoop (List.mem_reverse.1 h))

/-- LREM in steps: the removal, the write, an empty list goes. -/
theorem LREM_eq (key : Value) (count : Int) (val : Value) : (LREM key count val : K F Reply) = (do
    match ← _list key with
    | none => return .int 0
    | some lst =>
      if (lremResult lst.items count val).2 ≠ 0 then
        _after_write key .lrem
        if (lremResult lst.items count val).1 ≠ [] then data_set key (.deque (lremResult lst.items count val).1) none true
        else
          let _ ← data_remove key
          _notify key .del
      return .int (lremResult lst.items count val).2) := by
  unfold LREM lremResult
  refine congrArg (_list key >>= ·) (funext fun o => ?_)
  cases o with
  | none => rfl
  | some lst => rfl

/-- LREM writes what it leaves. -/
theorem disciplined_LREM (hlook : d.permits (.look key)) (count : Int) (val : Value) :
    Disciplined d S (LREM key count val : K F Reply) fun _ => True := by
  have hseen := d.seen_insert S key
  rw [LREM_eq]
  refine (looks_list hlook).andThen ?_
  intro o ho
  cases o with
  | none => exact .pure trivial
  | some lst =>
    obtain ⟨hold, hl⟩ := ho lst rfl
    refine .ite (fun _ => ?_) fun _ => .pure trivial
    refine (disciplined_after_write hold .lrem).bind ?_
    intro _ _
    refine .ite (fun hne => ?_) fun _ => ?_
    · have hobj := d.obj_deque (F := F) _ (fun v hv => Discipline.items_of_obj hl v (mem_of_lremResult hv)) fun _ => hne
      exact (disciplined_data_set (fun _ => hold) hobj hseen (fun _ => hlook) (.inr (by nofun))).bind fun _ _ => .pure trivial
    · refine (disciplined_remove hlook hseen).bind ?_
      intro _ _
      exact (disciplined_notify hold .del).bind fun _ _ => .pure trivial

/-- LINSERT writes the list with one more item. -/
theorem disciplined_LINSERT {val : Value} (hlook : d.permits (.look key)) (hval : d.permits (.store val))
    («where» pivot : Value) :
    Disciplined d S (LINSERT key «where» pivot val : K F Reply) fun _ => True := by
  refine (of_computes (computes_upperArg «where»)).bind ?_
  intro side _
  refine .bind (Q := fun _ => True) ?_ fun offset _ => ?_
  · refine .ite (fun _ => .pure trivial) ?_
    intro _
    exact .ite (fun _ => .pure trivial) fun _ => .raise _
  refine (looks_list hlook).andThen ?_
  intro o ho
  cases o with
  | none => exact .pure trivial
  | some lst =>
    obtain ⟨hold, hl⟩ := ho lst rfl
    dsimp only
    split
    · exact .pure trivial
    · rename_i i hi
      have hitems : ∀ v ∈ lst.items.insertIdx (i + offset) val, d.permits (.store v) := by
        intro v hv
        rcases List.eq_or_mem_of_mem_insertIdx hv with rfl | hv
        · exact hval
        · exact Discipline.items_of_obj hl v hv
      have hne : d.nonempty → lst.items.insertIdx (i + offset) val ≠ [] := by
        intro _ hnil
        have hlen := (List.findIdx?_eq_some_iff_getElem.1 hi).1
        have hle := List.length_le_length_insertIdx (l := lst.items) (x := val) (i := i + offset)
        rw [hnil] at hle
        simp at hle
        simp [hle] at hlen
      refine (disciplined_store_value (Discipline.obj_list hl _ hitems hne) hlook (Set.mem_insert key S)).bind ?_
      intro _ _
      exact (disciplined_after_write hold .linsert).bind fun _ _ => .pure trivial

/-- A side is read from its argument. -/
theorem computes_list_side («where» : Value) : Computes (_list_side «where» : K F Bool) fun _ => True := by
  refine (computes_upperArg «where»).bind ?_
  intro _ _
  refine .ite (fun _ => .pure trivial) ?_
  intro _
  exact .ite (fun _ => .pure trivial) fun _ => .raise _

/-- An item is popped from the source and pushed to the destination. -/
theorem disciplined_move {source destination : Value} (hempty : ¬d.nonempty) (hsource : d.permits (.look source))
    (hdestination : d.permits (.look destination)) (hkey : destination.hashable = true → d.permits (.create destination))
    (from_left to_left : Bool) : Disciplined d S (_move source destination from_left to_left : K F Reply) fun _ => True := by
  refine (looks_list hsource).andThen ?_
  intro o ho
  cases o with
  | none => exact .pure trivial
  | some src =>
    obtain ⟨hold, hl⟩ := ho src rfl
    have hsrc := d.seen_insert S source
    refine .ite (fun _ => disciplined_discard hsrc (.pure trivial)) fun _ => ?_
    have hdst : Looks d (insert source S) destination
        (if destination = source then pure (some src) else _list destination : K F (Option ListRef)) fun o =>
          ∀ l, o = some l → d.permits (.create destination) ∧ d.obj (F := F) l.obj := by
      by_cases h : destination = source
      · subst h
        simp only [if_true]
        refine ⟨fun {_} {f} {_} hf => ?_⟩
        have hrun := hf (some src) fun l hl' => Option.some.inj hl' ▸ ⟨hold, hl⟩
        rwa [Set.insert_eq_of_mem (Set.mem_insert destination S), ← pure_bind (some src) f] at hrun
      · simp only [if_neg h]
        exact looks_list hdestination
    refine hdst.andThen ?_
    intro dst hdst
    refine (of_computes (computes_needDeque src from_left)).bind ?_
    intro _ _
    have hseen : source ∈ insert destination (insert source S) := by simp
    split
    · rename_i value rest hpopped
      have hvalue : d.permits (.store value) :=
        Discipline.items_of_obj hl value (popped_fst_sub (show value ∈ (popped _ 1 from_left).1 by rw [hpopped]; simp))
      have hrest : ∀ v ∈ rest, d.permits (.store v) := fun v hv =>
        Discipline.items_of_obj hl v (popped_snd_sub (show v ∈ (popped _ 1 from_left).2 by rw [hpopped]; exact hv))
      have hend : d.permits (.create destination) → Disciplined d (insert destination (insert source S)) (do
          _after_write destination (if to_left then .lpush else .rpush)
          _after_write source (if from_left then .lpop else .rpop)
          if destination ≠ source ∧ rest = [] then
            let _ ← data_remove source
            _notify source .del
          return .ofValue value : K F Reply) fun _ => True := by
        intro hmade
        refine (disciplined_after_write hmade _).bind ?_
        intro _ _
        refine (disciplined_after_write hold _).bind ?_
        intro _ _
        refine .ite (fun _ => ?_) fun _ => .pure trivial
        refine (disciplined_remove hsource (.inl hseen)).bind ?_
        intro _ _
        exact (disciplined_notify hold .del).bind fun _ _ => .pure trivial
      refine (disciplined_store_value (Discipline.obj_list hl rest hrest fun h => absurd h hempty) hsource hseen).bind ?_
      intro _ _
      cases dst with
      | none =>
        have hobj := d.obj_deque (F := F) [value] (by simpa using hvalue) fun h => absurd h hempty
        exact (disciplined_setitem hkey hobj (d.seen_insert _ destination)).bind fun _ h => hend (hkey h)
      | some dst =>
        obtain ⟨hmade, hdst⟩ := hdst dst rfl
        have hitems : ∀ v ∈ pushed (if destination = source then rest else dst.items) [value] to_left, d.permits (.store v) := by
          intro v hv
          rcases mem_pushed.1 hv with hv | hv
          · split at hv
            · exact hrest v hv
            · exact Discipline.items_of_obj hdst v hv
          · rw [List.mem_singleton.1 hv]
            exact hvalue
        refine (of_computes (computes_needDeque dst to_left)).bind ?_
        intro _ _
        have hobj := Discipline.obj_list hdst _ hitems fun h => absurd h hempty
        exact (disciplined_store_value hobj hdestination (Set.mem_insert _ _)).bind fun _ _ => hend hmade
    · exact .raise _

/-- LMOVE reads its sides and moves. -/
theorem disciplined_LMOVE {source destination : Value} (hempty : ¬d.nonempty) (hsource : d.permits (.look source))
    (hdestination : d.permits (.look destination)) (hkey : destination.hashable = true → d.permits (.create destination))
    (wherefrom whereto : Value) : Disciplined d S (LMOVE source destination wherefrom whereto : K F Reply) fun _ => True := by
  refine (of_computes (computes_list_side wherefrom)).bind ?_
  intro _ _
  refine (of_computes (computes_list_side whereto)).bind ?_
  intro _ _
  exact disciplined_move hempty hsource hdestination hkey _ _

/-- The COUNT of LMPOP is read. -/
theorem computes_lmpopOptions (options : List Value) : Computes (lmpopOptions options : K F Int) fun _ => True := by
  unfold lmpopOptions
  split
  · exact .pure trivial
  · exact (computes_upperArg _).bind fun _ _ => .raise _
  · refine (computes_upperArg _).bind ?_
    intro _ _
    refine .ite (fun _ => ?_) fun _ => .raise _
    refine (computes_orThrow _ _).bind ?_
    intro _ _
    refine built_check fun _ => ?_
    exact built_check fun _ => .pure trivial

/-- The keys are looked at until one has a list to pop from. -/
theorem disciplined_lmpopLoop {keys : List Value} (hempty : ¬d.nonempty) (hlook : ∀ key ∈ keys, d.permits (.look key))
    (count : Int)
    (from_left : Bool) : Disciplined d S (lmpopLoop count from_left keys : K F Reply) fun _ => True := by
  induction keys generalizing S with
  | nil => exact .pure trivial
  | cons key keys ih =>
    obtain ⟨hkey, hkeys⟩ := List.forall_mem_cons.1 hlook
    have hseen := Set.mem_insert key S
    refine (looks_list hkey).andThen ?_
    intro o ho
    cases o with
    | none => exact ih hkeys
    | some lst =>
      obtain ⟨hold, hl⟩ := ho lst rfl
      refine .ite (fun _ => disciplined_discard (.inl hseen) (ih hkeys)) fun _ => ?_
      exact (disciplined_popInPlace hempty hkey hseen hold hl _ from_left).bind fun _ _ => .pure trivial

/-- LMPOP reads its keys from the arguments. -/
theorem disciplined_LMPOP {numkeys : Int} {rest : List Value} (hempty : ¬d.nonempty)
    (hlook : ∀ key ∈ rest.take numkeys.toNat, d.permits (.look key)) :
    Disciplined d S (LMPOP numkeys rest : K F Reply) fun _ => True := by
  unfold LMPOP
  refine built_check fun _ => ?_
  split
  · exact .raise _
  · rename_i side options _
    refine (of_computes (computes_list_side side)).bind ?_
    intro _ _
    refine (of_computes (computes_lmpopOptions options)).bind ?_
    intro _ _
    exact disciplined_lmpopLoop hempty hlook _ _

/-- The options of LPOS are read. -/
theorem computes_lposOptions (rank : Int) (count : Option Int) (maxlen : Int) (options : List Value) :
    Computes (lposOptions rank count maxlen options : K F _) fun _ => True := by
  intro S
  fun_induction lposOptions (F := F) rank count maxlen options with
  | case1 => exact .pure trivial
  | case2 _ _ _ opt => exact (computes_upperArg opt).bind fun _ _ => .raise _
  | case3 rank count maxlen opt value rest ih1 ih2 ih3 =>
    refine (computes_upperArg opt).bind ?_
    intro _ _
    refine built_check fun _ => ?_
    refine (computes_orThrow _ _).bind ?_
    intro n _
    refine .ite (fun _ => ?_) fun _ => .ite (fun _ => ?_) fun _ => ?_
    · exact built_check fun _ => ih1 _
    · exact built_check fun _ => ih2 _
    · exact built_check fun _ => ih3 _

theorem disciplined_LPOS (hlook : d.permits (.look key)) (element : Value) (options : List Value) :
    Disciplined d S (LPOS key element options : K F Reply) fun _ => True := by
  refine (of_computes (computes_lposOptions 1 none 0 options)).bind ?_
  intro o _
  refine (looks_list hlook).andThen ?_
  intro lst _
  cases lst with
  | none => exact .pure trivial
  | some lst => exact .ite (fun _ => .pure trivial) fun _ => .pure trivial

end Kagni
