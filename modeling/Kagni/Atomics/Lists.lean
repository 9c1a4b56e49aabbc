import Kagni.Footprints.Drain
import Kagni.Lemmas.Atomic

/-!
# List commands, as a whole or not at all

A list that is a plain Python list has no `popleft` and no `appendleft`, so a move to the left end of one raises when the
element has left its source. Every other command finds out before it writes.
-/

namespace Kagni

open Lib Lib.Prog

variable {F : Type}

/-- One element is popped off a list that has one. -/
theorem popped_one {items : List Value} (h : items ≠ []) (left : Bool) : ∃ v, (popped items 1 left).1 = [v] := by
  have hpos := List.length_pos_of_ne_nil h
  cases left with
  | true => exact List.length_eq_one_iff.1 (by simp [popped]; omega)
  | false => exact List.length_eq_one_iff.1 (by simp [popped]; omega)

namespace Watch

variable [PyFloat F] {w : Watch F} {key : Value}

/-- A list has no order to keep. -/
theorem inOrder_list (l : ListRef) : w.calm → (l.obj : Obj F).InOrder := by
  intro _
  unfold ListRef.obj
  split <;> trivial

theorem inOrder_deque (items : List Value) : w.calm → (Obj.deque items : Obj F).InOrder := fun _ => trivial

/-- The list under a key is one that the commands store. -/
theorem list_of_calm (hcalm : w.calm) {o : Option ListRef} (ho : w.start.value key = o.map ListRef.obj) {l : ListRef}
    (hl : o = some l) :
    l.isDeque = true ∧ (∀ v ∈ l.items, v.IsBytes) ∧ l.items ≠ [] := by
  subst hl
  exact list_of_collections (w.typed hcalm key l.obj ho)

/-- The list of a calm command is a deque. -/
theorem commits_needDeque {l : ListRef} (h : w.calm → l.isDeque = true) (left : Bool) :
    w.Commits (needDeque l left) fun _ => True :=
  commits_of_computes (computes_needDeque l left) fun hc => ⟨(), needDeque_deque (h hc) left⟩

/-- A push checks the kind first. -/
theorem atomic_push {command : Cmd} {vals : List Value} (left xx : Bool) (hkey : w.calm → key.IsBytes) :
    w.Atomic (push command left xx key vals) w.Answers := by
  unfold push
  refine .check fun _ => ?_
  refine (reads_list key).andThen ?_
  intro o ho
  cases o with
  | none =>
    refine .ite (fun _ => .pure fun _ => rfl) fun _ =>
      ((commits_setitem hkey (.inr ho) (inOrder_deque _)).bind fun _ _ => ?_).atomic
    exact (commits_after_write hkey _).bind fun _ _ => .pure fun _ => rfl
  | some lst =>
    refine (reads_of_computes (computes_needDeque lst left)).andThen fun _ _ =>
      ((commits_store_value (inOrder_list _)).bind fun _ _ => ?_).atomic
    exact (commits_after_write hkey _).bind fun _ _ => .pure fun _ => rfl

theorem reads_LLEN (key : Value) : w.Reads (LLEN key) fun _ => True := by
  refine (reads_list key).bind ?_
  intro o _
  cases o <;> exact .pure trivial

theorem reads_LRANGE (key : Value) (start stop : Int) : w.Reads (LRANGE key start stop) fun _ => True := by
  refine (reads_list key).bind ?_
  intro o _
  cases o <;> exact .pure trivial

theorem reads_LINDEX (key : Value) (index : Int) : w.Reads (LINDEX key index) fun _ => True := by
  refine (reads_list key).bind ?_
  intro o _
  cases o <;> exact .pure trivial

/-! ## Pops -/

/-- What a pop does to a list that has the method. -/
theorem commits_popped (lst : ListRef) (n : Nat) (left : Bool) (hkey : w.calm → key.IsBytes) :
    w.Commits (do
      store_value key (ListRef.obj { lst with items := (popped lst.items n left).2 })
      _drop_empty key (popped lst.items n left).2
      _pop_notify key left
      return (popped lst.items n left).1) (· = (popped lst.items n left).1) := by
  refine (commits_store_value (inOrder_list _)).bind ?_
  intro _ _
  refine (commits_drop hkey).bind ?_
  intro _ _
  refine Commits.bind (Q := fun _ => True) ?_ fun _ _ => .pure rfl
  refine (commits_after_write hkey _).bind ?_
  intro _ _
  refine (commits_is_live hkey).bind ?_
  intro _ _
  refine .ite (fun _ => ?_) fun _ => .pure trivial
  exact commits_notify hkey .del

/-- A pop finds out first whether the list has such an end. -/
theorem atomic_popInPlace (lst : ListRef) (n : Nat) (left : Bool) (hkey : w.calm → key.IsBytes) :
    w.Atomic (popInPlace key lst n left) (· = (popped lst.items n left).1) :=
  (reads_of_computes (computes_needDeque lst left)).andThen fun _ _ => (commits_popped lst n left hkey).atomic

/-- LPOP and RPOP check the count and the kind first. -/
theorem atomic_pop (count : Option Int) (left : Bool) (hkey : w.calm → key.IsBytes) :
    w.Atomic (_pop key count left) w.Answers := by
  unfold _pop
  refine .check fun _ => ?_
  refine (reads_list key).andThen ?_
  intro o ho
  cases o with
  | none => cases count <;> exact .pure fun _ => rfl
  | some lst =>
    have hitems : w.calm → ∀ v ∈ lst.items, v.IsBytes := fun hc => (list_of_calm hc ho rfl).2.1
    refine .ite (fun _ => .pure fun _ => rfl) ?_
    intro _
    refine .ite (fun _ => ?_) fun hne => ?_
    · refine Commits.atomic ?_
      refine (commits_remove hkey).bind ?_
      intro _ _
      refine .pure fun _ => ?_
      cases count <;> rfl
    cases count with
    | none =>
      refine (atomic_popInPlace lst 1 left hkey).andThen ?_
      intro vals hvals
      obtain ⟨v, hv⟩ := popped_one hne left
      rw [hvals, hv]
      exact .pure fun hc => Reply.encodes_ofValue (hitems hc v (popped_fst_sub (by rw [hv]; exact List.mem_singleton_self v)))
    | some count =>
      refine (atomic_popInPlace lst _ left hkey).andThen fun vals hvals => .pure fun hc => Reply.encodes_values fun v hv => ?_
      rw [hvals] at hv
      exact hitems hc v (popped_fst_sub hv)

/-- The loop of LMPOP, of which nothing is asked when the command is not calm. -/
theorem commits_lmpopLoop (hcalm : ¬w.calm) (count : Int) (from_left : Bool) (keys : List Value) :
    w.Commits (lmpopLoop count from_left keys) w.Answers := by
  induction keys with
  | nil => exact .pure fun _ => rfl
  | cons key keys ih =>
    have hkey : w.calm → key.IsBytes := fun hc => absurd hc hcalm
    refine (commits_of_reads hcalm fun w' _ => (reads_list key).weaken fun _ _ => trivial).bind ?_
    intro o _
    cases o with
    | none => exact ih
    | some lst =>
      refine .ite (fun _ => (commits_remove hkey).bind fun _ _ => ih) fun _ => ?_
      refine Commits.bind (Q := fun _ => True) ?_ fun _ _ => .pure fun hc => absurd hc hcalm
      refine (commits_needDeque (fun hc => absurd hc hcalm) from_left).bind ?_
      intro _ _
      exact (commits_popped lst _ from_left hkey).weaken fun _ _ => trivial

/-- An empty list that the loop finds is dropped; a store that the commands made holds none. -/
theorem atomic_lmpopLoop {keys : List Value} (hkeys : w.calm → ∀ key ∈ keys, key.IsBytes) (count : Int) (from_left : Bool) :
    w.Atomic (lmpopLoop count from_left keys) w.Answers := by
  induction keys with
  | nil => exact .pure fun _ => rfl
  | cons key keys ih =>
    have hkey : w.calm → key.IsBytes := fun hc => hkeys hc key List.mem_cons_self
    refine (reads_list key).andThen ?_
    intro o ho
    cases o with
    | none => exact ih fun hc v hv => hkeys hc v (List.mem_cons_of_mem _ hv)
    | some lst =>
      refine .ite (fun hnil => ?_) fun _ => (atomic_popInPlace lst _ from_left hkey).andThen fun vals hvals => .pure fun hc => ?_
      · have hcalm : ¬w.calm := fun hc => (list_of_calm hc ho rfl).2.2 hnil
        refine Commits.atomic ?_
        refine (commits_remove hkey).bind ?_
        intro _ _
        exact commits_lmpopLoop hcalm count from_left keys
      · have hitems := (list_of_calm hc ho rfl).2.1
        rw [hvals]
        refine Reply.encodes_list (List.forall_mem_cons.2 ⟨Reply.encodes_ofValue (hkey hc), List.forall_mem_singleton.2 ?_⟩)
        exact Reply.encodes_values fun v hv => hitems v (popped_fst_sub hv)

/-- LMPOP reads its arguments first. -/
theorem atomic_LMPOP {rest : List Value} (numkeys : Int) (hrest : w.calm → ∀ v ∈ rest, v.IsBytes) :
    w.Atomic (LMPOP numkeys rest) w.Answers := by
  unfold LMPOP
  refine .check fun _ => ?_
  split
  · exact .raise
  · refine (reads_of_computes (computes_list_side _)).andThen ?_
    intro _ _
    refine (reads_of_computes (computes_lmpopOptions _)).andThen ?_
    intro _ _
    exact atomic_lmpopLoop (fun hc v hv => hrest hc v (List.mem_of_mem_take hv)) _ _

/-! ## Changes of a list -/

/-- LSET checks the kind and the index first. -/
theorem atomic_LSET (index : Int) (val : Value) (hkey : w.calm → key.IsBytes) : w.Atomic (LSET key index val) w.Answers := by
  refine (reads_list key).andThen ?_
  intro o _
  cases o with
  | none => exact .raise
  | some lst =>
    dsimp only
    split
    · exact .raise
    · refine Commits.atomic ?_
      refine (commits_store_value (inOrder_list _)).bind ?_
      intro _ _
      exact (commits_after_write hkey .lset).bind fun _ _ => .pure fun _ => rfl

/-- LTRIM checks the kind first. -/
theorem atomic_LTRIM (start stop : Int) (hkey : w.calm → key.IsBytes) : w.Atomic (LTRIM key start stop) w.Answers := by
  refine (reads_list key).andThen ?_
  intro o _
  cases o with
  | none => exact .pure fun _ => rfl
  | some lst =>
    dsimp only
    split
    · exact ((commits_remove hkey).bind fun _ _ => .pure fun _ => rfl).atomic
    · refine (reads_after_write key .ltrim).andThen ?_
      intro _ _
      refine .ite (fun _ => .pure fun _ => rfl) ?_
      intro _
      exact (atomic_data_set (inOrder_deque _)).andThen fun _ _ => .pure fun _ => rfl

/-- LREM checks the kind first. -/
theorem atomic_LREM (count : Int) (val : Value) (hkey : w.calm → key.IsBytes) : w.Atomic (LREM key count val) w.Answers := by
  rw [LREM_eq]
  refine (reads_list key).andThen ?_
  intro o _
  cases o with
  | none => exact .pure fun _ => rfl
  | some lst =>
    refine .ite (fun _ => ?_) fun _ => .pure fun _ => rfl
    refine (reads_after_write key .lrem).andThen ?_
    intro _ _
    refine .ite (fun _ => ?_) fun _ => ?_
    · exact (atomic_data_set (inOrder_deque _)).andThen fun _ _ => .pure fun _ => rfl
    · refine Commits.atomic ?_
      refine (commits_remove hkey).bind ?_
      intro _ _
      exact (commits_notify hkey .del).bind fun _ _ => .pure fun _ => rfl

/-- LINSERT checks the side and the kind first. -/
theorem atomic_LINSERT («where» pivot val : Value) (hkey : w.calm → key.IsBytes) :
    w.Atomic (LINSERT key «where» pivot val) w.Answers := by
  refine (reads_of_computes (computes_upperArg «where»)).andThen ?_
  intro side _
  refine Reads.andThen (Q := fun _ => True) ?_ fun offset _ => ?_
  · refine .ite (fun _ => .pure trivial) ?_
    intro _
    exact .ite (fun _ => .pure trivial) fun _ => .raise
  refine (reads_list key).andThen ?_
  intro o _
  cases o with
  | none => exact .pure fun _ => rfl
  | some lst =>
    dsimp only
    split
    · exact .pure fun _ => rfl
    · refine Commits.atomic ?_
      refine (commits_store_value (inOrder_list _)).bind ?_
      intro _ _
      exact (commits_after_write hkey .linsert).bind fun _ _ => .pure fun _ => rfl

/-! ## Moves -/

/-- A move checks both kinds before it pops. -/
theorem atomic_move {source destination : Value} (from_left to_left : Bool) (hsource : w.calm → source.IsBytes)
    (hdestination : w.calm → destination.IsBytes) : w.Atomic (_move source destination from_left to_left) w.Answers := by
  refine (reads_list source).andThen ?_
  intro o ho
  cases o with
  | none => exact .pure fun _ => rfl
  | some src =>
    refine .ite (fun _ => ((commits_remove hsource).bind fun _ _ => .pure fun _ => rfl).atomic) fun _ => ?_
    have hdst : w.Reads (if destination = source then pure (some src) else _list destination : K F (Option ListRef)) fun o =>
        w.start.value destination = o.map ListRef.obj :=
      .ite (fun h => .pure (h ▸ ho)) fun _ => reads_list destination
    refine hdst.andThen ?_
    intro dst hdst
    refine (reads_of_computes (computes_needDeque src from_left)).andThen ?_
    intro _ _
    split
    · rename_i value rest hpopped
      have hreply : w.Answers (.ofValue value) := fun hc => by
        have hmem : value ∈ (popped src.items 1 from_left).1 := by
          rw [hpopped]
          exact List.mem_singleton_self value
        exact Reply.encodes_ofValue ((list_of_calm hc ho rfl).2.1 value (popped_fst_sub hmem))
      have hend : w.Commits (do
          _after_write destination (if to_left then .lpush else .rpush)
          _after_write source (if from_left then .lpop else .rpop)
          if destination ≠ source ∧ rest = [] then
            let _ ← data_remove source
            _notify source .del
          return .ofValue value : K F Reply) w.Answers := by
        refine (commits_after_write hdestination _).bind ?_
        intro _ _
        refine (commits_after_write hsource _).bind ?_
        intro _ _
        refine .ite (fun _ => (commits_remove hsource).bind fun _ _ => ?_) fun _ => .pure hreply
        exact (commits_notify hsource .del).bind fun _ _ => .pure hreply
      refine (commits_store_value (inOrder_list _)).atomic.andThen ?_
      intro _ _
      cases dst with
      | none => exact (commits_setitem hdestination (.inr hdst) (inOrder_deque _)).bind fun _ _ => hend
      | some dst =>
        refine (commits_needDeque (fun hc => (list_of_calm hc hdst rfl).1) to_left).bind ?_
        intro _ _
        exact (commits_store_value (inOrder_list _)).bind fun _ _ => hend
    · exact .raise

/-- LMOVE reads its sides first. -/
theorem atomic_LMOVE {source destination : Value} (wherefrom whereto : Value) (hsource : w.calm → source.IsBytes)
    (hdestination : w.calm → destination.IsBytes) : w.Atomic (LMOVE source destination wherefrom whereto) w.Answers := by
  refine (reads_of_computes (computes_list_side wherefrom)).andThen ?_
  intro _ _
  refine (reads_of_computes (computes_list_side whereto)).andThen ?_
  intro _ _
  exact atomic_move _ _ hsource hdestination

/-- LPOS writes nothing. -/
theorem reads_LPOS (key element : Value) (options : List Value) : w.Reads (LPOS key element options) fun _ => True := by
  refine (reads_of_computes (computes_lposOptions 1 none 0 options)).bind ?_
  intro o _
  refine (reads_list key).bind ?_
  intro lst _
  cases lst with
  | none => exact .pure trivial
  | some lst => exact .ite (fun _ => .pure trivial) fun _ => .pure trivial

end Watch

end Kagni
