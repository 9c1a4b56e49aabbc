import Kagni.Footprints.Basic

/-!
# Sets and bitmaps obey the discipline

A set that is read holds what may be stored, and so does what is left of it, and what is made of several. The commands that take
something out of a set leave it empty for a moment, so they obey no discipline in which a set must not be empty.
-/

namespace Kagni

open Lib Lib.Prog

variable {F : Type} {d : Discipline} {S : Set Value} {key : Value}

/-! ## Values that may be stored -/

namespace Discipline

/-- What may be stored of the members of a set. -/
abbrev elems (d : Discipline) (s : OrdSet Value) : Prop := ∀ v ∈ s.elems, d.permits (.store v)

/-- A set of permitted members may be stored, unless it is empty and must not be. -/
theorem obj_set (d : Discipline) {s : OrdSet Value} (h : d.elems s) (hne : d.nonempty → s.elems ≠ []) :
    d.obj (F := F) (.set s) := ⟨h, hne⟩

theorem elems_empty (d : Discipline) : d.elems ∅ := nofun

/-- A part of a set has its members. -/
theorem elems_filter {s : OrdSet Value} (h : d.elems s) (p : Value → Bool) : d.elems (s.filter p) :=
  fun v hv => h v (List.mem_of_mem_filter hv)

/-- A set without a member has the others. -/
theorem elems_erase {s : OrdSet Value} (h : d.elems s) (v : Value) : d.elems (s.erase v) := elems_filter h _

/-- A set with one more member. -/
theorem elems_insert {s : OrdSet Value} (h : d.elems s) {v : Value} (hv : d.permits (.store v)) : d.elems (s.insert v) := by
  intro w hw
  rcases (OrdSet.mem_insert s v w).1 hw with rfl | hw
  · exact hv
  · exact h w hw

/-- A set with some more members. -/
theorem elems_insertAll {s : OrdSet Value} (h : d.elems s) {vals : List Value} (hvals : ∀ v ∈ vals, d.permits (.store v)) :
    d.elems (s.insertAll vals) := by
  intro w hw
  rcases (OrdSet.mem_insertAll s vals w).1 hw with hw | hw
  · exact hvals w hw
  · exact h w hw

/-- The set of a list. -/
theorem elems_ofList {vals : List Value} (h : ∀ v ∈ vals, d.permits (.store v)) : d.elems (.ofList vals) :=
  elems_insertAll d.elems_empty h

/-- A bitmap holds no value and may be empty. -/
theorem obj_bitmap (d : Discipline) (bmap : Finset Nat) : d.obj (F := F) (.bitmap bmap) := ⟨trivial, fun _ => trivial⟩

end Discipline

/-- A set operation makes no member. -/
def Selects (op : OrdSet Value → OrdSet Value → OrdSet Value) : Prop := ∀ s t v, v ∈ op s t → v ∈ s ∨ v ∈ t

theorem selects_diff : Selects .diff := fun s t v h => .inl ((OrdSet.mem_diff s t v).1 h).1

theorem selects_inter : Selects .inter := fun s t v h => .inl ((OrdSet.mem_inter s t v).1 h).1

/-- A union selects from either. -/
theorem selects_union : Selects .union := fun s t v h => ((OrdSet.mem_union s t v).1 h).symm

/-- What is selected from permitted sets is permitted. -/
theorem elems_setReduce {op : OrdSet Value → OrdSet Value → OrdSet Value} (hop : Selects op) {sets : List (OrdSet Value)}
    (h : ∀ s ∈ sets, d.elems s) : d.elems (setReduce op sets) := by
  cases sets with
  | nil => exact d.elems_empty
  | cons s rest =>
    obtain ⟨hs, hrest⟩ := List.forall_mem_cons.1 h
    unfold setReduce
    clear h
    induction rest generalizing s with
    | nil => exact hs
    | cons t rest ih =>
      obtain ⟨ht, hrest⟩ := List.forall_mem_cons.1 hrest
      refine ih (op s t) (fun v hv => ?_) hrest
      rcases hop s t v hv with hv | hv
      · exact hs v hv
      · exact ht v hv

/-- The set of a list with an item has a member. -/
theorem ofList_ne_nil {vals : List Value} (h : vals ≠ []) : (OrdSet.ofList vals).elems ≠ [] := by
  obtain ⟨v, rest, rfl⟩ := List.exists_cons_of_ne_nil h
  exact List.ne_nil_of_mem ((OrdSet.mem_ofList (v :: rest) v).2 (by simp))

/-- A set does not get empty by additions. -/
theorem insertAll_ne_nil {s : OrdSet Value} (h : s.elems ≠ []) (vals : List Value) : (s.insertAll vals).elems ≠ [] := by
  obtain ⟨v, hv⟩ := List.exists_mem_of_ne_nil _ h
  exact List.ne_nil_of_mem ((OrdSet.mem_insertAll s vals v).2 (.inr hv))

/-! ## Many keys -/

/-- A list of readers looks every key up. -/
theorem looks_mapM {α β : Type} {f : α → K F β} {g : α → Value} {Q : β → Prop} {xs : List α}
    (h : ∀ x ∈ xs, ∀ S, Looks d S (g x) (f x) Q) :
    Teaches (Access d) S (mapM_ f xs) (fun ys => ∀ y ∈ ys, Q y) (S ∪ {key | key ∈ xs.map g}) := by
  induction xs generalizing S with
  | nil =>
    refine ⟨fun hf => ?_⟩
    have := hf [] nofun
    simpa [mapM_] using this
  | cons x xs ih =>
    refine ⟨fun {_} {k} {_} hf => ?_⟩
    have hrun : mapM_ f (x :: xs) >>= k = f x >>= fun y => mapM_ f xs >>= fun ys => k (y :: ys) := by
      simp only [mapM_, bind_assoc, pure_bind]
    rw [hrun]
    refine (h x (by simp) S).andThen fun y hy => (ih fun z hz => h z (by simp [hz])).andThen fun ys hys => ?_
    have hset : insert (g x) S ∪ {key | key ∈ xs.map g} = S ∪ {key | key ∈ (x :: xs).map g} := by
      ext key
      simp only [Set.mem_union, Set.mem_insert_iff, Set.mem_ofPred_eq, List.map_cons, List.mem_cons]
      tauto
    rw [hset]
    exact hf _ (List.forall_mem_cons.2 ⟨hy, hys⟩)

/-- The members of a set, the empty set for a missing key; other kinds are an error. -/
def setValue : Option (Obj F) → Option (OrdSet Value)
  | none => some ∅
  | some (.set s) => some s
  | some _ => none

/-- The set, or the error. -/
def setOrThrow : Option (OrdSet Value) → K F (OrdSet Value)
  | some s => pure s
  | none => throw_ .WRONGTYPE

/-- The sets at some keys are read, and the keys were seen. -/
theorem looks_sets {keys : List Value} (hlook : ∀ key ∈ keys, d.permits (.look key)) :
    Teaches (Access d) S (_sets keys : K F _) (fun sets => ∀ s ∈ sets, d.elems s) (S ∪ {key | key ∈ keys}) := by
  have hread : (_sets keys : K F _) = mapM_ (fun key => data_get key >>= fun o => setOrThrow (setValue o)) keys := by
    unfold _sets
    refine congrArg (mapM_ · keys) (funext fun key => congrArg (data_get key >>= ·) (funext fun o => ?_))
    cases o with
    | none => rfl
    | some v => cases v <;> rfl
  have hmap : Teaches (Access d) S (mapM_ (fun key => data_get key >>= fun o => setOrThrow (setValue o)) keys : K F _)
      (fun sets => ∀ s ∈ sets, d.elems s) (S ∪ {key | key ∈ keys.map id}) := looks_mapM fun key hkey S => ?_
  · rw [List.map_id, ← hread] at hmap
    exact hmap
  · refine looks_get_blind (hlook key hkey) (fun _ _ => rfl) ?_
    intro o ho
    unfold setValue
    split
    · exact .pure d.elems_empty
    · exact .pure (ho _ rfl).2.1
    · exact .raise _

/-! ## Commands -/

/-- At least one key is asked for. -/
theorem computes_assert_keys (keys : List Value) (command : Cmd) :
    Computes (_assert_keys keys command : K F Unit) fun _ => keys ≠ [] :=
  .ite (fun _ => .raise _) fun h => .pure h

/-- Values that can be members pass. -/
theorem computes_needHashes (vals : List Value) : Computes (needHashes vals : K F Unit) fun _ => ∀ v ∈ vals, v.hashable = true :=
  .ite (fun h => .pure (by simpa using h)) fun _ => .raise _

/-- The values that can be members are among the values. -/
theorem hashables_sub (vals : List Value) : ∀ v ∈ hashables vals, v ∈ vals ∧ v.hashable = true :=
  fun v hv => ⟨(List.takeWhile_sublist _).subset hv, List.all_eq_true.1 List.all_takeWhile v hv⟩

/-- SADD adds members to the set it looked at, or makes a new one. -/
theorem disciplined_SADD {vals : List Value} (hlook : d.permits (.look key))
    (hkey : key.hashable = true → d.permits (.create key))
    (hval : ∀ v ∈ vals, v.hashable = true → d.permits (.store v)) :
    Disciplined d S (SADD key vals : K F Reply) fun _ => True := by
  refine (of_computes (computes_assert_keys vals .SADD)).bind ?_
  intro _ hne
  refine (looks_set hlook).andThen ?_
  intro cur hcur
  cases cur with
  | none =>
    refine (of_computes (computes_needHashes vals)).bind ?_
    intro _ hhash
    have hobj := d.obj_set (F := F) (Discipline.elems_ofList fun v hv => hval v hv (hhash v hv)) fun _ => ofList_ne_nil hne
    refine (disciplined_setitem hkey hobj (d.seen_insert S key)).bind ?_
    intro _ h
    exact (disciplined_after_write (hkey h) .sadd).bind fun _ _ => .pure trivial
  | some cur =>
    obtain ⟨hold, helems, hnonempty⟩ := hcur cur rfl
    have hobj := d.obj_set (F := F) (Discipline.elems_insertAll helems fun v hv =>
      hval v (hashables_sub vals v hv).1 (hashables_sub vals v hv).2) fun h => insertAll_ne_nil (hnonempty h) _
    refine (disciplined_store_value hobj hlook (Set.mem_insert key S)).bind ?_
    intro _ _
    refine (of_computes (computes_needHashes vals)).bind ?_
    intro _ _
    refine .ite (fun _ => ?_) fun _ => .pure trivial
    exact (disciplined_after_write hold .sadd).bind fun _ _ => .pure trivial

theorem disciplined_SCARD (hlook : d.permits (.look key)) : Disciplined d S (SCARD key : K F Reply) fun _ => True := by
  refine (looks_set hlook).andThen ?_
  intro o _
  cases o <;> exact .pure trivial

theorem disciplined_SMEMBERS (hlook : d.permits (.look key)) : Disciplined d S (SMEMBERS key : K F Reply) fun _ => True := by
  refine (looks_set hlook).andThen ?_
  intro o _
  cases o <;> exact .pure trivial

/-- What the loop of SREM leaves was there. -/
theorem elems_sremLoop (vals : List Value) {cur : OrdSet Value} (h : d.elems cur) (removed : Nat) :
    d.elems (sremLoop vals cur removed).1 := by
  induction vals generalizing cur removed with
  | nil => exact h
  | cons v vals ih =>
    unfold sremLoop
    split
    · exact ih (Discipline.elems_erase h v) _
    · exact ih h _

/-- The end of an emptied key. -/
theorem disciplined_dropKey (hlook : d.permits (.look key)) (hseen : d.Seen S key) (hold : d.permits (.create key))
    {c : Prop} [Decidable c]
    {α : Type} {m : K F α} {Q : α → Prop} (hm : Disciplined d S m Q) :
    Disciplined d S (data_remove key >>= fun _ => (if c then _notify key .del >>= fun _ => m else m)) Q := by
  refine (disciplined_remove hlook hseen).bind ?_
  intro _ _
  refine .ite (fun _ => ?_) fun _ => hm
  exact (disciplined_notify hold .del).bind fun _ _ => hm

/-- SREM writes what it leaves before an empty set goes. -/
theorem disciplined_SREM (hempty : ¬d.nonempty) (hlook : d.permits (.look key)) (vals : List Value) :
    Disciplined d S (SREM key vals : K F Reply) fun _ => True := by
  refine (of_computes (computes_assert_keys vals .SREM)).bind ?_
  intro _ _
  refine (looks_set hlook).andThen ?_
  intro cur hcur
  cases cur with
  | none => exact .pure trivial
  | some cur =>
    obtain ⟨hold, helems, -⟩ := hcur cur rfl
    have hobj := d.obj_set (F := F) (elems_sremLoop (hashables vals) helems 0) fun h => absurd h hempty
    refine (disciplined_store_value hobj hlook (Set.mem_insert key S)).bind ?_
    intro _ _
    refine (of_computes (computes_needHashes vals)).bind ?_
    intro _ _
    have hend : Disciplined d (insert key S) (if (sremLoop (hashables vals) cur 0).1.elems = [] then
        data_remove key >>= fun _ => (if (sremLoop (hashables vals) cur 0).2 ≠ 0 then _notify key .del >>= fun _ =>
          pure (.int (sremLoop (hashables vals) cur 0).2) else pure (.int (sremLoop (hashables vals) cur 0).2))
        else pure (.int (sremLoop (hashables vals) cur 0).2) : K F Reply) fun _ => True :=
      .ite (fun _ => disciplined_dropKey hlook (d.seen_insert S key) hold (.pure trivial)) fun _ => .pure trivial
    exact .ite (fun _ => (disciplined_after_write hold .srem).bind fun _ _ => hend) fun _ => hend

/-- SUNION, SINTER and SDIFF look at their keys. -/
theorem disciplined_setOp {keys : List Value} (hlook : ∀ key ∈ keys, d.permits (.look key))
    (op : OrdSet Value → OrdSet Value → OrdSet Value) (command : Cmd) :
    Disciplined d S (setOp op command keys : K F Reply) fun _ => True := by
  refine (of_computes (computes_assert_keys keys command)).bind ?_
  intro _ _
  exact (looks_sets hlook).andThen fun _ _ => .pure trivial

/-- A result is stored, or an empty one removes the key. -/
theorem disciplined_store_result {result : OrdSet Value} (hkey : key.hashable = true → d.permits (.create key))
    (helems : d.elems result)
    (hseen : d.Seen S key) (event : Event) : Disciplined d S (_store_result key result event : K F Reply) fun _ => True := by
  refine .ite (fun hne => ?_) fun _ => disciplined_discard hseen (.pure trivial)
  refine (disciplined_setitem hkey (d.obj_set helems fun _ => hne) hseen).bind ?_
  intro _ h
  exact (disciplined_after_write (hkey h) event).bind fun _ _ => .pure trivial

/-- The store forms look at the sources and write the target. -/
theorem disciplined_setOpStore {op : OrdSet Value → OrdSet Value → OrdSet Value} (hop : Selects op) {target : Value}
    {keys : List Value}
    (hlook : ∀ key ∈ keys, d.permits (.look key)) (hkey : target.hashable = true → d.permits (.create target))
    (hreplace : target ∉ keys → d.permits (.replace target)) (command : Cmd) (event : Event) :
    Disciplined d S (setOpStore op command event target keys : K F Reply) fun _ => True := by
  refine (of_computes (computes_assert_keys keys command)).bind ?_
  intro _ _
  refine (looks_sets hlook).andThen ?_
  intro sets hsets
  refine disciplined_store_result hkey (elems_setReduce hop hsets) ?_ event
  by_cases h : target ∈ keys
  · exact .inl (.inr h)
  · exact .inr (hreplace h)

/-- The LIMIT of SINTERCARD is read. -/
theorem computes_intercardOptions (limit : Int) (options : List Value) :
    Computes (intercardOptions limit options : K F Int) fun _ => True := by
  intro S
  fun_induction intercardOptions (F := F) limit options with
  | case1 => exact .pure trivial
  | case2 limit opt => exact (computes_upperArg opt).bind fun _ _ => .raise _
  | case3 limit opt value rest ih =>
    refine (computes_upperArg opt).bind ?_
    intro _ _
    refine .ite (fun _ => ?_) fun _ => .raise _
    exact built_check fun _ => ih

/-- SINTERCARD looks at its keys. -/
theorem disciplined_SINTERCARD {numkeys : Int} {rest : List Value}
    (hlook : ∀ key ∈ rest.take numkeys.toNat, d.permits (.look key)) :
    Disciplined d S (SINTERCARD numkeys rest : K F Reply) fun _ => True := by
  unfold SINTERCARD
  refine built_check fun _ => ?_
  refine built_check fun _ => ?_
  refine (of_computes (computes_intercardOptions 0 _)).bind ?_
  intro limit _
  refine (looks_sets hlook).andThen ?_
  intro sets _
  cases sets with
  | nil => exact .raise _
  | cons first others => exact .pure trivial

theorem disciplined_SSCAN (hlook : d.permits (.look key)) (cursor : Value) (options : List Value) :
    Disciplined d S (SSCAN key cursor options : K F Reply) fun _ => True := by
  refine (of_computes (computes_parse_scan_cursor cursor)).bind ?_
  intro _ _
  refine (of_computes (computes_parse_scan_options none options)).bind ?_
  intro pattern _
  refine (of_computes (computes_compilePattern pattern)).bind ?_
  intro rgx _
  refine (looks_set hlook).andThen ?_
  intro o _
  cases o with
  | none => exact .pure trivial
  | some cur => exact .bind (built_filterM fun v _ => of_computes (computes_patternMatches rgx v)) fun _ _ => .pure trivial

theorem disciplined_SMISMEMBER (hlook : d.permits (.look key)) (vals : List Value) :
    Disciplined d S (SMISMEMBER key vals : K F Reply) fun _ => True := by
  unfold SMISMEMBER
  refine built_check fun _ => ?_
  refine (looks_set hlook).andThen ?_
  intro o _
  cases o with
  | none => exact .pure trivial
  | some cur => exact (of_computes (computes_needHashes vals)).bind fun _ _ => .pure trivial

/-- SISMEMBER looks at its key. -/
theorem disciplined_SISMEMBER (hlook : d.permits (.look key)) (val : Value) :
    Disciplined d S (SISMEMBER key val : K F Reply) fun _ => True := by
  refine (looks_set hlook).andThen ?_
  intro o _
  cases o with
  | none => exact .pure trivial
  | some cur => exact (of_computes (computes_needHash val)).bind fun _ _ => .pure trivial

/-- SMOVE takes a member from the source and adds it to the target. -/
theorem disciplined_SMOVE {source target : Value} (hempty : ¬d.nonempty) (hsource : d.permits (.look source))
    (htarget : d.permits (.look target)) (hkey : target.hashable = true → d.permits (.create target)) (val : Value) :
    Disciplined d S (SMOVE source target val : K F Reply) fun _ => True := by
  refine (looks_set hsource).andThen ?_
  intro src hsrc
  cases src with
  | none => exact .pure trivial
  | some src =>
    obtain ⟨hold, helems, -⟩ := hsrc src rfl
    refine (of_computes (computes_needHash val)).bind ?_
    intro _ _
    refine .ite (fun _ => .pure trivial) fun hin => ?_
    have hval : d.permits (.store val) := helems val (not_not.1 hin)
    have hsrc' := Discipline.elems_erase helems val
    refine (looks_set htarget).andThen ?_
    intro dst hdst
    refine (disciplined_store_value (d.obj_set hsrc' fun h => absurd h hempty) hsource (by simp)).bind ?_
    intro _ _
    have hend : d.permits (.create target) → Disciplined d (insert target (insert source S)) (do
        let src'' := if source = target then (src.erase val).insert val else src.erase val
        _after_write source .srem
        if src''.elems = [] then
          let _ ← data_remove source
          _notify source .del
        _after_write target .sadd
        return .int 1 : K F Reply) fun _ => True := by
      intro hmade
      have htail : Disciplined d (insert target (insert source S))
        (_after_write target .sadd >>= fun _ => pure (.int 1) : K F Reply)
          fun _ => True := (disciplined_after_write hmade .sadd).bind fun _ _ => .pure trivial
      refine (disciplined_after_write hold .srem).bind ?_
      intro _ _
      refine .ite (fun _ => ?_) fun _ => htail
      refine (disciplined_remove hsource (.inl (by simp))).bind ?_
      intro _ _
      exact (disciplined_notify hold .del).bind fun _ _ => htail
    cases dst with
    | none =>
      have hobj := d.obj_set (F := F) (Discipline.elems_insert d.elems_empty hval) fun h => absurd h hempty
      exact (disciplined_setitem hkey hobj (d.seen_insert _ target)).bind fun _ h => hend (hkey h)
    | some dst =>
      obtain ⟨hmade, hdelems, -⟩ := hdst dst rfl
      have hbase : d.elems (if source = target then src.erase val else dst) := by
        split
        · exact hsrc'
        · exact hdelems
      have hobj := d.obj_set (F := F) (Discipline.elems_insert hbase hval) fun h => absurd h hempty
      exact (disciplined_store_value hobj htarget (Set.mem_insert _ _)).bind fun _ _ => hend hmade

/-- A drawn member is taken from the set. -/
theorem disciplined_popMember {cur : OrdSet Value} (hempty : ¬d.nonempty) (hlook : d.permits (.look key)) (hseen : key ∈ S)
    (helems : d.elems cur) : Disciplined d S (popMember key cur : K F _) fun p => d.elems p.2 := by
  refine (disciplined_choice cur.elems).bind ?_
  intro val _
  have hrest := Discipline.elems_erase helems val
  exact (disciplined_store_value (d.obj_set hrest fun h => absurd h hempty) hlook hseen).bind fun _ _ => .pure hrest

/-- So many members are taken in turn. -/
theorem disciplined_popMembers {cur : OrdSet Value} (hempty : ¬d.nonempty) (hlook : d.permits (.look key)) (hseen : key ∈ S)
    (helems : d.elems cur) (count : Nat) : Disciplined d S (popMembers key count cur : K F _) fun _ => True := by
  induction count generalizing cur with
  | zero => exact .pure trivial
  | succ count ih =>
    refine (disciplined_popMember hempty hlook hseen helems).bind ?_
    intro p hp
    exact (ih hp).bind fun _ _ => .pure trivial

/-- SPOP takes drawn members from the set it looked at. -/
theorem disciplined_SPOP (hempty : ¬d.nonempty) (hlook : d.permits (.look key)) (count : Option Int) :
    Disciplined d S (SPOP key count : K F Reply) fun _ => True := by
  unfold SPOP
  refine built_check fun _ => ?_
  refine (looks_set hlook).andThen ?_
  intro o ho
  have hseen := Set.mem_insert key S
  cases o with
  | none => exact .ite (fun _ => .pure trivial) fun h => absurd rfl h
  | some cur =>
    obtain ⟨hold, helems, -⟩ := ho cur rfl
    refine .ite (fun _ => .pure trivial) fun _ => ?_
    cases count with
    | none =>
      refine (disciplined_popMember hempty hlook hseen helems).bind ?_
      intro p _
      refine (disciplined_after_write hold .spop).bind ?_
      intro _ _
      refine .ite (fun _ => ?_) fun _ => .pure trivial
      refine (disciplined_remove hlook (.inl hseen)).bind ?_
      intro _ _
      exact (disciplined_notify hold .del).bind fun _ _ => .pure trivial
    | some count =>
      refine .ite (fun _ => .pure trivial) ?_
      intro _
      refine .ite (fun _ => ?_) fun _ => ?_
      · refine (disciplined_after_write hold .spop).bind ?_
        intro _ _
        refine (disciplined_remove hlook (.inl hseen)).bind ?_
        intro _ _
        exact (disciplined_notify hold .del).bind fun _ _ => .pure trivial
      · refine (disciplined_after_write hold .spop).bind ?_
        intro _ _
        exact (disciplined_popMembers hempty hlook hseen helems _).bind fun _ _ => .pure trivial

/-- SRANDMEMBER draws members and leaves them. -/
theorem disciplined_SRANDMEMBER (hlook : d.permits (.look key)) (count : Option Int) :
    Disciplined d S (SRANDMEMBER key count : K F Reply) fun _ => True := by
  refine (looks_set hlook).andThen ?_
  intro o _
  refine .ite (fun _ => .pure trivial) ?_
  intro _
  cases count with
  | none => exact (disciplined_choice _).bind fun _ _ => .pure trivial
  | some count => exact (disciplined_pick _ count).bind fun _ _ => .pure trivial

end Kagni
