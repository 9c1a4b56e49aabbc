import Kagni.Footprints.Basic

/-!
# Hashes obey the discipline

Every hash command looks at the fields: an expired field that is found is purged. What is left of a hash, and a field that is
put back with another deadline, may be stored because it was.
-/

namespace Kagni

open Lib Lib.Prog

variable {F : Type} {d : Discipline} {S : Set Value} {key : Value}

/-! ## Values that may be stored -/

namespace Discipline

/-- What may be stored of the fields of a hash. -/
abbrev pairs (d : Discipline) (cur : Fields) : Prop := ∀ p ∈ cur.entries, d.permits (.store p.1) ∧ d.permits (.store p.2.parts.1)

/-- A hash of permitted pairs may be stored. -/
theorem obj_hash (d : Discipline) {cur : Fields} (h : d.pairs cur) : d.obj (F := F) (.hash cur) := ⟨h, fun _ => trivial⟩

theorem pairs_empty (d : Discipline) : d.pairs ∅ := nofun

/-- A part of a hash has its pairs. -/
theorem pairs_filter {cur : Fields} (h : d.pairs cur) (p : Value × FieldEntry → Bool) : d.pairs (cur.filter p) :=
  fun q hq => h q (List.mem_of_mem_filter hq)

/-- A hash without a field has the other pairs. -/
theorem pairs_erase {cur : Fields} (h : d.pairs cur) (field : Value) : d.pairs (cur.erase field) := pairs_filter h _

/-- A hash with one more pair. -/
theorem pairs_put {cur : Fields} (h : d.pairs cur) {field value : Value} (hfield : d.permits (.store field))
    (hvalue : d.permits (.store value)) (deadline : Option Int) : d.pairs (_put cur field value deadline) := by
  intro p hp
  rcases Dict.mem_entries_set hp with rfl | hp
  · refine ⟨hfield, ?_⟩
    cases deadline <;> exact hvalue
  · exact h p hp

end Discipline

/-! ## Purging -/

/-- The fields are written back under the key they were read from. -/
theorem disciplined_storeHash {cur : Fields} (hlook : d.permits (.look key)) (hseen : key ∈ S) (h : d.pairs cur) :
    Disciplined d S (storeHash key cur : K F Unit) fun _ => True := disciplined_store_value (d.obj_hash h) hlook hseen

/-- What reading one field returns: a live field and its value were stored before, and the field has a hash. -/
def Discipline.Read (d : Discipline) (field : Value) (r : Option (Value × Option Int) × Fields) : Prop :=
  field.hashable = true ∧ (∀ live, r.1 = some live → d.permits (.store field) ∧ d.permits (.store live.1)) ∧ d.pairs r.2

/-- A field is read, and purged if it has expired. -/
theorem disciplined_field {cur : Fields} (hlook : d.permits (.look key)) (hseen : key ∈ S) (h : d.pairs cur) (field : Value) :
    Disciplined d S (_field key cur field : K F _) (d.Read field) := by
  refine (of_computes (computes_needHash field)).bind ?_
  intro _ hhash
  split
  · exact .pure ⟨hhash, nofun, h⟩
  · exact .pure ⟨hhash, nofun, h⟩
  · rename_i e _ he
    refine disciplined_clock.bind ?_
    intro now _
    refine .ite (fun _ => ?_) fun _ => .pure ⟨hhash, fun live hlive => ?_, h⟩
    · have herase := Discipline.pairs_erase h field
      exact (disciplined_storeHash hlook hseen herase).bind fun _ _ => .pure ⟨hhash, nofun, herase⟩
    · cases hlive
      exact h (field, e) ((Dict.get_eq_some_iff ..).1 he)

/-- The live fields are read and the others purged. -/
theorem disciplined_live_pairs {cur : Fields} (hlook : d.permits (.look key)) (hseen : key ∈ S) (h : d.pairs cur) :
    Disciplined d S (_live_pairs key cur : K F _) fun _ => True := by
  refine disciplined_clock.bind ?_
  intro _ _
  exact (disciplined_storeHash hlook hseen (Discipline.pairs_filter h _)).bind fun _ _ => .pure trivial

/-- A hash without fields goes. -/
theorem disciplined_drop_if_empty (hseen : key ∈ S) (cur : Fields) :
    Disciplined d S (_drop_if_empty key cur : K F Unit) fun _ => True :=
  .ite (fun _ => disciplined_discard (.inl hseen) (.pure trivial)) fun _ => .pure trivial

/-- The hash at a key, or a new one. -/
theorem looks_hashOrNew (hlook : d.permits (.look key)) (hfields : d.permits (.fields key))
    (hkey : key.hashable = true → d.permits (.create key)) :
    Looks d S key (hashOrNew key : K F Fields) fun cur => d.permits (.create key) ∧ d.pairs cur := by
  refine (looks_hash hlook hfields).bind ?_
  intro o ho
  cases o with
  | none =>
    refine (disciplined_setitem hkey (d.obj_hash d.pairs_empty) (d.seen_insert S key)).bind ?_
    intro _ h
    exact .pure ⟨hkey h, d.pairs_empty⟩
  | some cur => exact .pure ⟨(ho cur rfl).1, (ho cur rfl).2.1⟩

/-! ## Writes -/

/-- The pairs are put in turn. -/
theorem disciplined_hsetLoop {field_values : List Value} {cur : Fields} (hlook : d.permits (.look key)) (hseen : key ∈ S)
    (h : d.pairs cur)
    (hval : ∀ p ∈ pairsOf field_values, p.1.hashable = true → d.permits (.store p.1) ∧ d.permits (.store p.2))
    (new_fields : Nat) :
    Disciplined d S (hsetLoop key field_values cur new_fields : K F Nat) fun _ => True := by
  induction field_values using List.twoStepInduction generalizing cur new_fields with
  | nil => exact .pure trivial
  | singleton a => exact .pure trivial
  | cons_cons field value rest ih _ =>
    obtain ⟨hpair, hrest⟩ := List.forall_mem_cons.1 hval
    refine (disciplined_field hlook hseen h field).bind ?_
    intro r hr
    obtain ⟨hhash, -, hpairs⟩ := hr
    have hput := Discipline.pairs_put hpairs (hpair hhash).1 (hpair hhash).2 none
    exact (disciplined_storeHash hlook hseen hput).bind fun _ _ => ih hput hrest _

/-- HSET and HMSET put their pairs and tell. -/
theorem disciplined_hset_pairs {field_values : List Value} (hlook : d.permits (.look key)) (hfields : d.permits (.fields key))
    (hkey : key.hashable = true → d.permits (.create key))
    (hval : ∀ p ∈ pairsOf field_values, p.1.hashable = true → d.permits (.store p.1) ∧ d.permits (.store p.2)) :
    Disciplined d S (_hset_pairs key field_values : K F Nat) fun _ => True := by
  refine (looks_hashOrNew hlook hfields hkey).andThen ?_
  intro cur hcur
  refine (disciplined_hsetLoop hlook (Set.mem_insert key S) hcur.2 hval 0).bind ?_
  intro _ _
  exact (disciplined_after_write hcur.1 .hset).bind fun _ _ => .pure trivial

theorem disciplined_HSET {field_values : List Value} (hlook : d.permits (.look key)) (hfields : d.permits (.fields key))
    (hkey : key.hashable = true → d.permits (.create key))
    (hval : ∀ p ∈ pairsOf field_values, p.1.hashable = true → d.permits (.store p.1) ∧ d.permits (.store p.2)) :
    Disciplined d S (HSET key field_values : K F Reply) fun _ => True := by
  unfold HSET
  exact built_check fun _ => (disciplined_hset_pairs hlook hfields hkey hval).bind fun _ _ => .pure trivial

theorem disciplined_HMSET {field_values : List Value} (hlook : d.permits (.look key)) (hfields : d.permits (.fields key))
    (hkey : key.hashable = true → d.permits (.create key))
    (hval : ∀ p ∈ pairsOf field_values, p.1.hashable = true → d.permits (.store p.1) ∧ d.permits (.store p.2)) :
    Disciplined d S (HMSET key field_values : K F Reply) fun _ => True := by
  unfold HMSET
  exact built_check fun _ => (disciplined_hset_pairs hlook hfields hkey hval).bind fun _ _ => .pure trivial

/-- HSETNX puts a field that was missing. -/
theorem disciplined_HSETNX {field val : Value} (hlook : d.permits (.look key)) (hfields : d.permits (.fields key))
    (hkey : key.hashable = true → d.permits (.create key))
    (hval : field.hashable = true → d.permits (.store field) ∧ d.permits (.store val)) :
    Disciplined d S (HSETNX key field val : K F Reply) fun _ => True := by
  have hseen := Set.mem_insert key S
  refine (looks_hash hlook hfields).andThen ?_
  intro o ho
  cases o with
  | none =>
    refine (disciplined_setitem hkey (d.obj_hash d.pairs_empty) (.inl hseen)).bind ?_
    intro _ hhash
    refine (of_computes (computes_needHash field)).bind ?_
    intro _ h
    refine (disciplined_storeHash hlook hseen (Discipline.pairs_put d.pairs_empty (hval h).1 (hval h).2 none)).bind ?_
    intro _ _
    exact (disciplined_after_write (hkey hhash) .hset).bind fun _ _ => .pure trivial
  | some cur =>
    obtain ⟨hold, hpairs, -⟩ := ho cur rfl
    refine (disciplined_field hlook hseen hpairs field).bind ?_
    intro r hr
    obtain ⟨h, -, hpairs'⟩ := hr
    obtain ⟨live, cur'⟩ := r
    cases live with
    | some live => exact .pure trivial
    | none =>
      refine (disciplined_storeHash hlook hseen (Discipline.pairs_put hpairs' (hval h).1 (hval h).2 none)).bind ?_
      intro _ _
      exact (disciplined_after_write hold .hset).bind fun _ _ => .pure trivial

/-! ## Reads -/

/-- A command that reads a hash and answers at once when there is none. -/
theorem disciplined_hashed (hlook : d.permits (.look key)) (hfields : d.permits (.fields key)) {α : Type} {missing : K F α}
    {f : Fields → K F α} {Q : α → Prop} (hmissing : Disciplined d (insert key S) missing Q)
    (hf : ∀ cur, d.permits (.create key) → d.pairs cur → Disciplined d (insert key S) (f cur) Q) :
    Disciplined d S (_hash key >>= fun o => match o with
      | none => missing
      | some cur => f cur) Q := by
  refine (looks_hash hlook hfields).andThen ?_
  intro o ho
  cases o with
  | none => exact hmissing
  | some cur => exact hf cur (ho cur rfl).1 (ho cur rfl).2.1

/-- The value of a field is read. -/
theorem disciplined_fieldValue (hlook : d.permits (.look key)) (hfields : d.permits (.fields key)) (field : Value) :
    Disciplined d S (fieldValue key field : K F _) fun _ => True := by
  refine disciplined_hashed hlook hfields (.pure trivial) ?_
  intro _ _ hpairs
  exact (disciplined_field hlook (Set.mem_insert key S) hpairs field).bind fun _ _ => .pure trivial

theorem disciplined_HGET (hlook : d.permits (.look key)) (hfields : d.permits (.fields key)) (field : Value) :
    Disciplined d S (HGET key field : K F Reply) fun _ => True :=
  (disciplined_fieldValue hlook hfields field).bind fun _ _ => .pure trivial

/-- One field after the other is read. -/
theorem disciplined_hmgetLoop {cur : Fields} (hlook : d.permits (.look key)) (hseen : key ∈ S) (h : d.pairs cur)
    (fields : List Value) :
    Disciplined d S (hmgetLoop key fields cur : K F _) fun _ => True := by
  induction fields generalizing cur with
  | nil => exact .pure trivial
  | cons field fields ih =>
    refine (disciplined_field hlook hseen h field).bind ?_
    intro r hr
    exact (ih hr.2.2).bind fun _ _ => .pure trivial

theorem disciplined_HMGET (hlook : d.permits (.look key)) (hfields : d.permits (.fields key)) (fields : List Value) :
    Disciplined d S (HMGET key fields : K F Reply) fun _ => True := by
  unfold HMGET
  refine built_check fun _ => ?_
  refine disciplined_hashed hlook hfields (.pure trivial) ?_
  intro cur _ hpairs
  exact (disciplined_hmgetLoop hlook (Set.mem_insert key S) hpairs fields).bind fun _ _ => .pure trivial

theorem disciplined_HEXISTS (hlook : d.permits (.look key)) (hfields : d.permits (.fields key)) (field : Value) :
    Disciplined d S (HEXISTS key field : K F Reply) fun _ => True :=
  (disciplined_fieldValue hlook hfields field).bind fun _ _ => .pure trivial

/-- One field after the other is dropped. -/
theorem disciplined_hdelLoop {cur : Fields} (hlook : d.permits (.look key)) (hseen : key ∈ S) (h : d.pairs cur)
    (fields : List Value)
    (removed : Nat) : Disciplined d S (hdelLoop key fields cur removed : K F _) fun _ => True := by
  induction fields generalizing cur removed with
  | nil => exact .pure trivial
  | cons field fields ih =>
    refine (disciplined_field hlook hseen h field).bind ?_
    intro r hr
    obtain ⟨-, -, hpairs⟩ := hr
    obtain ⟨live, cur'⟩ := r
    cases live with
    | none => exact ih hpairs removed
    | some live =>
      have herase := Discipline.pairs_erase hpairs field
      exact (disciplined_storeHash hlook hseen herase).bind fun _ _ => ih herase _

/-- HDEL drops fields, and the key with the last. -/
theorem disciplined_HDEL (hlook : d.permits (.look key)) (hfields : d.permits (.fields key)) (fields : List Value) :
    Disciplined d S (HDEL key fields : K F Reply) fun _ => True := by
  have hseen := Set.mem_insert key S
  unfold HDEL
  refine built_check fun _ => ?_
  refine disciplined_hashed hlook hfields (.pure trivial) ?_
  intro cur hold hpairs
  refine (disciplined_hdelLoop hlook hseen hpairs fields 0).bind ?_
  intro r _
  have hend : Disciplined d (insert key S) (if r.1.entries = [] then data_remove key >>= fun _ =>
      (if r.2 ≠ 0 then _notify key .del >>= fun _ => pure (.int r.2) else pure (.int r.2)) else pure (.int r.2) : K F Reply)
      fun _ => True := by
    refine .ite (fun _ => ?_) fun _ => .pure trivial
    refine (disciplined_remove hlook (.inl hseen)).bind ?_
    intro _ _
    refine .ite (fun _ => ?_) fun _ => .pure trivial
    exact (disciplined_notify hold .del).bind fun _ _ => .pure trivial
  exact .ite (fun _ => (disciplined_after_write hold .hdel).bind fun _ _ => hend) fun _ => hend

/-- HLEN, HKEYS, HVALS and HGETALL read the live fields. -/
theorem disciplined_hashRead (hlook : d.permits (.look key)) (hfields : d.permits (.fields key)) (missing : Reply)
    (f : List (Value × Value × Option Int) → Reply) : Disciplined d S (hashRead key missing f : K F Reply) fun _ => True := by
  have hseen := Set.mem_insert key S
  refine disciplined_hashed hlook hfields (.pure trivial) ?_
  intro cur _ hpairs
  refine (disciplined_live_pairs hlook hseen hpairs).bind ?_
  intro r _
  exact (disciplined_drop_if_empty hseen r.2).bind fun _ _ => .pure trivial

theorem disciplined_HSTRLEN (hlook : d.permits (.look key)) (hfields : d.permits (.fields key)) (field : Value) :
    Disciplined d S (HSTRLEN key field : K F Reply) fun _ => True := by
  refine (disciplined_fieldValue hlook hfields field).bind ?_
  intro o _
  split
  · exact .pure trivial
  · exact .pure trivial
  · exact .pure trivial
  · exact .raise _

/-- HSCAN reads the live fields. -/
theorem disciplined_HSCAN (hlook : d.permits (.look key)) (hfields : d.permits (.fields key)) (cursor : Value)
    (options : List Value) :
    Disciplined d S (HSCAN key cursor options : K F Reply) fun _ => True := by
  have hseen := Set.mem_insert key S
  refine (of_computes (computes_parse_scan_cursor cursor)).bind ?_
  intro _ _
  refine (of_computes (computes_parse_scan_options none options)).bind ?_
  intro pattern _
  refine (of_computes (computes_compilePattern pattern)).bind ?_
  intro rgx _
  refine disciplined_hashed hlook hfields (.pure trivial) ?_
  intro cur _ hpairs
  refine (disciplined_live_pairs hlook hseen hpairs).bind ?_
  intro r _
  refine .bind (built_filterM fun p _ => of_computes (computes_patternMatches rgx p.1)) ?_
  intro _ _
  exact (disciplined_drop_if_empty hseen r.2).bind fun _ _ => .pure trivial

/-- HRANDFIELD draws from the live fields. -/
theorem disciplined_HRANDFIELD (hlook : d.permits (.look key)) (hfields : d.permits (.fields key)) (count : Option Int)
    (options : List Value) : Disciplined d S (HRANDFIELD key count options : K F Reply) fun _ => True := by
  have hseen := Set.mem_insert key S
  cases count with
  | none =>
    unfold HRANDFIELD
    refine built_check fun _ => ?_
    refine disciplined_hashed hlook hfields (.pure trivial) ?_
    intro cur _ hpairs
    refine (disciplined_live_pairs hlook hseen hpairs).bind ?_
    intro r _
    refine (disciplined_drop_if_empty hseen r.2).bind ?_
    intro _ _
    refine .ite (fun _ => .pure trivial) ?_
    intro _
    exact (disciplined_choice _).bind fun _ _ => .pure trivial
  | some count =>
    refine (of_computes (computes_flagOptions _ options)).bind ?_
    intro _ _
    refine disciplined_hashed hlook hfields (.pure trivial) ?_
    intro cur _ hpairs
    refine (disciplined_live_pairs hlook hseen hpairs).bind ?_
    intro r _
    refine (disciplined_drop_if_empty hseen r.2).bind ?_
    intro _ _
    refine .ite (fun _ => .pure trivial) ?_
    intro _
    exact (disciplined_pick _ count).bind fun _ _ => .pure trivial

/-! ## Counters -/

/-- A field is read as a counter, or refused. -/
theorem computes_fieldCounter (v : Value) : Computes (fieldCounter v : K F Int) fun _ => True := by
  refine (computes_asBytes v).bind ?_
  intro raw _
  refine .ite (fun _ => ?_) fun _ => .raise _
  exact (computes_orFail _).weaken fun _ _ => trivial

/-- A counter is written back into its field. -/
theorem disciplined_HINCRBY {field : Value} (hlook : d.permits (.look key)) (hfields : d.permits (.fields key))
    (hkey : key.hashable = true → d.permits (.create key)) (hval : field.hashable = true → d.permits (.store field))
    (increment : Int) :
    Disciplined d S (HINCRBY key field increment : K F Reply) fun _ => True := by
  have hseen := Set.mem_insert key S
  refine (looks_hashOrNew hlook hfields hkey).andThen ?_
  intro cur hcur
  refine (disciplined_field hlook hseen hcur.2 field).bind ?_
  intro r hr
  obtain ⟨hhash, -, hpairs⟩ := hr
  obtain ⟨live, cur'⟩ := r
  refine .bind (Q := fun _ => True) ?_ fun current _ => ?_
  · cases live with
    | none => exact .pure trivial
    | some live => exact (of_computes (computes_fieldCounter live.1)).bind fun _ _ => .pure trivial
  dsimp only
  refine built_check fun _ => ?_
  refine (disciplined_storeHash hlook hseen (Discipline.pairs_put hpairs (hval hhash) (d.store_bytes _) _)).bind ?_
  intro _ _
  exact (disciplined_after_write hcur.1 .hincrby).bind fun _ _ => .pure trivial

/-- Likewise a counter with a fraction. -/
theorem disciplined_HINCRBYFLOAT [PyFloat F] {field : Value} (hlook : d.permits (.look key)) (hfields : d.permits (.fields key))
    (hkey : key.hashable = true → d.permits (.create key)) (hval : field.hashable = true → d.permits (.store field))
    (increment : Value) :
    Disciplined d S (HINCRBYFLOAT key field increment : K F Reply) fun _ => True := by
  have hseen := Set.mem_insert key S
  refine (of_computes (computes_floatArg _ increment)).bind ?_
  intro increment _
  refine built_check fun _ => ?_
  refine (looks_hashOrNew hlook hfields hkey).andThen ?_
  intro cur hcur
  refine (disciplined_field hlook hseen hcur.2 field).bind ?_
  intro r hr
  obtain ⟨hhash, -, hpairs⟩ := hr
  obtain ⟨live, cur'⟩ := r
  refine .bind (Q := fun _ => True) ?_ fun current _ => ?_
  · cases live with
    | none => exact .pure trivial
    | some live => exact (of_computes (computes_floatArg _ live.1)).bind fun _ _ => .pure trivial
  dsimp only
  refine built_check fun _ => ?_
  refine (disciplined_storeHash hlook hseen (Discipline.pairs_put hpairs (hval hhash) (d.store_bytes _) _)).bind ?_
  intro _ _
  exact (disciplined_after_write hcur.1 .hincrbyfloat).bind fun _ _ => .pure trivial

/-! ## Deadlines of fields -/

/-- The flags stand before the fields. -/
theorem computes_ttlFlags (command : Cmd) (flag : Option TtlFlag) (options : List Value) :
    Computes (ttlFlags command flag options : K F _) fun r => ∀ v ∈ r.2, v ∈ options := by
  intro S
  induction options generalizing flag with
  | nil => exact .raise _
  | cons opt rest ih =>
    refine (computes_upperArg opt).bind ?_
    intro _ _
    refine .ite (fun _ => .pure fun v hv => List.mem_cons_of_mem _ hv) ?_
    intro _
    split
    · exact (ih _).weaken fun r hr v hv => List.mem_cons_of_mem _ (hr v hv)
    · exact .raise _

/-- The fields are among the arguments. -/
theorem computes_fieldList (command : Cmd) (notPositive : Errors) (rest : List Value) :
    Computes (fieldList command notPositive rest : K F _) fun fields => ∀ v ∈ fields, v ∈ rest := by
  cases rest with
  | nil => exact .raise _
  | cons n fields =>
    refine (computes_orThrow _ _).bind ?_
    intro numfields _
    refine built_check fun _ => ?_
    refine built_check fun _ => ?_
    exact built_check fun _ => .pure fun v hv => List.mem_cons_of_mem _ hv

/-- The parser of HEXPIRE gives fields of its arguments. -/
theorem computes_parse_field_ttl_args (command : Cmd) (args : List Value) :
    Computes (_parse_field_ttl_args command args : K F _) fun r => ∀ v ∈ r.2.2, v ∈ args := by
  cases args with
  | nil => exact .raise _
  | cons time rest =>
    refine (computes_orThrow _ _).bind ?_
    intro when_ _
    refine built_check fun _ => ?_
    refine computes_clock.bind ?_
    intro now _
    refine built_check fun _ => ?_
    refine (computes_ttlFlags command none rest).bind ?_
    intro flags hflags
    refine (computes_fieldList command _ flags.2).bind fun fields hfields => .pure fun v hv => ?_
    exact List.mem_cons_of_mem _ (hflags v (hfields v hv))

/-- The deadlines of the fields are moved in turn. -/
theorem disciplined_hexpireLoop {cur : Fields} (hlook : d.permits (.look key)) (hseen : key ∈ S) (h : d.pairs cur)
    (new_deadline : Int)
    (flag : Option TtlFlag) (fields : List Value) (out : List Int) :
    Disciplined d S (hexpireLoop key new_deadline flag fields cur out : K F _) fun _ => True := by
  induction fields generalizing cur out with
  | nil => exact .pure trivial
  | cons field fields ih =>
    refine (disciplined_field hlook hseen h field).bind ?_
    intro r hr
    obtain ⟨-, hlive, hpairs⟩ := hr
    obtain ⟨live, cur'⟩ := r
    cases live with
    | none => exact ih hpairs _
    | some live =>
      obtain ⟨hfield, hvalue⟩ := hlive live rfl
      refine .ite (fun _ => ih hpairs _) ?_
      intro _
      refine disciplined_clock.bind ?_
      intro now _
      refine .ite (fun _ => ?_) fun _ => ?_
      · have herase := Discipline.pairs_erase hpairs field
        exact (disciplined_storeHash hlook hseen herase).bind fun _ _ => ih herase _
      · have hput := Discipline.pairs_put hpairs hfield hvalue (some new_deadline)
        exact (disciplined_storeHash hlook hseen hput).bind fun _ _ => ih hput _

/-- HEXPIRE moves deadlines, and drops a hash that is left empty. -/
theorem disciplined_hexpire (hlook : d.permits (.look key)) (hfields : d.permits (.fields key)) (command : Cmd)
    (args : List Value) :
    Disciplined d S (_hexpire command key args : K F Reply) fun _ => True := by
  have hseen := Set.mem_insert key S
  refine (of_computes (computes_parse_field_ttl_args command args)).bind ?_
  intro parsed _
  refine disciplined_hashed hlook hfields (.pure trivial) ?_
  intro cur hold hpairs
  refine disciplined_clock.bind ?_
  intro now _
  refine (disciplined_hexpireLoop hlook hseen hpairs _ _ _ _).bind ?_
  intro r _
  have hend : Disciplined d (insert key S) (_drop_if_empty key r.2 >>= fun _ => pure (.list (r.1.map .int)) : K F Reply)
      fun _ => True :=
    (disciplined_drop_if_empty hseen r.2).bind fun _ _ => .pure trivial
  refine .ite (fun _ => (disciplined_after_write hold .hexpire).bind fun _ _ => .ite (fun _ => ?_) fun _ => hend) fun _ => hend
  exact (disciplined_notify hold .del).bind fun _ _ => hend

/-- The deadlines of the fields are read in turn, or dropped by HPERSIST. -/
theorem disciplined_hexpireReadLoop {cur : Fields} (hlook : d.permits (.look key)) (hseen : key ∈ S)
    (h : d.pairs cur) (read : TtlRead)
    (now : Int) (fields : List Value) (out : List Int) (persisted : Nat) :
    Disciplined d S (hexpireReadLoop key read now fields cur out persisted : K F _) fun _ => True := by
  induction fields generalizing cur out persisted with
  | nil => exact .pure trivial
  | cons field fields ih =>
    refine (disciplined_field hlook hseen h field).bind ?_
    intro r hr
    obtain ⟨-, hlive, hpairs⟩ := hr
    obtain ⟨live, cur'⟩ := r
    cases live with
    | none => exact ih hpairs _ _
    | some live =>
      obtain ⟨value, deadline⟩ := live
      obtain ⟨hfield, hvalue⟩ := hlive _ rfl
      cases deadline with
      | none => exact ih hpairs _ _
      | some deadline =>
        cases read with
        | some f => exact ih hpairs _ _
        | none =>
          have hput := Discipline.pairs_put hpairs hfield hvalue none
          exact (disciplined_storeHash hlook hseen hput).bind fun _ _ => ih hput _ _

/-- HTTL and its relatives read deadlines. -/
theorem disciplined_hexpire_read (hlook : d.permits (.look key)) (hfields : d.permits (.fields key))
    (command : Cmd) (read : TtlRead)
    (args : List Value) : Disciplined d S (_hexpire_read command read key args : K F Reply) fun _ => True := by
  have hseen := Set.mem_insert key S
  unfold _hexpire_read
  refine built_check fun _ => ?_
  cases args with
  | nil => exact .raise _
  | cons keyword rest =>
    refine (of_computes (computes_upperArg keyword)).bind ?_
    intro _ _
    refine built_check fun _ => ?_
    refine (of_computes (computes_fieldList command _ rest)).bind ?_
    intro fields _
    refine disciplined_hashed hlook hfields ?_ fun cur hold hpairs => disciplined_clock.bind fun now _ => ?_
    · exact disciplined_discard (.inl hseen) (.pure trivial)
    refine (disciplined_hexpireReadLoop hlook hseen hpairs read _ fields [] 0).bind ?_
    intro r _
    have hend : Disciplined d (insert key S) (_drop_if_empty key r.2.1 >>= fun _ => pure (.list (r.1.map .int)) : K F Reply)
        fun _ => True := (disciplined_drop_if_empty hseen r.2.1).bind fun _ _ => .pure trivial
    exact .ite (fun _ => (disciplined_after_write hold .hpersist).bind fun _ _ => hend) fun _ => hend

end Kagni
