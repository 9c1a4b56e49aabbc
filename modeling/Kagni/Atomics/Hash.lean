import Kagni.Footprints.Hash
import Kagni.Lemmas.Atomic

/-!
# Hash commands, as a whole or not at all

A field that is looked at is purged when it has expired, so a hash command writes as soon as it looks at fields, and must not
raise after that. The counters do raise on a field that holds no number; but then the field is live, and nothing was purged.
-/

namespace Kagni

open Lib Lib.Prog

variable {F : Type}

/-- What `string2ll` accepts is a signed number of 64 bits. -/
theorem toLL_bounds {v : Value} {n : Int} (h : toLL v = some n) : INT64_MIN ≤ n ∧ n ≤ INT64_MAX := by
  cases v with
  | bytes b =>
    change string2ll b = some n at h
    unfold string2ll at h
    split at h
    · cases h
    split at h
    · cases h
      decide
    · simp only [Option.ite_none_left_eq_some] at h
      obtain ⟨-, -, -, hrange, hn⟩ := h
      cases hn
      omega
  | _ => cases h

namespace Watch

variable [PyFloat F] {w : Watch F} {key : Value} {α β : Type} {Q : α → Prop} {cur : Fields}

/-- A hash has no order to keep. -/
theorem inOrder_hash (cur : Fields) : w.calm → (Obj.hash cur : Obj F).InOrder := fun _ => trivial

/-- The fields of a hash are written back. -/
theorem commits_storeHash (cur : Fields) : w.Commits (storeHash key cur) fun _ => True := commits_store_value (inOrder_hash cur)

/-- The fields and their values are byte strings when the command is calm. -/
def Spelt (w : Watch F) (cur : Fields) : Prop := w.calm → ∀ p ∈ cur.entries, p.1.IsBytes ∧ p.2.parts.1.IsBytes

/-- The fields of a stored hash are byte strings. -/
theorem spelt_of_start (h : w.start.value key = some (.hash cur)) : w.Spelt cur := fun hc => (w.typed hc key _ h).1

/-- What is read under a field was stored in the hash, and what is left of the hash was there before. -/
theorem commits_field (cur : Fields) {field : Value} (hfield : w.calm → field.IsBytes) :
    w.Commits (_field key cur field) fun r =>
      (∀ live, r.1 = some live → ∃ p ∈ cur.entries, live = p.2.parts) ∧ ∀ p ∈ r.2.entries, p ∈ cur.entries := by
  refine (commits_needHash hfield).bind ?_
  intro _ _
  split
  · exact .pure ⟨nofun, fun p hp => hp⟩
  · exact .pure ⟨nofun, fun p hp => hp⟩
  · rename_i e _ he
    refine commits_clock.bind ?_
    intro now _
    refine .ite (fun _ => ?_) fun _ => .pure ⟨fun live hlive => ?_, fun p hp => hp⟩
    · exact (commits_storeHash _).bind fun _ _ => .pure ⟨nofun, fun p hp => List.mem_of_mem_filter hp⟩
    · exact ⟨(field, e), (Dict.get_eq_some_iff ..).1 he, (Option.some.inj hlive).symm⟩

/-- A field that is live was found without a purge. -/
theorem atomic_field {field : Value} {f : Option (Value × Option Int) × Fields → K F α}
    (hnone : ∀ cur', w.Commits (f (none, cur')) Q)
    (hsome : ∀ live, w.Atomic (f (some live, cur)) Q) : w.Atomic (_field key cur field >>= f) Q := by
  unfold _field
  rw [bind_assoc]
  refine (reads_of_computes (computes_needHash field)).andThen ?_
  intro _ _
  split
  · exact Reads.andThen (Q := (· = (none, cur))) (.pure rfl) fun r hr => hr ▸ (hnone cur).atomic
  · exact Reads.andThen (Q := (· = (none, cur))) (.pure rfl) fun r hr => hr ▸ (hnone cur).atomic
  · rename_i e _ _
    rw [bind_assoc]
    refine (reads_of_computes computes_clock).andThen ?_
    intro now _
    split
    · rw [bind_assoc]
      refine (commits_storeHash _).atomic.andThen ?_
      intro _ _
      exact Commits.bind (Q := (· = (none, cur.erase field))) (.pure rfl) fun r hr => hr ▸ hnone _
    · exact Reads.andThen (Q := (· = (some e.parts, cur))) (.pure rfl) fun r hr => hr ▸ hsome _

/-- The hash under a key, or a new one: only then has something been written. -/
theorem atomic_hashOrNew {f : Fields → K F α} (hkey : w.calm → key.IsBytes) (hnew : w.Commits (f ∅) Q)
    (hold : ∀ cur, w.Atomic (f cur) Q) : w.Atomic (hashOrNew key >>= f) Q := by
  unfold hashOrNew
  rw [bind_assoc]
  refine (reads_hash key).andThen ?_
  intro o ho
  cases o with
  | none =>
    dsimp only
    rw [bind_assoc]
    refine (commits_setitem hkey (.inr ho) (inOrder_hash ∅)).atomic.andThen ?_
    intro _ _
    exact Commits.bind (Q := (· = ∅)) (.pure rfl) fun cur hcur => hcur ▸ hnew
  | some cur => exact Reads.andThen (Q := (· = cur)) (.pure rfl) fun cur' hcur => hcur ▸ hold cur

/-- A command that looks at the hash and then goes through its fields. -/
theorem atomic_hashed {missing : K F α} {f : Fields → K F α} (hmissing : w.Atomic missing Q)
    (h : ∀ cur, w.start.value key = some (.hash cur) → w.Commits (f cur) Q) :
    w.Atomic (do match ← _hash key with | none => missing | some cur => f cur) Q := by
  refine (reads_hash key).andThen ?_
  intro o ho
  cases o with
  | none => exact hmissing
  | some cur => exact (h cur ho).atomic

/-! ## Writes -/

/-- The pairs are put in turn, and none is refused. -/
theorem commits_hsetLoop {field_values : List Value} (h : w.calm → ∀ v ∈ field_values, v.IsBytes) (cur : Fields)
    (new_fields : Nat) :
    w.Commits (hsetLoop key field_values cur new_fields) fun _ => True := by
  induction field_values using List.twoStepInduction generalizing cur new_fields with
  | nil => exact .pure trivial
  | singleton field => exact .pure trivial
  | cons_cons field value rest ih _ =>
    refine (commits_field cur fun hc => h hc field (by simp)).bind fun r _ => (commits_storeHash _).bind fun _ _ => ?_
    exact ih (fun hc v hv => h hc v (by simp [hv])) _ _

/-- HSET and HMSET check the number of their arguments and the kind first. -/
theorem atomic_hset_pairs {field_values : List Value} (hkey : w.calm → key.IsBytes) (h : w.calm → ∀ v ∈ field_values, v.IsBytes) :
    w.Atomic (_hset_pairs key field_values) fun _ => True := by
  have hloop : ∀ cur, w.Commits (do
      let new_fields ← hsetLoop key field_values cur 0
      _after_write key .hset
      return new_fields : K F Nat) fun _ => True := fun cur =>
    (commits_hsetLoop h cur 0).bind fun _ _ => (commits_after_write hkey .hset).bind fun _ _ => .pure trivial
  exact atomic_hashOrNew hkey (hloop ∅) fun cur => (hloop cur).atomic

/-- HSET counts the fields it created. -/
theorem atomic_HSET {field_values : List Value} (hkey : w.calm → key.IsBytes) (h : w.calm → ∀ v ∈ field_values, v.IsBytes) :
    w.Atomic (HSET key field_values) w.Answers := by
  unfold HSET
  exact .check fun _ => (atomic_hset_pairs hkey h).andThen fun _ _ => .pure fun _ => rfl

/-- HMSET replies OK. -/
theorem atomic_HMSET {field_values : List Value} (hkey : w.calm → key.IsBytes) (h : w.calm → ∀ v ∈ field_values, v.IsBytes) :
    w.Atomic (HMSET key field_values) w.Answers := by
  unfold HMSET
  exact .check fun _ => (atomic_hset_pairs hkey h).andThen fun _ _ => .pure fun _ => rfl

/-- HSETNX reads the field first. -/
theorem atomic_HSETNX {field : Value} (val : Value) (hkey : w.calm → key.IsBytes) (hfield : w.calm → field.IsBytes) :
    w.Atomic (HSETNX key field val) w.Answers := by
  refine (reads_hash key).andThen ?_
  intro o ho
  have hend : ∀ cur, w.Commits (do
      storeHash key (_put cur field val none)
      _after_write key .hset
      return .int 1 : K F Reply) w.Answers := fun cur =>
    (commits_storeHash _).bind fun _ _ => (commits_after_write hkey .hset).bind fun _ _ => .pure fun _ => rfl
  cases o with
  | none =>
    refine Commits.atomic ?_
    refine (commits_setitem hkey (.inr ho) (inOrder_hash ∅)).bind ?_
    intro _ _
    exact (commits_needHash hfield).bind fun _ _ => hend ∅
  | some cur =>
    refine Commits.atomic ?_
    refine (commits_field cur hfield).bind ?_
    intro r _
    obtain ⟨live, cur'⟩ := r
    cases live with
    | none => exact hend cur'
    | some _ => exact .pure fun _ => rfl

/-! ## Reads -/

/-- A look at a field may purge it, and raises nothing afterwards. -/
theorem atomic_fieldValue {field : Value} (hfield : w.calm → field.IsBytes) :
    w.Atomic (fieldValue key field) fun o => ∀ v, o = some v → w.calm → v.IsBytes := by
  refine atomic_hashed (.pure nofun) ?_
  intro cur hcur
  refine (commits_field cur hfield).bind ?_
  intro r hr
  refine .pure fun v hv hc => ?_
  obtain ⟨live, hlive, rfl⟩ := Option.map_eq_some_iff.1 hv
  obtain ⟨p, hp, rfl⟩ := hr.1 live hlive
  exact (spelt_of_start hcur hc p hp).2

/-- HGET replies a value that can be sent. -/
theorem atomic_HGET {field : Value} (hfield : w.calm → field.IsBytes) : w.Atomic (HGET key field) w.Answers := by
  refine (atomic_fieldValue hfield).andThen fun o ho => .pure fun hc => ?_
  cases o with
  | none => rfl
  | some v => exact Reply.encodes_ofValue (ho v rfl hc)

/-- The fields are read in turn, and each reply can be sent. -/
theorem commits_hmgetLoop {fields : List Value} (h : w.calm → ∀ v ∈ fields, v.IsBytes) {cur : Fields} (hcur : w.Spelt cur) :
    w.Commits (hmgetLoop key fields cur) fun out => ∀ r ∈ out, w.Answers r := by
  induction fields generalizing cur with
  | nil => exact .pure nofun
  | cons field fields ih =>
    refine (commits_field cur fun hc => h hc field (by simp)).bind ?_
    intro r hr
    have hrest : w.Spelt r.2 := fun hc p hp => hcur hc p (hr.2 p hp)
    refine (ih (fun hc v hv => h hc v (by simp [hv])) hrest).bind fun out hout => .pure
      (List.forall_mem_cons.2 ⟨fun hc => ?_, hout⟩)
    cases hlive : r.1 with
    | none => rfl
    | some live =>
      obtain ⟨p, hp, rfl⟩ := hr.1 live hlive
      exact Reply.encodes_ofValue (hcur hc p hp).2

/-- HMGET checks the kind first. -/
theorem atomic_HMGET {fields : List Value} (h : w.calm → ∀ v ∈ fields, v.IsBytes) : w.Atomic (HMGET key fields) w.Answers := by
  unfold HMGET
  refine .check fun _ => ?_
  refine atomic_hashed (.pure fun _ => Reply.encodes_map fun _ _ => rfl) ?_
  intro cur hcur
  exact (commits_hmgetLoop h (spelt_of_start hcur)).bind fun out hout => .pure fun hc =>
    Reply.encodes_list fun r hr => hout r hr hc

/-- HEXISTS reads one field. -/
theorem atomic_HEXISTS {field : Value} (hfield : w.calm → field.IsBytes) : w.Atomic (HEXISTS key field) w.Answers :=
  (atomic_fieldValue hfield).andThen fun _ _ => .pure fun _ => rfl

/-- The fields are dropped in turn. -/
theorem commits_hdelLoop {fields : List Value} (h : w.calm → ∀ v ∈ fields, v.IsBytes) (cur : Fields) (removed : Nat) :
    w.Commits (hdelLoop key fields cur removed) fun _ => True := by
  induction fields generalizing cur removed with
  | nil => exact .pure trivial
  | cons field fields ih =>
    have hrest := fun hc v hv => h hc v (List.mem_cons_of_mem _ hv)
    refine (commits_field cur fun hc => h hc field (by simp)).bind ?_
    intro r _
    obtain ⟨live, cur'⟩ := r
    cases live with
    | none => exact ih hrest cur' removed
    | some _ => exact (commits_storeHash _).bind fun _ _ => ih hrest _ _

/-- HDEL checks the kind first. -/
theorem atomic_HDEL {fields : List Value} (hkey : w.calm → key.IsBytes) (h : w.calm → ∀ v ∈ fields, v.IsBytes) :
    w.Atomic (HDEL key fields) w.Answers := by
  unfold HDEL
  refine .check fun _ => ?_
  refine atomic_hashed (.pure fun _ => rfl) ?_
  intro cur _
  refine (commits_hdelLoop h cur 0).bind ?_
  intro r _
  obtain ⟨cur', removed⟩ := r
  have hend : w.Commits (if cur'.entries = [] then
      data_remove key >>= fun _ =>
        (if removed ≠ 0 then _notify key .del >>= fun _ => pure (.int removed) else pure (.int removed))
      else pure (.int removed) : K F Reply) w.Answers := by
    refine .ite (fun _ => (commits_remove hkey).bind fun _ _ => .ite (fun _ => ?_) fun _ => .pure fun _ => rfl) fun _ =>
      .pure fun _ => rfl
    exact (commits_notify hkey .del).bind fun _ _ => .pure fun _ => rfl
  exact .ite (fun _ => (commits_after_write hkey .hdel).bind fun _ _ => hend) fun _ => hend

/-- The expired fields are dropped on the way. -/
theorem commits_live_pairs {cur : Fields} (hcur : w.Spelt cur) :
    w.Commits (_live_pairs key cur) fun r => ∀ p ∈ r.1, w.calm → p.1.IsBytes ∧ p.2.1.IsBytes := by
  refine commits_clock.bind ?_
  intro now _
  refine (commits_storeHash _).bind ?_
  intro _ _
  refine .pure fun p hp hc => ?_
  obtain ⟨q, hq, rfl⟩ := List.mem_map.1 hp
  exact hcur hc q (List.mem_of_mem_filter hq)

/-- The fields and values of some pairs, one after the other. -/
theorem encodes_pairs {pairs : List (Value × Value × Option Int)} (h : ∀ p ∈ pairs, p.1.IsBytes ∧ p.2.1.IsBytes) :
    (Reply.values (pairs.flatMap fun p => [p.1, p.2.1])).Encodes := by
  refine Reply.encodes_values ?_
  intro v hv
  obtain ⟨p, hp, hv⟩ := List.mem_flatMap.1 hv
  rcases List.mem_pair.1 hv with rfl | rfl
  · exact (h p hp).1
  · exact (h p hp).2

/-- The names of the fields can be sent. -/
theorem encodes_fields {pairs : List (Value × Value × Option Int)} (h : ∀ p ∈ pairs, p.1.IsBytes ∧ p.2.1.IsBytes) :
    (Reply.values (pairs.map (·.1))).Encodes := by
  refine Reply.encodes_values ?_
  intro v hv
  obtain ⟨p, hp, rfl⟩ := List.mem_map.1 hv
  exact (h p hp).1

/-- A reply from the live fields comes after their purge. -/
theorem atomic_hashRead {missing : Reply} {f : List (Value × Value × Option Int) → Reply} (hkey : w.calm → key.IsBytes)
    (hmissing : missing.Encodes) (hf : ∀ pairs, (∀ p ∈ pairs, p.1.IsBytes ∧ p.2.1.IsBytes) → (f pairs).Encodes) :
    w.Atomic (hashRead key missing f) w.Answers := by
  refine atomic_hashed (.pure fun _ => hmissing) ?_
  intro cur hcur
  refine (commits_live_pairs (spelt_of_start hcur)).bind ?_
  intro r hr
  exact (commits_drop hkey).bind fun _ _ => .pure fun hc => hf _ fun p hp => hr p hp hc

theorem atomic_HLEN (hkey : w.calm → key.IsBytes) : w.Atomic (HLEN key) w.Answers := atomic_hashRead hkey rfl fun _ _ => rfl

theorem atomic_HKEYS (hkey : w.calm → key.IsBytes) : w.Atomic (HKEYS key) w.Answers :=
  atomic_hashRead hkey rfl fun _ => encodes_fields

theorem atomic_HVALS (hkey : w.calm → key.IsBytes) : w.Atomic (HVALS key) w.Answers := by
  refine atomic_hashRead hkey rfl ?_
  intro pairs h
  refine Reply.encodes_values ?_
  intro v hv
  obtain ⟨p, hp, rfl⟩ := List.mem_map.1 hv
  exact (h p hp).2

/-- HGETALL lists both. -/
theorem atomic_HGETALL (hkey : w.calm → key.IsBytes) : w.Atomic (HGETALL key) w.Answers :=
  atomic_hashRead hkey rfl fun _ => encodes_pairs

/-- HSTRLEN measures one value. -/
theorem atomic_HSTRLEN {field : Value} (hfield : w.calm → field.IsBytes) : w.Atomic (HSTRLEN key field) w.Answers := by
  refine (atomic_fieldValue hfield).andThen ?_
  intro o ho
  split
  · exact .pure fun _ => rfl
  · exact .pure fun _ => rfl
  · exact .pure fun _ => rfl
  · rename_i v hbytes _
    refine .raise ?_
    intro hc
    obtain ⟨b, hb⟩ := (Value.isBytes_iff v).1 (ho v rfl hc)
    exact hbytes b hb

/-- HSCAN reads its options first. -/
theorem atomic_HSCAN (cursor : Value) (options : List Value) (hkey : w.calm → key.IsBytes) :
    w.Atomic (HSCAN key cursor options) w.Answers := by
  refine (reads_of_computes (computes_parse_scan_cursor cursor)).andThen ?_
  intro _ _
  refine (reads_of_computes (computes_parse_scan_options none options)).andThen ?_
  intro pattern _
  refine (reads_of_computes (computes_compilePattern pattern)).andThen ?_
  intro rgx _
  refine atomic_hashed (.pure fun _ => rfl) ?_
  intro cur hcur
  refine (commits_live_pairs (spelt_of_start hcur)).bind ?_
  intro r hr
  refine (commits_filterM fun p hp => ?_).bind fun found hfound => ?_
  · refine commits_of_computes (computes_patternMatches rgx p.1) ?_
    intro hc
    obtain ⟨b, hb⟩ := (Value.isBytes_iff p.1).1 (hr p hp hc).1
    rw [hb]
    cases rgx with
    | none => exact ⟨_, rfl⟩
    | some matcher => exact ⟨_, rfl⟩
  · refine (commits_drop hkey).bind fun _ _ => .pure fun hc => Reply.encodes_list ?_
    have hpairs := encodes_pairs fun p hp => hr p (hfound p hp) hc
    simp only [List.mem_cons, List.not_mem_nil, or_false, forall_eq_or_imp, forall_eq]
    exact ⟨rfl, hpairs⟩

/-- HRANDFIELD reads its options first, and draws from fields that are there. -/
theorem atomic_HRANDFIELD (count : Option Int) (options : List Value) (hkey : w.calm → key.IsBytes) :
    w.Atomic (HRANDFIELD key count options) w.Answers := by
  unfold HRANDFIELD
  cases count with
  | none =>
    refine .check fun _ => ?_
    refine atomic_hashed (.pure fun _ => rfl) ?_
    intro cur hcur
    refine (commits_live_pairs (spelt_of_start hcur)).bind ?_
    intro r hr
    refine (commits_drop hkey).bind ?_
    intro _ _
    refine .ite (fun _ => .pure fun _ => rfl) ?_
    intro hne
    exact (commits_of_returns (.choice hne)).bind fun p hp => .pure fun hc => Reply.encodes_ofValue (hr p hp hc).1
  | some count =>
    refine (reads_of_computes (computes_flagOptions _ options)).andThen ?_
    intro _ _
    refine atomic_hashed (.pure fun _ => rfl) ?_
    intro cur hcur
    refine (commits_live_pairs (spelt_of_start hcur)).bind ?_
    intro r hr
    refine (commits_drop hkey).bind ?_
    intro _ _
    refine .ite (fun _ => .pure fun _ => rfl) ?_
    intro hne
    refine (commits_of_returns (.pick hne count)).bind ?_
    intro picked hpicked
    refine .pure fun hc => ?_
    split
    · exact encodes_fields fun p hp => hr p (hpicked p hp) hc
    · exact encodes_pairs fun p hp => hr p (hpicked p hp) hc

/-! ## Counters -/

/-- HINCRBY checks the number and the sum first. -/
theorem atomic_HINCRBY {field : Value} {increment : Int} (hkey : w.calm → key.IsBytes) (hfield : w.calm → field.IsBytes)
    (hincrement : INT64_MIN ≤ increment ∧ increment ≤ INT64_MAX) : w.Atomic (HINCRBY key field increment) w.Answers := by
  have hend : ∀ cur current deadline, w.Commits (do
      storeHash key (_put cur field (.bytes (decimal (current + increment))) deadline)
      _after_write key .hincrby
      return .int (current + increment) : K F Reply) w.Answers := fun cur current deadline =>
    (commits_storeHash _).bind fun _ _ => (commits_after_write hkey .hincrby).bind fun _ _ => .pure fun _ => rfl
  -- a field that is not there counts as zero, and the increment alone is in range
  have hzero : ¬(0 + increment < INT64_MIN ∨ INT64_MAX < 0 + increment) := by omega
  have hnew : ∀ cur : Fields,
    w.Commits (if 0 + increment < INT64_MIN ∨ INT64_MAX < 0 + increment then throw_ .OVERFLOW >>= fun _ => do
      storeHash key (_put cur field (.bytes (decimal (0 + increment))) none)
      _after_write key .hincrby
      return .int (0 + increment)
    else do
      storeHash key (_put cur field (.bytes (decimal (0 + increment))) none)
      _after_write key .hincrby
      return .int (0 + increment) : K F Reply) w.Answers := fun cur => .check (fun _ => hzero) (hend cur 0 none)
  refine atomic_hashOrNew hkey ?_ fun cur => atomic_field (fun cur' => hnew cur') fun live => ?_
  · refine (commits_field ∅ hfield).bind ?_
    intro r hr
    obtain ⟨live, cur'⟩ := r
    cases live with
    | none => exact hnew cur'
    | some live =>
      obtain ⟨p, hp, -⟩ := hr.1 live rfl
      cases hp
  · refine Reads.andThen (Q := fun _ => True)
      ((reads_of_computes (computes_fieldCounter live.1)).bind fun _ _ => .pure trivial) ?_
    intro current _
    exact .check fun _ => (hend _ _ _).atomic

/-- Likewise with a fraction. -/
theorem atomic_HINCRBYFLOAT {field : Value} (increment : Value) (hkey : w.calm → key.IsBytes) (hfield : w.calm → field.IsBytes) :
    w.Atomic (HINCRBYFLOAT key field increment) w.Answers := by
  refine (reads_of_computes (computes_floatArg _ increment)).andThen ?_
  intro incr _
  refine .check fun hfinite => ?_
  have hend : ∀ (cur : Fields) (result : F) deadline, w.Commits (do
      storeHash key (_put cur field (.bytes (_format_float result)) deadline)
      _after_write key .hincrbyfloat
      return .bytes (_format_float result) : K F Reply) w.Answers := fun cur result deadline =>
    (commits_storeHash _).bind fun _ _ => (commits_after_write hkey .hincrbyfloat).bind fun _ _ => .pure fun _ => rfl
  -- a field that is not there counts as zero, which added to a finite number gives a finite one
  have hzero : w.calm → ¬(!isfinite (PyFloat.add PyFloat.zero incr)) = true := fun hc => by
    rw [(w.floats hc).add_zero incr (by simpa using hfinite)]
    decide
  have hnew : ∀ cur : Fields,
    w.Commits (if (!isfinite (PyFloat.add PyFloat.zero incr)) = true then throw_ .FLOAT_OVERFLOW >>= fun _ => do
      storeHash key (_put cur field (.bytes (_format_float (PyFloat.add PyFloat.zero incr))) none)
      _after_write key .hincrbyfloat
      return .bytes (_format_float (PyFloat.add PyFloat.zero incr))
    else do
      storeHash key (_put cur field (.bytes (_format_float (PyFloat.add PyFloat.zero incr))) none)
      _after_write key .hincrbyfloat
      return .bytes (_format_float (PyFloat.add PyFloat.zero incr)) : K F Reply) w.Answers :=
        fun cur => .check hzero (hend cur _ none)
  refine atomic_hashOrNew hkey ?_ fun cur => atomic_field (fun cur' => hnew cur') fun live => ?_
  · refine (commits_field ∅ hfield).bind ?_
    intro r hr
    obtain ⟨live, cur'⟩ := r
    cases live with
    | none => exact hnew cur'
    | some live =>
      obtain ⟨p, hp, -⟩ := hr.1 live rfl
      cases hp
  · refine Reads.andThen (Q := fun _ => True) ((reads_of_computes (computes_floatArg _ live.1)).bind fun _ _ => .pure trivial) ?_
    intro current _
    exact .check fun _ => (hend _ _ _).atomic

/-! ## Deadlines of fields -/

/-- The deadlines are moved in turn, and none is refused. -/
theorem commits_hexpireLoop {fields : List Value} (h : w.calm → ∀ v ∈ fields, v.IsBytes) (new_deadline : Int)
    (flag : Option TtlFlag)
    (cur : Fields) (out : List Int) : w.Commits (hexpireLoop key new_deadline flag fields cur out) fun _ => True := by
  induction fields generalizing cur out with
  | nil => exact .pure trivial
  | cons field fields ih =>
    have hrest := fun hc v hv => h hc v (List.mem_cons_of_mem _ hv)
    refine (commits_field cur fun hc => h hc field (by simp)).bind ?_
    intro r _
    obtain ⟨live, cur'⟩ := r
    cases live with
    | none => exact ih hrest cur' _
    | some live =>
      refine .ite (fun _ => ih hrest cur' _) ?_
      intro _
      refine commits_clock.bind ?_
      intro now _
      refine .ite (fun _ => ?_) fun _ => ?_
      · exact (commits_storeHash _).bind fun _ _ => ih hrest _ _
      · exact (commits_storeHash _).bind fun _ _ => ih hrest _ _

/-- HEXPIRE reads all its arguments first. -/
theorem atomic_hexpire (command : Cmd) {args : List Value} (hkey : w.calm → key.IsBytes)
    (hargs : w.calm → ∀ v ∈ args, v.IsBytes) :
    w.Atomic (_hexpire command key args) w.Answers := by
  refine (reads_of_computes (computes_parse_field_ttl_args command args)).andThen ?_
  intro parsed hparsed
  have hfields := fun hc v hv => hargs hc v (hparsed v hv)
  refine atomic_hashed (.pure fun _ => Reply.encodes_map fun _ _ => rfl) ?_
  intro cur _
  refine commits_clock.bind ?_
  intro now _
  refine (commits_hexpireLoop hfields _ _ _ _).bind ?_
  intro r _
  have hend : w.Commits (_drop_if_empty key r.2 >>= fun _ => pure (.list (r.1.map .int)) : K F Reply) w.Answers :=
    (commits_drop hkey).bind fun _ _ => .pure fun _ => Reply.encodes_map fun _ _ => rfl
  refine .ite (fun _ => (commits_after_write hkey .hexpire).bind fun _ _ => .ite (fun _ => ?_) fun _ => hend) fun _ => hend
  exact (commits_notify hkey .del).bind fun _ _ => hend

/-- The deadlines are read in turn, or dropped. -/
theorem commits_hexpireReadLoop {fields : List Value} (h : w.calm → ∀ v ∈ fields, v.IsBytes) (read : TtlRead)
    (now : Int) (cur : Fields)
    (out : List Int) (persisted : Nat) : w.Commits (hexpireReadLoop key read now fields cur out persisted) fun _ => True := by
  induction fields generalizing cur out persisted with
  | nil => exact .pure trivial
  | cons field fields ih =>
    have hrest := fun hc v hv => h hc v (List.mem_cons_of_mem _ hv)
    refine (commits_field cur fun hc => h hc field (by simp)).bind ?_
    intro r _
    obtain ⟨live, cur'⟩ := r
    cases live with
    | none => exact ih hrest cur' _ _
    | some live =>
      obtain ⟨value, deadline⟩ := live
      cases deadline with
      | none => exact ih hrest cur' _ _
      | some deadline =>
        cases read with
        | some f => exact ih hrest cur' _ _
        | none => exact (commits_storeHash _).bind fun _ _ => ih hrest _ _ _

/-- HTTL and its relatives read their arguments first. -/
theorem atomic_hexpire_read (command : Cmd) (read : TtlRead) {args : List Value} (hkey : w.calm → key.IsBytes)
    (hargs : w.calm → ∀ v ∈ args, v.IsBytes) : w.Atomic (_hexpire_read command read key args) w.Answers := by
  unfold _hexpire_read
  refine .check fun _ => ?_
  cases args with
  | nil => exact .raise
  | cons keyword rest =>
    refine (reads_of_computes (computes_upperArg keyword)).andThen ?_
    intro _ _
    refine .check fun _ => ?_
    refine (reads_of_computes (computes_fieldList command _ rest)).andThen ?_
    intro fields hfields
    have hmissing : w.Commits (data_remove key >>= fun _ => pure (.list (fields.map fun _ => .int (-2))) : K F Reply) w.Answers :=
      (commits_remove hkey).bind fun _ _ => .pure fun _ => Reply.encodes_map fun _ _ => rfl
    refine atomic_hashed hmissing.atomic ?_
    intro cur _
    refine commits_clock.bind ?_
    intro now _
    refine (commits_hexpireReadLoop (fun hc v hv => hargs hc v (List.mem_cons_of_mem _ (hfields v hv))) read _ _ _ _).bind ?_
    intro r _
    have hend : w.Commits (_drop_if_empty key r.2.1 >>= fun _ => pure (.list (r.1.map .int)) : K F Reply) w.Answers :=
      (commits_drop hkey).bind fun _ _ => .pure fun _ => Reply.encodes_map fun _ _ => rfl
    exact .ite (fun _ => (commits_after_write hkey .hpersist).bind fun _ _ => hend) fun _ => hend

end Watch

end Kagni
