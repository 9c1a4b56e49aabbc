import Kagni.Footprints.Drain
import Kagni.Lemmas.Atomic

/-!
# Set and bitmap commands, as a whole or not at all

A member that has no hash raises in the middle of an update; a byte string has one. SMOVE looks at both keys before the member
leaves the source.
-/

namespace Kagni

open Lib Lib.Prog

variable {F : Type}

namespace Watch

variable [PyFloat F] {w : Watch F} {key : Value}

/-! ## Sets -/

/-- A set has no order to keep. -/
theorem inOrder_set (s : OrdSet Value) : w.calm → (Obj.set s : Obj F).InOrder := fun _ => trivial

/-- The members of a calm command are byte strings. -/
theorem commits_needHashes {vals : List Value} (h : w.calm → ∀ v ∈ vals, v.IsBytes) : w.Commits (needHashes vals) fun _ => True :=
  (commits_of_computes (computes_needHashes vals) fun hc => ⟨(), needHashes_bytes (h hc)⟩).weaken fun _ _ => trivial

/-- SADD checks the kind first. -/
theorem atomic_SADD {vals : List Value} (hkey : w.calm → key.IsBytes) (hvals : w.calm → ∀ v ∈ vals, v.IsBytes) :
    w.Atomic (SADD key vals) w.Answers := by
  refine (reads_of_computes (computes_assert_keys vals .SADD)).andThen ?_
  intro _ _
  refine (reads_set key).andThen ?_
  intro o ho
  cases o with
  | none =>
    refine (reads_of_computes (computes_needHashes vals)).andThen ?_
    intro _ _
    refine (commits_setitem hkey (.inr ho) (inOrder_set _)).atomic.andThen ?_
    intro _ _
    exact (commits_after_write hkey .sadd).bind fun _ _ => .pure fun _ => rfl
  | some cur =>
    refine (commits_store_value (inOrder_set _)).atomic.andThen ?_
    intro _ _
    refine (commits_needHashes hvals).bind ?_
    intro _ _
    refine .ite (fun _ => ?_) fun _ => .pure fun _ => rfl
    exact (commits_after_write hkey .sadd).bind fun _ _ => .pure fun _ => rfl

theorem reads_SCARD (key : Value) : w.Reads (SCARD key) fun _ => True := by
  refine (reads_set key).bind ?_
  intro o _
  cases o <;> exact .pure trivial

/-- SMEMBERS writes nothing. -/
theorem reads_SMEMBERS (key : Value) : w.Reads (SMEMBERS key) fun _ => True := by
  refine (reads_set key).bind ?_
  intro o _
  cases o <;> exact .pure trivial

/-- SREM checks the kind first. -/
theorem atomic_SREM {vals : List Value} (hkey : w.calm → key.IsBytes) (hvals : w.calm → ∀ v ∈ vals, v.IsBytes) :
    w.Atomic (SREM key vals) w.Answers := by
  refine (reads_of_computes (computes_assert_keys vals .SREM)).andThen ?_
  intro _ _
  refine (reads_set key).andThen ?_
  intro o _
  cases o with
  | none => exact .pure fun _ => rfl
  | some cur =>
    refine (commits_store_value (inOrder_set _)).atomic.andThen ?_
    intro _ _
    refine (commits_needHashes hvals).bind ?_
    intro _ _
    have hend : w.Commits (if (sremLoop (hashables vals) cur 0).1.elems = [] then
        data_remove key >>= fun _ => (if (sremLoop (hashables vals) cur 0).2 ≠ 0 then _notify key .del >>= fun _ =>
          pure (.int (sremLoop (hashables vals) cur 0).2) else pure (.int (sremLoop (hashables vals) cur 0).2))
        else pure (.int (sremLoop (hashables vals) cur 0).2) : K F Reply) w.Answers := by
      refine .ite (fun _ => (commits_remove hkey).bind fun _ _ => .ite (fun _ => ?_) fun _ => .pure fun _ => rfl) fun _ =>
        .pure fun _ => rfl
      exact (commits_notify hkey .del).bind fun _ _ => .pure fun _ => rfl
    exact .ite (fun _ => (commits_after_write hkey .srem).bind fun _ _ => hend) fun _ => hend

/-- The sets of some keys are only read. -/
theorem reads_sets (keys : List Value) : w.Reads (_sets keys) fun _ => True := by
  refine (reads_mapM (Q := fun _ => True) fun key _ => (reads_get key).bind fun o _ => ?_).weaken fun _ _ => trivial
  split
  · exact .pure trivial
  · exact .pure trivial
  · exact .raise

/-- SUNION, SINTER and SDIFF write nothing. -/
theorem reads_setOp (op : OrdSet Value → OrdSet Value → OrdSet Value) (command : Cmd) (keys : List Value) :
    w.Reads (setOp op command keys) fun _ => True := by
  refine (reads_of_computes (computes_assert_keys keys command)).bind ?_
  intro _ _
  exact (reads_sets keys).bind fun _ _ => .pure trivial

/-- The store forms read all their sources before they write. -/
theorem atomic_setOpStore (op : OrdSet Value → OrdSet Value → OrdSet Value) (command : Cmd) (event : Event) (keys : List Value)
    (hkey : w.calm → key.IsBytes) (hfree : key ∈ w.free) : w.Atomic (setOpStore op command event key keys) w.Answers := by
  refine (reads_of_computes (computes_assert_keys keys command)).andThen ?_
  intro _ _
  refine (reads_sets keys).andThen ?_
  intro sets _
  refine (Commits.ite (fun _ => ?_) fun _ => (commits_remove hkey).bind fun _ _ => .pure fun _ => rfl).atomic
  refine (commits_setitem hkey (.inl hfree) (inOrder_set _)).bind ?_
  intro _ _
  exact (commits_after_write hkey event).bind fun _ _ => .pure fun _ => rfl

theorem reads_SINTERCARD (numkeys : Int) (rest : List Value) : w.Reads (SINTERCARD numkeys rest) fun _ => True := by
  unfold SINTERCARD
  refine .check fun _ => .check fun _ => ?_
  refine (reads_of_computes (computes_intercardOptions 0 _)).bind ?_
  intro _ _
  refine (reads_sets _).bind ?_
  intro sets _
  cases sets with
  | nil => exact .raise
  | cons first others => exact .pure trivial

/-- SSCAN writes nothing. -/
theorem reads_SSCAN (key cursor : Value) (options : List Value) : w.Reads (SSCAN key cursor options) fun _ => True := by
  refine (reads_of_computes (computes_parse_scan_cursor cursor)).bind ?_
  intro _ _
  refine (reads_of_computes (computes_parse_scan_options none options)).bind ?_
  intro pattern _
  refine (reads_of_computes (computes_compilePattern pattern)).bind ?_
  intro rgx _
  refine (reads_set key).bind ?_
  intro o _
  cases o with
  | none => exact .pure trivial
  | some cur => exact (reads_filterM fun v _ => reads_of_computes (computes_patternMatches rgx v)).bind fun _ _ => .pure trivial

theorem reads_SMISMEMBER (key : Value) (vals : List Value) : w.Reads (SMISMEMBER key vals) fun _ => True := by
  unfold SMISMEMBER
  refine .check fun _ => ?_
  refine (reads_set key).bind ?_
  intro o _
  cases o with
  | none => exact .pure trivial
  | some cur => exact (reads_of_computes (computes_needHashes vals)).bind fun _ _ => .pure trivial

/-- SISMEMBER writes nothing. -/
theorem reads_SISMEMBER (key val : Value) : w.Reads (SISMEMBER key val) fun _ => True := by
  refine (reads_set key).bind ?_
  intro o _
  cases o with
  | none => exact .pure trivial
  | some cur => exact (reads_of_computes (computes_needHash val)).bind fun _ _ => .pure trivial

/-- Both keys are looked at, and the member too, before it leaves the source. -/
theorem atomic_SMOVE {source target : Value} (val : Value) (hsource : w.calm → source.IsBytes)
    (htarget : w.calm → target.IsBytes) :
    w.Atomic (SMOVE source target val) w.Answers := by
  refine (reads_set source).andThen ?_
  intro o _
  cases o with
  | none => exact .pure fun _ => rfl
  | some src =>
    refine (reads_of_computes (computes_needHash val)).andThen ?_
    intro _ _
    refine .ite (fun _ => .pure fun _ => rfl) ?_
    intro _
    refine (reads_set target).andThen ?_
    intro dst hdst
    refine (commits_store_value (inOrder_set _)).atomic.andThen ?_
    intro _ _
    have hend : w.Commits (do
        let src'' := if source = target then (src.erase val).insert val else src.erase val
        _after_write source .srem
        if src''.elems = [] then
          let _ ← data_remove source
          _notify source .del
        _after_write target .sadd
        return .int 1 : K F Reply) w.Answers := by
      have htail : w.Commits (_after_write target .sadd >>= fun _ => pure (.int 1) : K F Reply) w.Answers :=
        (commits_after_write htarget .sadd).bind fun _ _ => .pure fun _ => rfl
      refine (commits_after_write hsource .srem).bind ?_
      intro _ _
      refine .ite (fun _ => ?_) fun _ => htail
      refine (commits_remove hsource).bind ?_
      intro _ _
      exact (commits_notify hsource .del).bind fun _ _ => htail
    cases dst with
    | none => exact (commits_setitem htarget (.inr hdst) (inOrder_set _)).bind fun _ _ => hend
    | some dst => exact (commits_store_value (inOrder_set _)).bind fun _ _ => hend

/-- The members are byte strings when the command is calm. -/
def Members (w : Watch F) (s : OrdSet Value) : Prop := w.calm → ∀ v ∈ s.elems, v.IsBytes

/-- The members of a stored set are byte strings. -/
theorem members_of_start {o : Option (OrdSet Value)} (h : w.start.value key = o.map .set) : w.Members (o.getD ∅) := fun hc => by
  cases o with
  | none => nofun
  | some s => exact (w.typed hc key _ h).1

/-- A drawn member is taken from a set that has one. -/
theorem commits_popMember {cur : OrdSet Value} (hcur : w.Members cur) (hne : cur.elems ≠ []) :
    w.Commits (popMember key cur) fun p => (w.calm → p.1.IsBytes) ∧ p.2 = cur.erase p.1 := by
  refine (commits_of_returns (.choice hne)).bind ?_
  intro val hval
  refine (commits_store_value (inOrder_set _)).bind ?_
  intro _ _
  refine .pure ⟨fun hc => ?_, rfl⟩
  exact hcur hc val hval

/-- There are as many members to take as are taken. -/
theorem commits_popMembers {count : Nat} {cur : OrdSet Value} (hcur : w.Members cur) (hcount : count ≤ cur.card) :
    w.Commits (popMembers key count cur) fun vals => w.calm → ∀ v ∈ vals, v.IsBytes := by
  induction count generalizing cur with
  | zero => exact .pure fun _ => nofun
  | succ count ih =>
    have hne : cur.elems ≠ [] := List.ne_nil_of_length_pos (show 0 < cur.card by omega)
    refine (commits_popMember hcur hne).bind ?_
    intro p hp
    have hcard := cur.card_erase_le p.1
    have hrest : w.Members p.2 := fun hc v hv => hcur hc v (List.mem_of_mem_filter (hp.2 ▸ hv))
    refine (ih hrest (by rw [hp.2]; omega)).bind fun vals hvals => .pure fun hc => ?_
    exact List.forall_mem_cons.2 ⟨hp.1 hc, hvals hc⟩

/-- SPOP checks the count and the kind first. -/
theorem atomic_SPOP (count : Option Int) (hkey : w.calm → key.IsBytes) : w.Atomic (SPOP key count) w.Answers := by
  unfold SPOP
  refine .check fun _ => ?_
  refine (reads_set key).andThen ?_
  intro o ho
  have hcur := members_of_start ho
  refine .ite (fun _ => .pure fun _ => ?_) fun hne => ?_
  · cases count <;> rfl
  cases count with
  | none =>
    refine Commits.atomic ?_
    refine (commits_popMember hcur hne).bind ?_
    intro p hp
    refine (commits_after_write hkey .spop).bind ?_
    intro _ _
    refine .ite (fun _ => ?_) fun _ => .pure fun hc => Reply.encodes_ofValue (hp.1 hc)
    refine (commits_remove hkey).bind ?_
    intro _ _
    refine (commits_notify hkey .del).bind ?_
    intro _ _
    refine .pure fun hc => ?_
    exact Reply.encodes_ofValue (hp.1 hc)
  | some count =>
    refine .ite (fun _ => .pure fun _ => rfl) ?_
    intro _
    refine .ite (fun _ => ?_) fun hlt => ?_
    · refine Commits.atomic ?_
      refine (commits_after_write hkey .spop).bind ?_
      intro _ _
      refine (commits_remove hkey).bind ?_
      intro _ _
      exact (commits_notify hkey .del).bind fun _ _ => .pure fun hc => Reply.encodes_values (hcur hc)
    · have hcount : count.toNat ≤ (o.getD ∅).card := by omega
      refine Commits.atomic ?_
      refine (commits_after_write hkey .spop).bind ?_
      intro _ _
      refine (commits_popMembers hcur hcount).bind ?_
      intro vals hvals
      exact .pure fun hc => Reply.encodes_values (hvals hc)

theorem reads_SRANDMEMBER (key : Value) (count : Option Int) : w.Reads (SRANDMEMBER key count) fun _ => True := by
  refine (reads_set key).bind ?_
  intro o _
  refine .ite (fun _ => .pure trivial) ?_
  intro hne
  cases count with
  | none => exact (reads_of_returns (.choice hne)).bind fun _ _ => .pure trivial
  | some count => exact (reads_of_returns (.pick hne count)).bind fun _ _ => .pure trivial

/-! ## Bitmaps -/

/-- A bitmap has no order to keep. -/
theorem inOrder_bitmap (b : Finset Nat) : w.calm → (Obj.bitmap b : Obj F).InOrder := fun _ => trivial

/-- SETBIT checks the bit, its value and the kind first. -/
theorem atomic_SETBIT (bit val : Int) (hkey : w.calm → key.IsBytes) : w.Atomic (SETBIT key bit val) w.Answers := by
  unfold SETBIT
  refine .check fun _ => .check fun _ => Atomic.andThen (Q := fun _ => True) ?_ fun previous _ => .ite (fun _ => ?_) fun _ =>
    .pure fun _ => rfl
  · refine (reads_bitmap key).andThen ?_
    intro o ho
    cases o with
    | none => exact ((commits_setitem hkey (.inr ho) (inOrder_bitmap _)).bind fun _ _ => .pure trivial).atomic
    | some bmap => exact ((commits_store_value (inOrder_bitmap _)).bind fun _ _ => .pure trivial).atomic
  · exact (commits_after_write hkey .setbit).bind fun _ _ => .pure fun _ => rfl

/-- GETBIT writes nothing. -/
theorem reads_GETBIT (key : Value) (bit : Int) : w.Reads (GETBIT key bit) fun _ => True := by
  unfold GETBIT
  refine .check fun _ => ?_
  refine (reads_bitmap key).bind ?_
  intro o _
  cases o with
  | none => exact .pure trivial
  | some bmap => exact .ite (fun _ => .pure trivial) fun _ => .raise

/-- BITOP reads all its sources before it writes. -/
theorem atomic_BITOP (op : Value) (keys : List Value) (hkey : w.calm → key.IsBytes) (hfree : key ∈ w.free) :
    w.Atomic (BITOP op key keys) w.Answers := by
  refine (reads_of_computes (computes_assert_keys keys .BITOP)).andThen ?_
  intro _ _
  refine (reads_of_computes (computes_upperArg op)).andThen ?_
  intro _ _
  refine (reads_mapM (Q := fun _ => True) fun key _ => (reads_bitmap key).bind fun _ _ => .pure trivial).andThen ?_
  intro maps _
  refine (reads_of_computes (computes_bitopResult _ maps)).andThen ?_
  intro result _
  refine .ite (fun _ => ?_) fun _ => ?_
  · refine Commits.atomic ?_
    refine (commits_setitem hkey (.inl hfree) (inOrder_bitmap _)).bind ?_
    intro _ _
    exact (commits_after_write hkey .set).bind fun _ _ => .pure fun _ => rfl
  · exact ((commits_remove hkey).bind fun _ _ => .pure fun _ => rfl).atomic

theorem reads_BITCOUNT (key : Value) : w.Reads (BITCOUNT key) fun _ => True := (reads_bitmap key).bind fun _ _ => .pure trivial

/-- BITPOS writes nothing. -/
theorem reads_BITPOS (key bit : Value) : w.Reads (BITPOS key bit) fun _ => True := by
  unfold BITPOS
  refine .check fun _ => ?_
  refine (reads_bitmap key).bind ?_
  intro o _
  cases o with
  | none => exact .pure trivial
  | some bmap =>
    refine .ite (fun _ => .pure trivial) ?_
    intro _
    exact .ite (fun _ => .pure trivial) fun _ => .pure trivial

/-- BITFIELD writes as it goes, and an offset at the end of the bitmap may raise in between. -/
theorem writes_bitfieldLoop (created : Bool) (subs : List Sub) (bmap : Finset Nat) (out : List Reply) (wrote : Bool) :
    w.Writes (bitfieldLoop key created subs bmap out wrote) fun _ => True := by
  have hbits : ∀ (bmap : Finset Nat) offset width, w.Writes (orFail (_extract_bits bmap offset width)) fun _ => True :=
    fun bmap offset width => by
    cases _extract_bits bmap offset width with
    | none => exact .raise
    | some bits => exact .pure trivial
  induction subs generalizing bmap out wrote with
  | nil => exact .pure trivial
  | cons sub subs ih =>
    cases sub with
    | get type offset => exact (hbits _ _ _).bind fun _ _ => ih _ _ _
    | write incrby type offset amount overflow =>
      refine (hbits _ _ _).bind ?_
      intro bits _
      dsimp only
      split
      · exact ih _ _ _
      · exact .ite (fun _ => (commits_store_value (inOrder_bitmap _)).writes.bind fun _ _ => ih _ _ _) fun _ => ih _ _ _

/-- BITFIELD may raise after a field was written. -/
theorem ends_bitfield (hkey : w.calm → key.IsBytes) (args : List Value) (ro : Bool) : w.Ends (_bitfield key args ro) := by
  refine (reads_of_computes (computes_bitfieldSubs ro .WRAP args)).ends ?_
  intro subs _
  refine (reads_bitmap key).ends ?_
  intro stored hstored
  refine Writes.ends (Q := fun _ => True) ((writes_bitfieldLoop stored.isNone subs _ [] false).bind fun p _ => ?_)
  obtain ⟨bmap, out, wrote⟩ := p
  have hend : w.Writes (if wrote then _after_write key .setbit >>= fun _ => pure (Reply.list out) else pure (.list out))
      fun _ => True :=
    .ite (fun _ => (commits_after_write hkey .setbit).writes.bind fun _ _ => .pure trivial) fun _ => .pure trivial
  refine .ite (fun hnew => ?_) fun _ => hend
  refine (commits_setitem hkey (.inr ?_) (inOrder_bitmap _)).writes.bind fun _ _ => hend
  rw [hstored, Option.isNone_iff_eq_none.1 hnew.1]
  rfl

end Watch

end Kagni
