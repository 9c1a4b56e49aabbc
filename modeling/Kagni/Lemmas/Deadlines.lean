import Kagni.Deadlines

/-!
# What becomes of the deadline of a replaced key

A command that replaces a key reads first, then stores the new value without a deadline, and what it does after that leaves
the entry as it is. If it raises, the key is as it was or has no deadline.
-/

namespace Kagni

open Lib Lib.Prog

variable {F : Type}

/-! ## The options of SET -/

theorem Splits.unique {options : List Value} {gs gs' : List OptionGroup} (h : Splits options gs) (h' : Splits options gs') :
    gs = gs' := by
  induction h generalizing gs' with
  | nil =>
    cases h'
    rfl
  | flag hflag _ ih =>
    cases h' with
    | flag hflag' hrest =>
      rw [hflag] at hflag'
      cases hflag'
      rw [ih hrest]
    | ttl hunit _ =>
      rw [flag_none_of_unit hunit] at hflag
      cases hflag
  | ttl hunit _ ih =>
    cases h' with
    | flag hflag _ =>
      rw [flag_none_of_unit hunit] at hflag
      cases hflag
    | ttl hunit' hrest =>
      rw [hunit] at hunit'
      cases hunit'
      rw [ih hrest]

/-- KEEPTTL is among the options if it is among their groups. -/
theorem setKeeps_of_splits {options : List Value} {gs : List OptionGroup} (h : Splits options gs) (hkeep : .flag .KEEPTTL ∈ gs) :
    setKeeps options = true := by
  induction h with
  | nil => cases hkeep
  | @flag opt f rest gs hflag hrest ih =>
    have hname := ofName_eq_some_iff.1 hflag
    by_cases hf : f = .KEEPTTL
    · have hnames : Value.names (.bytes opt) (bs "KEEPTTL") = true := decide_eq_true (hname.trans (congrArg OptionFlag.name hf))
      cases rest with
      | nil => exact hnames
      | cons raw rest => rw [setKeeps, if_pos hnames]
    · have hmem : .flag .KEEPTTL ∈ gs := (List.mem_cons.1 hkeep).resolve_left fun heq => hf (OptionGroup.flag.inj heq).symm
      cases rest with
      | nil =>
        cases hrest
        cases hmem
      | cons raw rest =>
        have hnames : ∀ name, f.name ≠ name → Value.names (.bytes opt) name = false :=
          fun name hne => decide_eq_false (hname ▸ hne)
        rw [setKeeps, hnames (bs "EX") (by cases f <;> decide), hnames (bs "PX") (by cases f <;> decide),
          hnames (bs "EXAT") (by cases f <;> decide), hnames (bs "PXAT") (by cases f <;> decide)]
        split
        · rfl
        · exact ih hmem
  | @ttl opt unit raw rest gs hunit _ ih =>
    have hname := TtlUnit.ofName_eq_some hunit
    have hne : OptionGroup.flag .KEEPTTL ≠ .ttl unit raw := fun heq => by cases heq
    have hmem : .flag .KEEPTTL ∈ gs := (List.mem_cons.1 hkeep).resolve_left hne
    have hno : Value.names (.bytes opt) (bs "KEEPTTL") = false := decide_eq_false (by rw [hname]; cases unit <;> decide)
    have hyes : Value.names (.bytes opt) unit.name = true := decide_eq_true hname
    rw [setKeeps, hno, if_neg (by decide), if_pos]
    · exact ih hmem
    · cases unit with
      | EX => simp [show Value.names (.bytes opt) (bs "EX") = true from hyes]
      | PX => simp [show Value.names (.bytes opt) (bs "PX") = true from hyes]
      | EXAT => simp [show Value.names (.bytes opt) (bs "EXAT") = true from hyes]
      | PXAT => simp [show Value.names (.bytes opt) (bs "PXAT") = true from hyes]

variable [PyFloat F]

/-! ## Keys without a deadline -/

namespace Watch

variable {w : Watch F} {α β : Type} {m : K F α} {f : α → K F β} {Q : α → Prop} {key other : Value} {k : KState F} {c : Prop}

/-- The key is absent or has no deadline. -/
def Undated (w : Watch F) (key : Value) (k : KState F) : Prop :=
  ∀ e, (k.store.content w.ctx.clock.mono).lookup key = some e → e.expires_at = none

/-- The key has no deadline, or it has not been written. -/
def Spared (w : Watch F) (key : Value) (k : KState F) : Prop :=
  w.Undated key k ∨ (k.store.content w.ctx.clock.mono).lookup key = w.start.lookup key

/-- The program takes the deadline of the key, and may raise before it does. -/
def Undates (w : Watch F) (key : Value) (m : K F α) : Prop :=
  Triple w.ctx w.At m (fun _ => w.Undated key) fun _ => w.Spared key

/-- The program gives the key no deadline, and none of those that were not written before. -/
def Harmless (w : Watch F) (key : Value) (m : K F α) : Prop :=
  Triple w.ctx (w.Undated key) m (fun _ => w.Undated key) (fun _ => w.Undated key) ∧
    Triple w.ctx (w.Spared key) m (fun _ => w.Spared key) fun _ => w.Spared key

theorem At.spared (h : w.At k) (key : Value) : w.Spared key k := .inr (by rw [h.1])

theorem undated_congr {k' : KState F} (hsame : k'.store.storage = k.store.storage) (h : w.Undated key k) : w.Undated key k' := by
  have hcontent : k'.store.content w.ctx.clock.mono = k.store.content w.ctx.clock.mono := by
    rw [Store.content, Store.content, hsame]
  exact fun e he => h e (hcontent ▸ he)

theorem spared_congr {k' : KState F} (hsame : k'.store.storage = k.store.storage) (h : w.Spared key k) : w.Spared key k' := by
  have hcontent : k'.store.content w.ctx.clock.mono = k.store.content w.ctx.clock.mono := by
    rw [Store.content, Store.content, hsame]
  exact h.imp (undated_congr hsame) fun h => hcontent ▸ h

/-! ## Rules -/

theorem Undates.raise {e : Exc Errors} : w.Undates key (Prog.raise e : K F α) := Triple.raise fun _ hk => hk.spared key

/-- First read, then write. -/
theorem Reads.undates (hm : w.Reads m Q) (hf : ∀ a, Q a → w.Undates key (f a)) : w.Undates key (m >>= f) :=
  Triple.bind (Q := fun a k => w.At k ∧ Q a) (hm.conseq (fun _ hk => hk) (fun _ _ hk => hk) fun _ _ hk => hk.spared key)
    fun a k hk => hf a hk.2 k hk.1

theorem Undates.bind (hm : w.Undates key m) (hf : ∀ a, w.Harmless key (f a)) : w.Undates key (m >>= f) := by
  refine Triple.bind hm ?_
  intro a
  exact (hf a).1.conseq (fun _ hk => hk) (fun _ _ hk => hk) fun _ _ hk => .inl hk

theorem Undates.ite [Decidable c] {m' : K F α} (h : c → w.Undates key m) (h' : ¬c → w.Undates key m') :
    w.Undates key (if c then m else m') :=
  Triple.ite h h'

theorem Undates.check [Decidable c] {e : Errors} {g : PUnit → K F α} (h : ¬c → w.Undates key (g PUnit.unit)) :
    w.Undates key (if c then throw_ e >>= g else g PUnit.unit) :=
  .ite (fun _ => Reads.undates (Q := fun _ => False) .raise fun _ => False.elim) h

theorem Harmless.pure {a : α} : w.Harmless key (Pure.pure a : K F α) := ⟨.pure fun _ hk => hk, .pure fun _ hk => hk⟩

theorem Harmless.bind (hm : w.Harmless key m) (hf : ∀ a, w.Harmless key (f a)) : w.Harmless key (m >>= f) :=
  ⟨.bind hm.1 fun a => (hf a).1, .bind hm.2 fun a => (hf a).2⟩

theorem Harmless.ite [Decidable c] {m' : K F α} (h : c → w.Harmless key m) (h' : ¬c → w.Harmless key m') :
    w.Harmless key (if c then m else m') :=
  ⟨.ite (fun hc => (h hc).1) fun hc => (h' hc).1, .ite (fun hc => (h hc).2) fun hc => (h' hc).2⟩

theorem Harmless.each {g : α → K F Unit} {xs : List α} (h : ∀ x ∈ xs, w.Harmless key (g x)) :
    w.Harmless key (Prog.each g xs) := by
  induction xs with
  | nil => exact .pure
  | cons x xs ih => exact (h x (by simp)).bind fun _ => ih fun y hy => h y (by simp [hy])

/-- What leaves the storage alone. -/
theorem harmless_of_same (h : Respects (fun k k' : KState F => k'.store.storage = k.store.storage) m) : w.Harmless key m := by
  refine ⟨fun k hk => ?_, fun k hk => ?_⟩
  · have hend := undated_congr (h w.ctx k) hk
    revert hend
    cases m w.ctx k with
    | mk out k' => cases out <;> exact id
  · have hend := spared_congr (h w.ctx k) hk
    revert hend
    cases m w.ctx k with
    | mk out k' => cases out <;> exact id

theorem harmless_notify (event : Event) : w.Harmless key (_notify other event) :=
  harmless_of_same fun ctx k => congrArg Store.storage (sameStore_notify other event ctx k)

theorem harmless_touch : w.Harmless key (touch other) := harmless_of_same fun _ _ => rfl

theorem harmless_after_write (event : Event) : w.Harmless key (_after_write other event) :=
  harmless_touch.bind fun _ => harmless_notify event

/-! ## Writes -/

/-- A new entry has no deadline, whatever was there. -/
theorem undated_set {e : Entry F} (h : e.expires_at = none) :
    w.Undated key { k with store.storage := k.store.storage.set key e } := by
  intro e' he
  have hcontent := Store.content_set k.store w.ctx.clock.mono key e
  rw [hcontent, Content.put_live _ _ (Entry.live_of_none h _), Finmap.lookup_insert] at he
  exact Option.some.inj he ▸ h

theorem lookup_set_ne {e : Entry F} (hne : key ≠ other) :
    (Store.content { k.store with storage := k.store.storage.set other e } w.ctx.clock.mono).lookup key =
      (k.store.content w.ctx.clock.mono).lookup key := by
  rw [Store.content_set]
  unfold Content.put
  split
  · exact Finmap.lookup_insert_of_ne _ hne
  · exact Finmap.lookup_erase_ne hne

theorem undated_erase : w.Undated key { k with store.storage := k.store.storage.erase key } := by
  intro e he
  have hcontent := Store.content_erase k.store w.ctx.clock.mono key
  rw [hcontent, Finmap.lookup_erase] at he
  cases he

/-- A plain store takes the deadline of its key, also when other keys have been written before. -/
theorem spared_setitem (value : Obj F) :
    Triple w.ctx (w.Spared key) (setitem key value) (fun _ => w.Undated key) fun _ => w.Spared key := by
  refine .bind (harmless_of_same fun ctx k => congrArg Store.storage (sameStore_needHash key ctx k)).2 ?_
  intro _
  exact .modify fun _ _ => undated_set rfl

theorem undates_setitem (value : Obj F) : w.Undates key (setitem key value) :=
  (spared_setitem value).conseq (fun _ hk => hk.spared key) (fun _ _ hk => hk) fun _ _ hk => hk

theorem harmless_setitem (value : Obj F) : w.Harmless key (setitem other value) := by
  have hset : ∀ k, w.Undated key k → w.Undated key { k with store.storage := k.store.storage.set other ⟨value, none⟩ } :=
    fun k hk => by
    by_cases hne : key = other
    · rw [hne]
      exact undated_set rfl
    · intro e he
      rw [lookup_set_ne hne] at he
      exact hk e he
  refine .bind (harmless_of_same fun ctx k => congrArg Store.storage (sameStore_needHash other ctx k)) fun _ =>
    ⟨.modify hset, .modify ?_⟩
  intro k hk
  by_cases hne : key = other
  · rw [hne]
    exact .inl (undated_set rfl)
  · exact hk.imp (hset k) fun h => (lookup_set_ne hne).trans h

theorem undates_data_set (value : Obj F) : w.Undates key (data_set key value none false) := by
  intro k hk
  have hclock : (clock : K F Clock) w.ctx k = (.ok w.ctx.clock, k) := rfl
  unfold data_set
  rw [bind_ok w.ctx k hclock]
  cases hkey : key.hashable with
  | false =>
    rw [bind_entry_unhashable hkey]
    exact hk.spared key
  | true =>
    rw [bind_entry hkey]
    refine undated_set ?_
    cases k.store.storage.get key with
    | none => rfl
    | some e => simp

theorem undates_remove : w.Undates key (data_remove key) := by
  intro k hk
  unfold data_remove
  cases hkey : key.hashable with
  | false =>
    rw [bind_entry_unhashable hkey]
    exact hk.spared key
  | true =>
    rw [bind_entry hkey]
    cases hget : k.store.storage.get key with
    | none =>
      intro e he
      rw [Store.content_lookup, hget] at he
      cases he
    | some e => exact undated_erase

/-! ## The commands that replace -/

theorem reads_yields {Q : α → Prop} (h : Computes m Q) : w.Reads m (Yields w.ctx m) := by
  intro k hk
  obtain ⟨out, hrun, -⟩ := h.run w.ctx
  rw [hrun]
  cases out with
  | ok a => exact ⟨hk, hrun⟩
  | error e => exact hk

theorem undates_GETSET (val : Value) : w.Undates key (GETSET key val) := by
  refine (reads_string key).undates ?_
  intro old _
  refine (reads_of_computes (computes_checkSize val)).undates ?_
  intro _ _
  refine (undates_setitem _).bind ?_
  intro _
  exact (harmless_after_write .set).bind fun _ => .pure

/-- Every key that is stored loses its deadline, and the ones stored before and after do not give it back. -/
theorem spared_storePairs {pairs : List (Value × Value)} (h : ∃ p ∈ pairs, p.1 = key) :
    Triple w.ctx (w.Spared key) (Prog.each (fun p => setitem p.1 (.raw p.2)) pairs) (fun _ => w.Undated key) fun _ =>
      w.Spared key := by
  induction pairs with
  | nil => exact absurd h (by simp)
  | cons p pairs ih =>
    by_cases hp : p.1 = key
    · rw [each_cons, hp]
      refine .bind (spared_setitem _) ?_
      intro _
      exact (Harmless.each fun p _ => harmless_setitem _).1.conseq (fun _ hk => hk) (fun _ _ hk => hk) fun _ _ hk => .inl hk
    · obtain ⟨p', hmem, hkey⟩ := h
      have hrest : p' ∈ pairs := (List.mem_cons.1 hmem).resolve_left fun heq => hp (heq ▸ hkey)
      exact .bind (harmless_setitem _).2 fun _ => ih ⟨p', hrest, hkey⟩

theorem undates_MSET {args : List Value} (h : ∃ p ∈ pairsOf args, p.1 = key) : w.Undates key (MSET args) := by
  unfold MSET
  refine .check fun _ => Undates.bind (Reads.undates (Q := fun _ => True) ?_ fun _ _ => Undates.bind ?_ fun _ => ?_) fun _ =>
    .pure
  · refine .each ?_
    intro p _
    exact (reads_of_computes (computes_checkSize p.2)).weaken fun _ _ => trivial
  · exact (spared_storePairs h).conseq (fun _ hk => hk.spared key) (fun _ _ hk => hk) fun _ _ hk => hk
  · exact .each fun p _ => harmless_after_write .set

theorem undates_setOpStore (op : OrdSet Value → OrdSet Value → OrdSet Value) (command : Cmd) (event : Event) (keys : List Value) :
    w.Undates key (setOpStore op command event key keys) := by
  refine (reads_of_computes (computes_assert_keys keys command)).undates ?_
  intro _ _
  refine (reads_sets keys).undates ?_
  intro sets _
  refine .ite (fun _ => ?_) fun _ => undates_remove.bind fun _ => .pure
  refine (undates_setitem _).bind ?_
  intro _
  exact (harmless_after_write event).bind fun _ => .pure

theorem undates_zopStore (op : ZOp) (command : Cmd) (event : Event) (allow_weights : Bool) (numkeys : Int) (rest : List Value) :
    w.Undates key (zopStore op command event allow_weights key numkeys rest) := by
  refine (reads_of_computes (computes_parse_zset_op command allow_weights false numkeys rest)).undates ?_
  intro parsed _
  refine (reads_aggregate op parsed.1 parsed.2.1).undates ?_
  intro result _
  refine .ite (fun _ => undates_remove.bind fun _ => .pure) ?_
  intro _
  refine (undates_setitem _).bind ?_
  intro _
  exact (harmless_after_write event).bind fun _ => .pure

theorem undates_BITOP (op : Value) (keys : List Value) : w.Undates key (BITOP op key keys) := by
  refine (reads_of_computes (computes_assert_keys keys .BITOP)).undates ?_
  intro _ _
  refine (reads_of_computes (computes_upperArg op)).undates ?_
  intro _ _
  refine (reads_mapM (Q := fun _ => True) fun key _ => (reads_bitmap key).bind fun _ _ => .pure trivial).undates ?_
  intro maps _
  refine (reads_of_computes (computes_bitopResult _ maps)).undates ?_
  intro result _
  refine .ite (fun _ => ?_) fun _ => undates_remove.bind fun _ => .pure
  refine (undates_setitem _).bind ?_
  intro _
  exact (harmless_after_write .set).bind fun _ => .pure

/-- SET without KEEPTTL and without a unit, when NX or XX does not hold it back. -/
theorem undates_SET {val : Value} {options : List Value} {gs : List OptionGroup} (hsplit : Splits options gs)
    (hkeep : .flag .KEEPTTL ∉ gs)
    (hunits : ∀ unit raw, .ttl unit raw ∉ gs) (hnx : .flag .NX ∈ gs → w.start.lookup key = none)
    (hxx : .flag .XX ∈ gs → w.start.lookup key ≠ none) : w.Undates key (SET key val options) := by
  refine (reads_yields (computes_parse_ttl .none options)).undates ?_
  intro o ho
  obtain ⟨gs', hsplit', -, rfl⟩ := yields_parse_iff.1 ho
  obtain rfl := hsplit.unique hsplit'
  have httl : (summary gs).ttl = none := Option.isNone_iff_eq_none.1 (getLast_units_none_iff.2 hunits)
  have hkeepttl : (summary gs).keepttl = false := by
    rw [← Bool.not_eq_true]
    exact fun h => hkeep ((hasFlag_iff ..).1 h)
  refine Reads.undates (Q := (· = none)) ?_ fun deadline hdeadline => ?_
  · rw [httl]
    exact .pure rfl
  refine Reads.undates (Q := fun _ => True)
    (.ite (fun _ => (reads_string key).weaken fun _ _ => trivial) fun _ => .pure trivial) ?_
  intro old _
  refine (reads_is_live key).undates ?_
  intro found hfound
  refine .ite (fun hblocked => absurd hblocked ?_) fun _ => ?_
  · rintro (⟨h, hlive⟩ | ⟨h, hdead⟩)
    · rw [hfound, hnx ((hasFlag_iff ..).1 h)] at hlive
      cases hlive
    · rw [hfound, Bool.not_eq_true', Option.isSome_eq_false_iff, Option.isNone_iff_eq_none] at hdead
      exact hxx ((hasFlag_iff ..).1 h) hdead
  refine (reads_of_computes (computes_checkSize val)).undates ?_
  intro _ _
  rw [hdeadline, hkeepttl]
  refine (undates_data_set _).bind ?_
  intro _
  refine (harmless_after_write .set).bind ?_
  intro _
  refine .ite (fun _ => ?_) fun _ => .pure
  exact (harmless_notify .expire).bind fun _ => .pure

/-- A command that replaces a key takes its deadline. -/
theorem undates_command {c : Cmd} {args : List Value} (hr : c.Replaces w.start args key) {method : List Value → K F Reply}
    (hm : handler c = .keyspace method) : w.Undates key (method args) := by
  cases hr with
  | SET hsplit hkeep hunits hnx hxx =>
    cases hm
    exact undates_SET hsplit hkeep hunits hnx hxx
  | GETSET =>
    cases hm
    exact undates_GETSET _
  | MSET hp =>
    cases hm
    exact undates_MSET ⟨_, hp, rfl⟩
  | BITOP =>
    cases hm
    exact undates_BITOP _ _
  | @store _ _ rest hc =>
    have hzop : ∀ {op : ZOp} {command : Cmd} {event : Event} {allow_weights : Bool}, Handler.rest2 (fun dest numkeys rest => do
        zopStore op command event allow_weights dest (← intArg numkeys) rest) = .keyspace method →
          w.Undates key (method (key :: rest)) := fun h => by
      cases h
      cases rest with
      | nil => exact .raise
      | cons numkeys rest => exact (reads_of_computes (computes_intArg numkeys)).undates fun _ _ => undates_zopStore _ _ _ _ _ _
    simp only [storeCommands, List.mem_cons, List.not_mem_nil, or_false] at hc
    rcases hc with rfl | rfl | rfl | rfl | rfl | rfl
    · cases hm
      exact undates_setOpStore _ _ _ _
    · cases hm
      exact undates_setOpStore _ _ _ _
    · cases hm
      exact undates_setOpStore _ _ _ _
    · exact hzop hm
    · exact hzop hm
    · exact hzop hm

end Watch

end Kagni
