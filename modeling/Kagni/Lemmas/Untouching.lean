import Kagni.Lemmas.Atomic

/-!
# Programs that touch no key

A command that changes a key touches it, and WATCH goes by the counters that this moves. The methods of `Data` leave the
counters alone, and so does a program that is built from them without `touch`.
-/

namespace Kagni

open Lib Lib.Prog

variable {F : Type} {α β : Type} {key : Value}

/-- The counters are as they were. -/
def SameGenerations (k k' : KState F) : Prop := k'.store.generations = k.store.generations

instance : IsPreorder (KState F) SameGenerations where
  refl _ := rfl
  trans _ _ _ h h' := h'.trans h

/-- The program touches no key. -/
abbrev Untouching (m : K F α) : Prop := Respects SameGenerations m

/-- What leaves the store as it is moves no generation. -/
theorem untouching_of_same {m : K F α} (h : Respects SameStore m) : Untouching m :=
  fun ctx k => congrArg Store.generations (h ctx k)

/-- What only computes moves no generation. -/
theorem untouching_of_computes {m : K F α} {Q : α → Prop} (h : Computes m Q) : Untouching m := by
  intro ctx k
  obtain ⟨out, hrun, -⟩ := h.run ctx
  rw [hrun]
  rfl

/-! ## The methods of `Data` -/

/-- The generations are apart from the storage. -/
theorem untouching_setStorage (f : Dict Value (Entry F) → Dict Value (Entry F)) : Untouching (setStorage f) :=
  .modify fun _ => rfl

theorem untouching_clock : Untouching (clock : K F Clock) := .bind .ask fun _ => .pure

/-- An entry is looked up. -/
theorem untouching_entry (key : Value) : Untouching (entry key : K F _) := by
  refine .bind (untouching_of_same (sameStore_needHash key)) ?_
  intro _
  exact .bind .get fun _ => .pure

/-- An event leaves the store as it is. -/
theorem untouching_notify (key : Value) (event : Event) : Untouching (_notify key event : K F Unit) :=
  untouching_of_same (sameStore_notify key event)

/-- A purge erases the key and leaves its generation. -/
theorem untouching_purge (key : Value) : Untouching (_purge_key key : K F Unit) :=
  .bind (untouching_setStorage _) fun _ => untouching_notify key .expired

/-- A method that starts with the entry of its key. -/
theorem untouching_of_entry {tail : Option (Entry F) → K F α} (hnone : Untouching (tail none))
    (hsome : ∀ e, Untouching (tail (some e))) :
    Untouching (entry key >>= tail) := by
  refine .bind (untouching_entry key) ?_
  intro o
  cases o with
  | none => exact hnone
  | some e => exact hsome e

/-- `get` may purge its key. -/
theorem untouching_get (key : Value) : Untouching (data_get key : K F _) := by
  refine untouching_of_entry .pure ?_
  intro e
  refine .bind untouching_clock ?_
  intro _
  refine .ite (fun _ => ?_) fun _ => .bind (untouching_purge key) fun _ => .pure
  split
  · exact .pure
  · exact .pure

/-- Whether a key is live is looked up. -/
theorem untouching_is_live (key : Value) : Untouching (is_live key : K F Bool) := by
  refine untouching_of_entry .pure ?_
  intro _
  exact .bind untouching_clock fun _ => .pure

/-- A sweep purges keys. -/
theorem untouching_sweep : Untouching (_sweep : K F Unit) := by
  refine .bind untouching_clock ?_
  intro _
  refine .bind .get ?_
  intro _
  exact .each fun p _ => untouching_purge p.1

/-- The keys are listed after a sweep. -/
theorem untouching_keys : Untouching (data_keys : K F _) := by
  refine .bind untouching_sweep ?_
  intro _
  exact .bind .get fun _ => .pure

/-- The numbers of INFO are read after a sweep. -/
theorem untouching_keyspace_stats : Untouching (keyspace_stats : K F _) := by
  refine .bind untouching_sweep ?_
  intro _
  refine .bind untouching_clock ?_
  intro _
  exact .bind .get fun _ => .pure

/-- A value in place of another is told of apart from the write. -/
theorem untouching_store_value (key : Value) (value : Obj F) : Untouching (store_value key value) := untouching_setStorage _

/-- A key is removed without a word about it. -/
theorem untouching_remove (key : Value) : Untouching (data_remove key : K F Bool) := by
  refine untouching_of_entry .pure ?_
  intro _
  refine .bind (untouching_setStorage _) ?_
  intro _
  exact .bind untouching_clock fun _ => .pure

/-- The deadline of a key is read. -/
theorem untouching_wall_expiry (key : Value) : Untouching (wall_expiry key : K F Int) := by
  refine untouching_of_entry .pure ?_
  intro e
  refine .bind untouching_clock ?_
  intro _
  split
  · exact .pure
  · exact .ite (fun _ => .bind (untouching_purge key) fun _ => .pure) fun _ => .pure

/-- The time to live of a key is read. -/
theorem untouching_ttl_ms (key : Value) : Untouching (ttl_ms key : K F Int) := by
  refine untouching_of_entry .pure ?_
  intro e
  dsimp only
  split
  · exact .pure
  · refine .bind untouching_clock ?_
    intro _
    exact .ite (fun _ => .bind (untouching_purge key) fun _ => .pure) fun _ => .pure

/-! ## Readers -/

/-- A check that raises. -/
theorem untouching_check {c : Prop} [Decidable c] {e : Errors} {g : PUnit → K F α} (h : Untouching (g PUnit.unit)) :
    Untouching (if c then throw_ e >>= g else g PUnit.unit) := .ite (fun _ => .bind .raise fun _ => h) fun _ => h

/-- A map moves no generation if none of its calls does. -/
theorem untouching_mapM {f : α → K F β} {xs : List α} (h : ∀ x ∈ xs, Untouching (f x)) : Untouching (mapM_ f xs) := by
  induction xs with
  | nil => exact .pure
  | cons x xs ih => exact .bind (h x (by simp)) fun _ => .bind (ih fun y hy => h y (by simp [hy])) fun _ => .pure

/-- Likewise a filter. -/
theorem untouching_filterM {p : α → K F Bool} {xs : List α} (h : ∀ x ∈ xs, Untouching (p x)) : Untouching (filterM_ p xs) := by
  induction xs with
  | nil => exact .pure
  | cons x xs ih => exact .bind (h x (by simp)) fun _ => .bind (ih fun y hy => h y (by simp [hy])) fun _ => .pure

/-- The check of a kind comes after `get`. -/
theorem untouching_expect_kind (key : Value) (kind : Kind) : Untouching (expect_kind key kind : K F _) := by
  refine .bind (untouching_get key) ?_
  intro o
  cases o with
  | none => exact .pure
  | some obj => exact .ite (fun _ => .pure) fun _ => .raise

/-- A reader of one kind of value. -/
theorem untouching_kind {kind : Kind} {f : Option (Obj F) → K F α} (key : Value) (h : ∀ o, Untouching (f o)) :
    Untouching (expect_kind key kind >>= f) := .bind (untouching_expect_kind key kind) h

/-- A string is read. -/
theorem untouching_string (key : Value) : Untouching (_string key : K F _) := untouching_kind key fun o => by
  split
  · exact .pure
  · exact .pure

theorem untouching_list (key : Value) : Untouching (_list key : K F _) := untouching_kind key fun o => by
  split
  · exact .pure
  · exact .pure
  · exact .pure

theorem untouching_set (key : Value) : Untouching (_set key : K F _) := untouching_kind key fun o => by
  split
  · exact .pure
  · exact .pure

theorem untouching_hash (key : Value) : Untouching (_hash key : K F _) := untouching_kind key fun o => by
  split
  · exact .pure
  · exact .pure

theorem untouching_zset (key : Value) : Untouching (_zset key : K F _) := untouching_kind key fun o => by
  split
  · exact .pure
  · exact .pure

theorem untouching_bitmap (key : Value) : Untouching (_bitmap key : K F _) := untouching_kind key fun o => by
  split
  · exact .pure
  · exact .pure

/-! ## Random choices -/

/-- A draw counts the draws and nothing else. -/
theorem untouching_draw (n : Nat) : Untouching (draw n : K F Nat) := by
  refine .bind .get ?_
  intro _
  refine .bind (.modify fun _ => rfl) ?_
  intro _
  exact .bind .ask fun _ => .pure

/-- What is missing raises. -/
theorem untouching_orFail (a : Option α) : Untouching (orFail a : K F α) := untouching_of_same (sameStore_orFail a)

/-- One item is drawn. -/
theorem untouching_choice (items : List α) : Untouching (choice items : K F α) :=
  .bind (untouching_draw _) fun _ => untouching_orFail _

/-- So many draws. -/
theorem untouching_times {f : K F α} (h : Untouching f) (n : Nat) : Untouching (times f n) := by
  induction n with
  | zero => exact .pure
  | succ n ih =>
    refine .bind h ?_
    intro _
    exact .bind ih fun _ => .pure

/-- Items are drawn without repetition. -/
theorem untouching_sample (n : Nat) (items : List α) : Untouching (sample n items : K F (List α)) := by
  induction n generalizing items with
  | zero => exact .pure
  | succ n ih =>
    refine .bind (untouching_draw _) ?_
    intro _
    refine .bind (untouching_orFail _) ?_
    intro _
    exact .bind (ih _) fun _ => .pure

/-- Items are drawn with or without repetition. -/
theorem untouching_pick (items : List α) (count : Int) : Untouching (pick items count : K F (List α)) := by
  refine .ite (fun _ => untouching_times (untouching_choice items) _) ?_
  intro _
  refine .ite (fun _ => .pure) ?_
  intro _
  exact .ite (fun _ => .pure) fun _ => untouching_sample _ items

/-! ## Programs that only read -/

section ReadsOnly

variable [PyFloat F] {m : K F α} {f : α → K F β} {Q : α → Prop}

/-- The program touches no key, and leaves the content as it is. -/
structure ReadsOnly (m : K F α) : Prop where
  untouching : Untouching m
  reads : ∀ w : Watch F, w.Reads m fun _ => True

namespace ReadsOnly

theorem raise (e : Exc Errors) : ReadsOnly (Prog.raise e : K F α) := ⟨.raise, fun _ => .raise⟩

theorem pure (a : α) : ReadsOnly (Pure.pure a : K F α) := ⟨.pure, fun _ => .pure trivial⟩

/-- A computation comes first. -/
theorem computed (hm : Computes m Q) (hf : ∀ a, Q a → ReadsOnly (f a)) : ReadsOnly (m >>= f) where
  untouching ctx k := by
    obtain ⟨out, hrun, hQ⟩ := hm.run ctx
    rw [bind_run, hrun]
    cases out with
    | ok a => exact (hf a (hQ a rfl)).untouching ctx k
    | error e => rfl
  reads w := (Watch.reads_of_computes hm).bind fun a ha => (hf a ha).reads w

/-- An integer argument is read first. -/
theorem int {v : Value} {f : Int → K F β} (hf : ∀ n, ReadsOnly (f n)) : ReadsOnly (intArg v >>= f) :=
  computed (computes_intArg v) fun n _ => hf n

/-- Likewise an optional one. -/
theorem int? (v : Option Value) {f : Option Int → K F β} (hf : ∀ n, ReadsOnly (f n)) : ReadsOnly (intArg? v >>= f) :=
  computed (computes_intArg? v) fun n _ => hf n

/-- What only reads leaves the live content as it is. -/
theorem content (h : ReadsOnly m) (ctx : Ctx) (k : KState F) :
    (m ctx k).2.store.content ctx.clock.mono = k.store.content ctx.clock.mono := content_of_reads (fun w => h.reads w) ctx k

/-- It leaves every generation as it is. -/
theorem generation (h : ReadsOnly m) (ctx : Ctx) (k : KState F) (key : Value) :
    (m ctx k).2.store.generation key = k.store.generation key := by
  unfold Store.generation
  rw [h.untouching ctx k]

end ReadsOnly

end ReadsOnly

end Kagni
