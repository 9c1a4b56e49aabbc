import Kagni.Expiry
import Kagni.Lemmas.Events

/-!
# The content of a store under the operations of `Data`

Publishing an event leaves the store alone, so a purge removes one expired entry and a sweep all of them, and neither changes the
content. An entry that is written is in the content as far as it is live.
-/

namespace Kagni

open Lib Lib.Prog

variable {F : Type}

/-! ## Publishing -/

/-- The store is left alone. -/
def SameStore (s t : KState F) : Prop := t.store = s.store

instance : IsPreorder (KState F) SameStore where
  refl _ := rfl
  trans _ _ _ h h' := h'.trans h

theorem sameStore_needHash (v : Value) : Respects SameStore (needHash v : K F Unit) := .ite (fun _ => .pure) fun _ => .raise

theorem sameStore_orFail {α : Type} (a : Option α) : Respects SameStore (orFail a : K F α) := by
  cases a with
  | none => exact .raise
  | some a => exact .pure

theorem sameStore_compile_glob (v : Value) : Respects SameStore (compile_glob v : K F _) := by
  cases v with
  | bytes p => exact .bind .ask fun _ => sameStore_orFail _
  | _ => exact .raise

theorem sameStore_matches (matcher : Bytes → Bool) (v : Value) : Respects SameStore (matches_ matcher v : K F _) := by
  cases v with
  | bytes p => exact .pure
  | _ => exact .raise

theorem sameStore_deliver (session : SessionId) (frame : Bytes) : Respects SameStore (deliver session frame : K F Unit) :=
  .modify fun _ => rfl

theorem sameStore_publish (channel payload : Value) : Respects SameStore (publish channel payload : K F Nat) := by
  refine .bind (sameStore_needHash channel) ?_
  intro _
  refine .bind .ask ?_
  intro ctx
  refine .bind (.each fun session _ => ?_) fun _ => .fold fun n p _ => ?_
  · exact .bind (sameStore_orFail _) fun frame => sameStore_deliver session frame
  · refine .bind (sameStore_compile_glob p.1) ?_
    intro matcher
    refine .bind (sameStore_matches matcher channel) ?_
    intro hit
    refine .ite (fun _ => ?_) fun _ => .pure
    refine .bind (sameStore_orFail _) ?_
    intro frame
    exact .bind (.each fun session _ => sameStore_deliver session frame) fun _ => .pure

theorem sameStore_notify (key : Value) (event : Event) : Respects SameStore (_notify key event : K F Unit) := by
  refine .bind .ask ?_
  intro ctx
  have hevent : Respects SameStore (do
      if 69 ∈ ctx.flags then let _ ← publish (.bytes (bs "__keyevent@0__:" ++ event.name)) key : K F Unit) :=
    .ite (fun _ => .bind (sameStore_publish _ _) fun _ => .pure) fun _ => .pure
  refine .ite (fun _ => .pure) ?_
  intro _
  refine .ite (fun _ => ?_) fun _ => hevent
  cases key with
  | bytes k => exact .bind (sameStore_publish _ _) fun _ => hevent
  | _ => exact .bind .raise fun _ => hevent

section Runs

variable {ctx : Ctx} {event : Event}

/-- An event returns or raises, and the store stays as it is either way. -/
theorem notify_run (h : ctx.EventReturns event) (key : Bytes) (k : KState F) :
    ∃ k', _notify (.bytes key) event ctx k = (.ok (), k') ∧ k'.store = k.store := by
  obtain ⟨⟨⟩, k', hrun⟩ := completes_notify h key k
  have hsame := sameStore_notify (.bytes key) event ctx k
  rw [hrun] at hsame
  exact ⟨k', hrun, hsame⟩

theorem notify_throws (h : ¬ctx.EventReturns event) (key : Bytes) (k : KState F) :
    ∃ k', _notify (.bytes key) event ctx k = (.error .other, k') ∧ k'.store = k.store := by
  obtain ⟨k', hrun⟩ := throws_notify h key k
  have hsame := sameStore_notify (.bytes key) event ctx k
  rw [hrun] at hsame
  exact ⟨k', hrun, hsame⟩

/-- After a write the key is touched, which is not seen in the storage. -/
theorem after_write_run (h : ctx.EventReturns event) (key : Bytes) (k : KState F) :
    ∃ k', _after_write (.bytes key) event ctx k = (.ok (), k') ∧ k'.store.storage = k.store.storage := by
  obtain ⟨k₁, htouch, hstorage⟩ : ∃ k₁, touch (.bytes key) ctx k = (.ok (), k₁) ∧ k₁.store.storage = k.store.storage :=
    ⟨_, rfl, rfl⟩
  obtain ⟨k', hrun, hsame⟩ := notify_run h key k₁
  exact ⟨k', (bind_ok ctx k htouch).trans hrun, (congrArg Store.storage hsame).trans hstorage⟩

theorem after_write_throws (h : ¬ctx.EventReturns event) (key : Bytes) (k : KState F) :
    ∃ k', _after_write (.bytes key) event ctx k = (.error .other, k') ∧ k'.store.storage = k.store.storage := by
  obtain ⟨k₁, htouch, hstorage⟩ : ∃ k₁, touch (.bytes key) ctx k = (.ok (), k₁) ∧ k₁.store.storage = k.store.storage :=
    ⟨_, rfl, rfl⟩
  obtain ⟨k', hrun, hsame⟩ := notify_throws h key k₁
  exact ⟨k', (bind_ok ctx k htouch).trans hrun, (congrArg Store.storage hsame).trans hstorage⟩

end Runs

/-! ## The content -/

namespace Store

theorem content_lookup (s : Store F) (now : Int) (key : Value) :
    (s.content now).lookup key = (s.storage.get key).filter fun e => e.live now := by
  rw [content, Dict.lookup_toFinmap, Dict.get_filter]
  cases s.storage.get key <;> rfl

/-- A store whose expired entries are gone has the same content. -/
theorem content_filter (s : Store F) (now : Int) :
    Store.content { s with storage := s.storage.filter fun p => p.2.live now } now = s.content now := by
  refine Finmap.ext_lookup ?_
  intro key
  simp only [content_lookup, Dict.get_filter]
  cases s.storage.get key with
  | none => rfl
  | some e => cases h : e.live now <;> simp [Option.filter, h]

theorem content_set (s : Store F) (now : Int) (key : Value) (e : Entry F) :
    Store.content { s with storage := s.storage.set key e } now = (s.content now).put key e now := by
  refine Finmap.ext_lookup ?_
  intro x
  unfold Content.put
  rw [content_lookup, Dict.get_set]
  by_cases hx : x = key
  · subst hx
    rw [if_pos rfl]
    cases he : e.live now
    · rw [if_neg (by decide), Finmap.lookup_erase]
      simp [Option.filter, he]
    · rw [if_pos rfl, Finmap.lookup_insert]
      simp [Option.filter, he]
  · rw [if_neg hx, ← content_lookup]
    split
    · rw [Finmap.lookup_insert_of_ne _ hx]
    · rw [Finmap.lookup_erase_ne hx]

theorem content_erase (s : Store F) (now : Int) (key : Value) :
    Store.content { s with storage := s.storage.erase key } now = (s.content now).erase key := by
  refine Finmap.ext_lookup ?_
  intro x
  rw [content_lookup, Dict.get_erase]
  by_cases hx : x = key
  · subst hx
    rw [if_pos rfl, Finmap.lookup_erase]
    rfl
  · rw [if_neg hx, Finmap.lookup_erase_ne hx, content_lookup]

/-- A key without a live entry is not in the content. -/
theorem content_erase_dead {s : Store F} {now : Int} {key : Value} (h : ∀ e, s.storage.get key = some e → e.live now = false) :
    Store.content { s with storage := s.storage.erase key } now = s.content now := by
  refine Finmap.ext_lookup ?_
  intro x
  rw [content_lookup, content_lookup, Dict.get_erase]
  by_cases hx : x = key
  · subst hx
    rw [if_pos rfl]
    cases hk : s.storage.get x with
    | none => rfl
    | some e => simp [Option.filter, h e hk]
  · rw [if_neg hx]

end Store

/-! ## Purging -/

/-- The callback of a purge returns. -/
def Ctx.PurgeReturns (F : Type) (ctx : Ctx) : Prop := ∀ key (k : KState F), (_notify key .expired ctx k).1 = .ok ()

/-- With the notifications off it does. -/
theorem Ctx.purgeReturns_of_off {ctx : Ctx} (h : ctx.flags = []) : ctx.PurgeReturns F := by
  intro key k
  unfold _notify
  rw [bind_ok ctx k (ask_run ctx k)]
  dsimp only
  rw [if_pos (.inl h)]
  rfl

theorem purge_run {ctx : Ctx} (hctx : ctx.PurgeReturns F) (key : Value) (k : KState F) :
    ∃ k', _purge_key key ctx k = (.ok (), k') ∧ k'.store = { k.store with storage := k.store.storage.erase key } := by
  have hrun : _purge_key key ctx k =
      _notify key .expired ctx { k with store := { k.store with storage := k.store.storage.erase key } } := rfl
  rw [hrun]
  exact ⟨_, Prod.ext (hctx key _) rfl, sameStore_notify key .expired ctx _⟩

/-- Purging some keys one after the other. -/
theorem each_purge_run {ctx : Ctx} (hctx : ctx.PurgeReturns F) (dead : List (Value × Entry F)) (k : KState F) :
    ∃ k', Prog.each (fun p => _purge_key p.1) dead ctx k = (.ok (), k') ∧
      k'.store = { k.store with storage := k.store.storage.filter fun p => decide (p.1 ∉ dead.map Prod.fst) } := by
  induction dead generalizing k with
  | nil =>
    refine ⟨k, rfl, ?_⟩
    have hall : k.store.storage.filter (fun p => decide (p.1 ∉ ([] : List (Value × Entry F)).map Prod.fst)) = k.store.storage :=
      Dict.ext_entries (List.filter_eq_self.2 fun p _ => by simp)
    rw [hall]
  | cons p dead ih =>
    obtain ⟨k₁, hrun, hstore⟩ := purge_run hctx p.1 k
    obtain ⟨k₂, hrest, hstore₂⟩ := ih k₁
    refine ⟨k₂, ?_, ?_⟩
    · rw [each_cons, bind_ok ctx k hrun, hrest]
    · rw [hstore₂, hstore]
      refine congrArg (fun d => { k.store with storage := d }) (Dict.ext_entries ?_)
      simp only [Dict.filter, Dict.erase, List.filter_filter, List.map_cons, List.mem_cons, not_or]
      refine List.filter_congr ?_
      intro q _
      by_cases h : q.1 = p.1 <;> simp [h]

/-- A sweep leaves exactly the live entries. -/
theorem sweep_run {ctx : Ctx} (hctx : ctx.PurgeReturns F) (k : KState F) :
    ∃ k', _sweep ctx k = (.ok (), k') ∧
      k'.store = { k.store with storage := k.store.storage.filter fun p => p.2.live ctx.clock.mono } := by
  obtain ⟨k', hrun, hstore⟩ := each_purge_run hctx (k.store.storage.entries.filter fun p => !p.2.live ctx.clock.mono) k
  refine ⟨k', hrun, hstore.trans ?_⟩
  refine congrArg (fun d => { k.store with storage := d }) (Dict.ext_entries ?_)
  refine List.filter_congr ?_
  intro p hp
  cases hlive : p.2.live ctx.clock.mono with
  | false => simpa using ⟨p.2, hp, hlive⟩
  | true =>
    refine decide_eq_true ?_
    intro hmem
    obtain ⟨q, hq, hkey⟩ := List.mem_map.1 hmem
    obtain ⟨hq, hdead⟩ := List.mem_filter.1 hq
    have hget := (k.store.storage.get_eq_some_iff q.1 q.2).2 hq
    rw [hkey, (k.store.storage.get_eq_some_iff p.1 p.2).2 hp] at hget
    rw [← Option.some.inj hget, hlive] at hdead
    cases hdead

/-! ## Reading an entry -/

/-- What the store holds under a key and what the content does: nothing, an expired entry, or the same live entry. -/
theorem Store.lookup_cases (s : Store F) (now : Int) (key : Value) :
    (s.storage.get key = none ∧ (s.content now).lookup key = none) ∨
      (∃ e, s.storage.get key = some e ∧ e.live now = false ∧ (s.content now).lookup key = none) ∨
      ∃ e, s.storage.get key = some e ∧ e.live now = true ∧ (s.content now).lookup key = some e := by
  rw [Store.content_lookup]
  cases hk : s.storage.get key with
  | none => exact .inl ⟨rfl, rfl⟩
  | some e =>
    cases he : e.live now with
    | false => exact .inr (.inl ⟨e, rfl, he, by simp [Option.filter, he]⟩)
    | true => exact .inr (.inr ⟨e, rfl, he, by simp [Option.filter, he]⟩)

theorem bind_entry {α : Type} {key : Value} (h : key.hashable = true) (f : Option (Entry F) → K F α) (ctx : Ctx) (k : KState F) :
    (entry key >>= f) ctx k = f (k.store.storage.get key) ctx k := by
  have hrun : entry key ctx k = (.ok (k.store.storage.get key), k) := by
    unfold entry needHash
    rw [if_pos h]
    rfl
  exact bind_ok ctx k hrun

theorem bind_entry_unhashable {α : Type} {key : Value} (h : key.hashable = false) (f : Option (Entry F) → K F α) (ctx : Ctx)
    (k : KState F) : (entry key >>= f) ctx k = (.error .other, k) := by
  have hrun : entry key ctx k = (.error .other, k) := by
    unfold entry needHash
    rw [h]
    rfl
  exact bind_error ctx k hrun

/-- An entry is expired exactly when its deadline is at or before now. -/
theorem Entry.live_of_some {e : Entry F} {t : Int} (h : e.expires_at = some t) (now : Int) : e.live now = decide (now < t) := by
  unfold Entry.live
  rw [h]

theorem Entry.live_of_none {e : Entry F} (h : e.expires_at = none) (now : Int) : e.live now = true := by
  unfold Entry.live
  rw [h]

end Kagni
