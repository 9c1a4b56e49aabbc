import Kagni.Lemmas.Content

/-!
# Lazy expiry is invisible

Every operation of `Data` at an instant returns what the map with deadlines returns, and leaves its content, whatever expired
entries the store still holds. So the map that never stores an expired key is a faithful picture of the lazy one.
-/

namespace Kagni

open Lib Lib.Prog

variable {F : Type} {ctx : Ctx}

theorem Gives.bind_pure {α β : Type} {prog : K F α} {k : KState F} {a : α} {m : Content F} (h : Gives prog ctx k (.ok a) m)
    (f : α → β) : Gives (do return f (← prog)) ctx k (.ok (f a)) m := by
  obtain ⟨k', hrun, hm⟩ := h
  exact ⟨k', bind_ok ctx k hrun, hm⟩

/-- An operation that starts with the entry of a key that has no hash. -/
theorem gives_unhashable {α : Type} {key : Value} (h : key.hashable = false) (f : Option (Entry F) → K F α) (k : KState F) :
    Gives (entry key >>= f) ctx k (.error .other) (k.store.content ctx.clock.mono) :=
  ⟨k, bind_entry_unhashable h f ctx k, rfl⟩

/-- An expired entry that is found is purged, which leaves the content as it is. -/
theorem gives_purge {α : Type} (hctx : ctx.PurgeReturns F) {key : Value} {e : Entry F} {k : KState F}
    (hget : k.store.storage.get key = some e) (he : e.live ctx.clock.mono = false) (a : α) :
    Gives (_purge_key key >>= fun _ => pure a) ctx k (.ok a) (k.store.content ctx.clock.mono) := by
  obtain ⟨k', hrun, hstore⟩ := purge_run hctx key k
  refine ⟨k', bind_ok ctx k hrun, ?_⟩
  rw [hstore]
  exact Store.content_erase_dead fun e' he' => by
    rw [hget] at he'
    cases he'
    exact he

/-! ## Reads -/

theorem gives_get (hctx : ctx.PurgeReturns F) {key : Value} (h : key.hashable = true) (k : KState F) :
    Gives (data_get key) ctx k (.ok ((k.store.content ctx.clock.mono).value key)) (k.store.content ctx.clock.mono) := by
  unfold Gives data_get Content.value
  rw [bind_entry h]
  obtain ⟨hget, hm⟩ | ⟨e, hget, he, hm⟩ | ⟨e, hget, he, hm⟩ := k.store.lookup_cases ctx.clock.mono key
  · rw [hget, hm]
    exact ⟨k, rfl, rfl⟩
  · rw [hget, hm]
    change ∃ k', (if e.live ctx.clock.mono then (_ : K F (Option (Obj F))) else _) ctx k = _ ∧ _
    rw [if_neg (by rw [he]; decide)]
    exact gives_purge hctx hget he none
  · rw [hget, hm]
    refine ⟨k, ?_, rfl⟩
    change (if e.live ctx.clock.mono then (_ : K F (Option (Obj F))) else _) ctx k = _
    rw [if_pos he, Option.bind_some]
    cases e.value with
    | raw v => cases v <;> rfl
    | _ => rfl

theorem gives_getitem {key : Value} (h : key.hashable = true) (k : KState F) :
    Gives (getitem key) ctx k (.ok ((k.store.content ctx.clock.mono).value key)) (k.store.content ctx.clock.mono) := by
  unfold Gives getitem Content.value
  rw [bind_entry h]
  obtain ⟨hget, hm⟩ | ⟨e, hget, he, hm⟩ | ⟨e, hget, he, hm⟩ := k.store.lookup_cases ctx.clock.mono key
  · rw [hget, hm]
    exact ⟨k, rfl, rfl⟩
  · rw [hget, hm]
    refine ⟨k, ?_, rfl⟩
    change (if e.live ctx.clock.mono then (_ : K F (Option (Obj F))) else _) ctx k = _
    rw [if_neg (by rw [he]; decide)]
    rfl
  · rw [hget, hm]
    refine ⟨k, ?_, rfl⟩
    change (if e.live ctx.clock.mono then (_ : K F (Option (Obj F))) else _) ctx k = _
    rw [if_pos he, Option.bind_some]
    cases e.value with
    | raw v => cases v <;> rfl
    | _ => rfl

theorem gives_is_live {key : Value} (h : key.hashable = true) (k : KState F) :
    Gives (is_live key) ctx k (.ok ((k.store.content ctx.clock.mono).lookup key).isSome) (k.store.content ctx.clock.mono) := by
  unfold Gives is_live
  rw [bind_entry h]
  obtain ⟨hget, hm⟩ | ⟨e, hget, he, hm⟩ | ⟨e, hget, he, hm⟩ := k.store.lookup_cases ctx.clock.mono key
  · rw [hget, hm]
    exact ⟨k, rfl, rfl⟩
  · rw [hget, hm]
    exact ⟨k, congrArg (fun b => (Except.ok b, k)) he, rfl⟩
  · rw [hget, hm]
    exact ⟨k, congrArg (fun b => (Except.ok b, k)) he, rfl⟩

/-- The three questions about the remaining time of a key differ in what they make of the deadline. -/
theorem gives_remaining (hctx : ctx.PurgeReturns F) {key : Value} (h : key.hashable = true) (k : KState F) (f : Int → Int)
    {tail : Option (Entry F) → K F Int} (hnone : tail none ctx k = (.ok (-2), k))
    (hforever : ∀ e, e.expires_at = none → tail (some e) ctx k = (.ok (-1), k))
    (htimed : ∀ e t, e.expires_at = some t → tail (some e) ctx k =
      (if t ≤ ctx.clock.mono then _purge_key key >>= fun _ => pure (-2) else pure (f t)) ctx k) :
    Gives (entry key >>= tail) ctx k (.ok ((k.store.content ctx.clock.mono).remaining key f))
      (k.store.content ctx.clock.mono) := by
  unfold Gives Content.remaining
  rw [bind_entry h]
  obtain ⟨hget, hm⟩ | ⟨e, hget, he, hm⟩ | ⟨e, hget, he, hm⟩ := k.store.lookup_cases ctx.clock.mono key
  · rw [hget, hm, hnone]
    exact ⟨k, rfl, rfl⟩
  · rw [hget, hm]
    cases ht : e.expires_at with
    | none =>
      rw [Entry.live_of_none ht] at he
      cases he
    | some t =>
      have hlive := he
      rw [Entry.live_of_some ht] at hlive
      rw [htimed e t ht, if_pos (not_lt.1 (of_decide_eq_false hlive))]
      exact gives_purge hctx hget he (-2)
  · rw [hget, hm]
    dsimp only
    cases ht : e.expires_at with
    | none =>
      rw [hforever e ht]
      exact ⟨k, rfl, rfl⟩
    | some t =>
      rw [Entry.live_of_some ht] at he
      rw [htimed e t ht, if_neg (not_le.2 (of_decide_eq_true he))]
      exact ⟨k, rfl, rfl⟩

theorem gives_ttl_ms (hctx : ctx.PurgeReturns F) {key : Value} (h : key.hashable = true) (k : KState F) :
    Gives (ttl_ms key) ctx k
      (.ok ((k.store.content ctx.clock.mono).remaining key fun t => -((ctx.clock.mono - t) / 1000000)))
      (k.store.content ctx.clock.mono) := by
  refine gives_remaining hctx h k _ rfl (fun e he => ?_) fun e t he => ?_
  · dsimp only
    rw [he]
    rfl
  · dsimp only
    rw [he]
    rfl

theorem gives_wall_expiry (hctx : ctx.PurgeReturns F) {key : Value} (h : key.hashable = true) (k : KState F) :
    Gives (wall_expiry key) ctx k
      (.ok ((k.store.content ctx.clock.mono).remaining key fun t => ctx.clock.wall + (t - ctx.clock.mono)))
      (k.store.content ctx.clock.mono) := by
  have hclock : (clock : K F Clock) ctx k = (.ok ctx.clock, k) := rfl
  refine gives_remaining hctx h k _ rfl (fun e he => ?_) fun e t he => ?_
  · refine (bind_ok ctx k hclock).trans ?_
    rw [he]
    rfl
  · refine (bind_ok ctx k hclock).trans ?_
    rw [he]

/-! ## Writes -/

theorem gives_set {key : Value} (h : key.hashable = true) (value : Obj F) (wall_deadline_ns : Option Int) (keep_ttl : Bool)
    (k : KState F) : Gives (data_set key value wall_deadline_ns keep_ttl) ctx k (.ok ())
      ((k.store.content ctx.clock.mono).put key
        ⟨value, (k.store.content ctx.clock.mono).deadline key wall_deadline_ns keep_ttl ctx.clock⟩ ctx.clock.mono) := by
  have hclock : (clock : K F Clock) ctx k = (.ok ctx.clock, k) := rfl
  unfold Gives data_set
  rw [bind_ok ctx k hclock, bind_entry h]
  refine ⟨_, rfl, ?_⟩
  refine (Store.content_set ..).trans ?_
  congr 2
  unfold Content.deadline
  obtain ⟨hget, hm⟩ | ⟨e, hget, he, hm⟩ | ⟨e, hget, he, hm⟩ := k.store.lookup_cases ctx.clock.mono key
  · rw [hget, hm]
  · rw [hget, hm]
    simp [he]
  · rw [hget, hm]
    simp [he]

theorem gives_setitem {key : Value} (h : key.hashable = true) (value : Obj F) (k : KState F) :
    Gives (setitem key value) ctx k (.ok ()) ((k.store.content ctx.clock.mono).put key ⟨value, none⟩ ctx.clock.mono) := by
  have hrun : setitem key value ctx k = (.ok (), { k with store.storage := k.store.storage.set key ⟨value, none⟩ }) := by
    unfold setitem needHash
    rw [if_pos h]
    rfl
  exact ⟨_, hrun, Store.content_set ..⟩

theorem gives_remove {key : Value} (h : key.hashable = true) (k : KState F) :
    Gives (data_remove key) ctx k (.ok ((k.store.content ctx.clock.mono).lookup key).isSome)
      ((k.store.content ctx.clock.mono).erase key) := by
  unfold Gives data_remove
  rw [bind_entry h]
  obtain ⟨hget, hm⟩ | ⟨e, hget, he, hm⟩ | ⟨e, hget, he, hm⟩ := k.store.lookup_cases ctx.clock.mono key
  · rw [hget, hm]
    refine ⟨k, rfl, (Finmap.ext_lookup fun x => ?_).symm⟩
    by_cases hx : x = key
    · rw [hx, Finmap.lookup_erase, hm]
    · rw [Finmap.lookup_erase_ne hx]
  · rw [hget, hm]
    exact ⟨_, congrArg (fun b => (Except.ok b, _)) he, Store.content_erase ..⟩
  · rw [hget, hm]
    exact ⟨_, congrArg (fun b => (Except.ok b, _)) he, Store.content_erase ..⟩

/-- EXPIRE and EXPIREAT differ in how they compute the deadline, and in how they find out that it has passed. -/
theorem gives_setDeadline (hctx : ctx.PurgeReturns F) {key : Value} (h : key.hashable = true) (k : KState F) (t : Int)
    {tail : Option (Entry F) → K F Bool} (hnone : tail none ctx k = (.ok false, k))
    (hsome : ∀ e, tail (some e) ctx k = (if !e.live ctx.clock.mono then _purge_key key >>= fun _ => pure false
      else if t ≤ ctx.clock.mono then setStorage (·.erase key) >>= fun _ => pure true
      else setStorage (·.set key { e with expires_at := some t }) >>= fun _ => pure true) ctx k) :
    Gives (entry key >>= tail) ctx k (.ok ((k.store.content ctx.clock.mono).setDeadline key t ctx.clock.mono).1)
      ((k.store.content ctx.clock.mono).setDeadline key t ctx.clock.mono).2 := by
  unfold Gives Content.setDeadline
  rw [bind_entry h]
  obtain ⟨hget, hm⟩ | ⟨e, hget, he, hm⟩ | ⟨e, hget, he, hm⟩ := k.store.lookup_cases ctx.clock.mono key
  · rw [hget, hm, hnone]
    exact ⟨k, rfl, rfl⟩
  · rw [hget, hm, hsome, if_pos (by rw [he]; rfl)]
    exact gives_purge hctx hget he false
  · rw [hget, hm, hsome, if_neg (by rw [he]; decide)]
    dsimp only
    split
    · exact ⟨_, rfl, Store.content_erase ..⟩
    · rename_i ht
      refine ⟨_, rfl, (Store.content_set ..).trans ?_⟩
      exact if_pos ((Entry.live_of_some rfl _).trans (decide_eq_true (not_le.1 ht)))

theorem gives_expire (hctx : ctx.PurgeReturns F) {key : Value} (h : key.hashable = true) (secs : Int) (k : KState F) :
    Gives (data_expire key secs) ctx k
      (.ok ((k.store.content ctx.clock.mono).setDeadline key (ctx.clock.mono + secs * 10 ^ 9) ctx.clock.mono).1)
      ((k.store.content ctx.clock.mono).setDeadline key (ctx.clock.mono + secs * 10 ^ 9) ctx.clock.mono).2 := by
  refine gives_setDeadline hctx h k _ rfl ?_
  intro e
  have hsecs : ctx.clock.mono + secs * 10 ^ 9 ≤ ctx.clock.mono ↔ secs ≤ 0 := by omega
  simp only [hsecs]
  rfl

theorem gives_expire_at (hctx : ctx.PurgeReturns F) {key : Value} (h : key.hashable = true) (wall_deadline_ns : Int)
    (k : KState F) :
    Gives (data_expire_at key wall_deadline_ns) ctx k
      (.ok ((k.store.content ctx.clock.mono).setDeadline key (ctx.clock.mono + (wall_deadline_ns - ctx.clock.wall))
        ctx.clock.mono).1)
      ((k.store.content ctx.clock.mono).setDeadline key (ctx.clock.mono + (wall_deadline_ns - ctx.clock.wall))
        ctx.clock.mono).2 :=
  gives_setDeadline hctx h k _ rfl fun _ => rfl

/-- `persist` deletes an expired entry, and gives a live one no deadline. -/
theorem gives_persist {key : Value} (h : key.hashable = true) (k : KState F) :
    Gives (DataOp.run (.persist key)) ctx k (DataOp.spec ctx.clock (k.store.content ctx.clock.mono) (.persist key)).1
      (DataOp.spec ctx.clock (k.store.content ctx.clock.mono) (.persist key)).2 := by
  have hpersist : ∀ (b : Bool) (m : Content F), Gives (persist key) ctx k (.ok b) m →
      Gives (DataOp.run (.persist key)) ctx k (.ok (.flag b)) m := fun b m hg => hg.bind_pure DataRes.flag
  have hon : ∀ out : DataRes F × Content F, DataOp.spec.onKey (k.store.content ctx.clock.mono) key out = (.ok out.1, out.2) :=
    fun out => if_pos h
  unfold DataOp.spec
  simp only [hon]
  obtain ⟨hget, hm⟩ | ⟨e, hget, he, hm⟩ | ⟨e, hget, he, hm⟩ := k.store.lookup_cases ctx.clock.mono key
  · rw [hm]
    refine hpersist false _ ?_
    unfold Gives persist
    rw [bind_entry h, hget]
    exact ⟨k, rfl, rfl⟩
  · rw [hm]
    refine hpersist false _ ?_
    unfold Gives persist
    rw [bind_entry h, hget]
    change ∃ k', (if !e.live ctx.clock.mono then setStorage (·.erase key) >>= fun _ => pure false else _ : K F Bool) ctx k = _ ∧ _
    rw [if_pos (by rw [he]; rfl)]
    exact ⟨_, rfl, Store.content_erase_dead fun e' he' => by rw [hget] at he'; cases he'; exact he⟩
  · rw [hm]
    cases e with
    | mk value expires_at =>
      cases expires_at with
      | none =>
        refine hpersist false _ ?_
        unfold Gives persist
        rw [bind_entry h, hget]
        exact ⟨k, rfl, rfl⟩
      | some t =>
        refine hpersist true _ ?_
        unfold Gives persist
        rw [bind_entry h, hget]
        change ∃ k', (if !Entry.live ⟨value, some t⟩ ctx.clock.mono then _ else setStorage _ >>= fun _ => pure true :
          K F Bool) ctx k = _ ∧ _
        rw [if_neg (by rw [he]; decide)]
        exact ⟨_, rfl, (Store.content_set ..).trans (if_pos rfl)⟩

/-! ## The whole map -/

/-- A program that sweeps and then looks at what is left. -/
theorem gives_swept (hctx : ctx.PurgeReturns F) {α : Type} (k : KState F) {tail : Unit → K F α} {a : α}
    (h : ∀ k' : KState F, k'.store = { k.store with storage := k.store.storage.filter fun p => p.2.live ctx.clock.mono } →
      tail () ctx k' = (.ok a, k')) : Gives (_sweep >>= tail) ctx k (.ok a) (k.store.content ctx.clock.mono) := by
  obtain ⟨k', hrun, hstore⟩ := sweep_run hctx k
  refine ⟨k', (bind_ok ctx k hrun).trans (h k' hstore), ?_⟩
  rw [hstore]
  exact Store.content_filter ..

/-- The keys that are listed are those of the live entries. -/
theorem gives_data_keys (hctx : ctx.PurgeReturns F) (k : KState F) :
    Gives data_keys ctx k (.ok (k.store.storage.filter fun p => p.2.live ctx.clock.mono).keys)
      (k.store.content ctx.clock.mono) := by
  refine gives_swept hctx k ?_
  intro k' hstore
  rw [bind_ok ctx k' (get_run ctx k'), hstore]
  rfl

theorem gives_keys (hctx : ctx.PurgeReturns F) (k : KState F) :
    Gives (DataOp.run .iter) ctx k (.ok (.keys (k.store.content ctx.clock.mono).keys)) (k.store.content ctx.clock.mono) := by
  have hkeys := gives_data_keys hctx k
  rw [Store.content] at hkeys ⊢
  rw [Dict.keys_toFinmap]
  exact hkeys.bind_pure fun keys => DataRes.keys keys.toFinset

theorem gives_len (hctx : ctx.PurgeReturns F) (k : KState F) :
    Gives (DataOp.run .len) ctx k (.ok (.int (k.store.content ctx.clock.mono).keys.card)) (k.store.content ctx.clock.mono) := by
  have hlen : Gives data_len ctx k (.ok (k.store.storage.filter fun p => p.2.live ctx.clock.mono).size)
      (k.store.content ctx.clock.mono) := by
    refine gives_swept hctx k ?_
    intro k' hstore
    rw [bind_ok ctx k' (get_run ctx k'), hstore]
    rfl
  rw [Store.content, Dict.card_keys_toFinmap]
  exact hlen.bind_pure fun n => DataRes.int n

theorem gives_stats (hctx : ctx.PurgeReturns F) (k : KState F) :
    Gives (DataOp.run .keyspace_stats) ctx k (DataOp.spec ctx.clock (k.store.content ctx.clock.mono) .keyspace_stats).1
      (k.store.content ctx.clock.mono) := by
  have hdeadlines : (k.store.content ctx.clock.mono).entries.filterMap (fun p => p.2.expires_at) =
      ↑((k.store.storage.filter fun p => p.2.live ctx.clock.mono).entries.filterMap fun p => p.2.expires_at) := by
    rw [Store.content, Dict.entries_toFinmap, Multiset.filterMap_coe, List.filterMap_map]
    rfl
  have hstats : Gives keyspace_stats ctx k (.ok ((k.store.storage.filter fun p => p.2.live ctx.clock.mono).size,
      ((k.store.storage.filter fun p => p.2.live ctx.clock.mono).entries.filterMap fun p => p.2.expires_at).length,
      (((k.store.storage.filter fun p => p.2.live ctx.clock.mono).entries.filterMap fun p => p.2.expires_at).map
        (· - ctx.clock.mono)).sum /
      ((k.store.storage.filter fun p => p.2.live ctx.clock.mono).entries.filterMap fun p => p.2.expires_at).length / 1000000))
      (k.store.content ctx.clock.mono) := by
    refine gives_swept hctx k ?_
    intro k' hstore
    rw [bind_ok ctx k' (show clock ctx k' = (.ok ctx.clock, k') from rfl), bind_ok ctx k' (get_run ctx k'), hstore]
    dsimp only
    -- without deadlines the average is 0, and so is the quotient
    split
    · rename_i hnil
      rw [hnil]
      rfl
    · rfl
  have hspec : (DataOp.spec ctx.clock (k.store.content ctx.clock.mono) .keyspace_stats).1 =
      .ok (.stats (k.store.content ctx.clock.mono).keys.card
        ((k.store.content ctx.clock.mono).entries.filterMap fun p => p.2.expires_at).card
        (((((k.store.content ctx.clock.mono).entries.filterMap fun p => p.2.expires_at).map (· - ctx.clock.mono)).sum) /
          ((k.store.content ctx.clock.mono).entries.filterMap fun p => p.2.expires_at).card / 1000000)) := rfl
  rw [hspec, hdeadlines, Multiset.map_coe, Multiset.sum_coe, Multiset.coe_card,
    show (k.store.content ctx.clock.mono).keys.card = _ from Dict.card_keys_toFinmap _]
  exact hstats.bind_pure fun out => DataRes.stats out.1 out.2.1 out.2.2

theorem gives_snapshot (hctx : ctx.PurgeReturns F) (k : KState F) :
    Gives (DataOp.run .snapshot) ctx k (DataOp.spec ctx.clock (k.store.content ctx.clock.mono) .snapshot).1
      (k.store.content ctx.clock.mono) := by
  have hrows : Gives snapshot ctx k (.ok (k.store.snapshot ctx.clock)) (k.store.content ctx.clock.mono) :=
    gives_swept hctx k fun _ _ => rfl
  have hget : (fun key => ((k.store.content ctx.clock.mono).lookup key).map fun e =>
      (e.value, e.expires_at.map fun t => ctx.clock.wall + (t - ctx.clock.mono))) = (k.store.snapshot ctx.clock).get := by
    funext key
    rw [Store.content, Dict.lookup_toFinmap, Store.snapshot, Dict.get_mapValues]
  have hspec : (DataOp.spec ctx.clock (k.store.content ctx.clock.mono) .snapshot).1 =
      .ok (.rows (k.store.snapshot ctx.clock).get) := by
    rw [← hget]
    rfl
  rw [hspec]
  exact hrows.bind_pure fun rows => DataRes.rows rows.get

/-- A single-key operation: with a key that has no hash it raises, with another one it does what the map does. -/
theorem gives_onKey {key : Value} {op : DataOp F} {k : KState F} {out : DataRes F × Content F}
    (hspec : op.spec ctx.clock (k.store.content ctx.clock.mono) = DataOp.spec.onKey (k.store.content ctx.clock.mono) key out)
    (hraise : key.hashable = false → Gives op.run ctx k (.error .other) (k.store.content ctx.clock.mono))
    (hrun : key.hashable = true → Gives op.run ctx k (.ok out.1) out.2) :
    Gives op.run ctx k (op.spec ctx.clock (k.store.content ctx.clock.mono)).1
      (op.spec ctx.clock (k.store.content ctx.clock.mono)).2 := by
  rw [hspec, DataOp.spec.onKey]
  cases h : key.hashable with
  | false => exact hraise h
  | true => exact hrun h

/-- What an operation returns and leaves is what the map says. -/
theorem gives_spec (hctx : ctx.PurgeReturns F) (op : DataOp F) (k : KState F) :
    Gives op.run ctx k (op.spec ctx.clock (k.store.content ctx.clock.mono)).1
      (op.spec ctx.clock (k.store.content ctx.clock.mono)).2 := by
  cases op with
  | get key =>
    exact gives_onKey rfl (fun h => (gives_unhashable h _ k).bind_error _) fun h => (gives_get hctx h k).bind_pure DataRes.value
  | getitem key =>
    exact gives_onKey rfl (fun h => (gives_unhashable h _ k).bind_error _) fun h => (gives_getitem h k).bind_pure DataRes.value
  | contains key =>
    exact gives_onKey rfl (fun h => (gives_unhashable h _ k).bind_error _) fun h => (gives_is_live h k).bind_pure DataRes.flag
  | is_live key =>
    exact gives_onKey rfl (fun h => (gives_unhashable h _ k).bind_error _) fun h => (gives_is_live h k).bind_pure DataRes.flag
  | set key value wall_deadline_ns keep_ttl =>
    refine gives_onKey rfl (fun h => ?_) fun h => (gives_set h value wall_deadline_ns keep_ttl k).bind_pure fun _ => DataRes.done
    have hset : Gives (data_set key value wall_deadline_ns keep_ttl) ctx k (.error .other) (k.store.content ctx.clock.mono) :=
      gives_unhashable h _ k
    exact hset.bind_error _
  | setitem key value =>
    refine gives_onKey rfl (fun h => ?_) fun h => (gives_setitem h value k).bind_pure fun _ => DataRes.done
    have hset : setitem key value ctx k = (.error .other, k) := by
      unfold setitem needHash
      rw [h]
      rfl
    exact Gives.bind_error ⟨k, hset, rfl⟩ _
  | remove key =>
    exact gives_onKey rfl (fun h => (gives_unhashable h _ k).bind_error _) fun h => (gives_remove h k).bind_pure DataRes.flag
  | expire key secs =>
    exact gives_onKey rfl (fun h => (gives_unhashable h _ k).bind_error _) fun h =>
      (gives_expire hctx h secs k).bind_pure DataRes.flag
  | expire_at key wall_deadline_ns =>
    exact gives_onKey rfl (fun h => (gives_unhashable h _ k).bind_error _)
      fun h => (gives_expire_at hctx h wall_deadline_ns k).bind_pure DataRes.flag
  | persist key =>
    cases h : key.hashable with
    | false =>
      have hspec : DataOp.spec ctx.clock (k.store.content ctx.clock.mono) (.persist key) =
          (.error .other, k.store.content ctx.clock.mono) := by
        have hon : ∀ out : DataRes F × Content F, DataOp.spec.onKey (k.store.content ctx.clock.mono) key out =
            (.error .other, k.store.content ctx.clock.mono) := fun out => if_neg (by rw [h]; decide)
        unfold DataOp.spec
        dsimp only
        split
        · exact hon _
        · exact hon _
      rw [hspec]
      exact (gives_unhashable h _ k).bind_error _
    | true => exact gives_persist h k
  | ttl key =>
    refine gives_onKey rfl (fun h => ?_) fun h => ?_
    · exact ((gives_unhashable h _ k).bind_error _).bind_error _
    · obtain ⟨k', hrun, hm⟩ := gives_ttl_ms hctx h k
      refine ⟨k', ?_, hm⟩
      change ((ttl_ms key >>= fun ms => if ms < 0 then pure ms else pure ((ms + 500) / 1000)) >>= fun n => pure
        (DataRes.int n)) ctx k = _
      rw [bind_assoc, bind_ok ctx k hrun]
      split <;> rfl
  | ttl_ms key =>
    exact gives_onKey rfl (fun h => (gives_unhashable h _ k).bind_error _) fun h => (gives_ttl_ms hctx h k).bind_pure DataRes.int
  | wall_expiry key =>
    exact gives_onKey rfl (fun h => (gives_unhashable h _ k).bind_error _) fun h =>
      (gives_wall_expiry hctx h k).bind_pure DataRes.int
  | iter => exact gives_keys hctx k
  | len => exact gives_len hctx k
  | keyspace_stats => exact gives_stats hctx k
  | snapshot => exact gives_snapshot hctx k

/-- On the map an operation that only reads changes nothing. -/
theorem spec_of_reads {op : DataOp F} (h : op.Reads) (now : Clock) (m : Content F) : (op.spec now m).2 = m := by
  have hkey : ∀ (key : Value) (out : DataRes F), (DataOp.spec.onKey m key (out, m)).2 = m := by
    intro key out
    unfold DataOp.spec.onKey
    split <;> rfl
  cases op with
  | set => exact h.elim
  | setitem => exact h.elim
  | remove => exact h.elim
  | expire => exact h.elim
  | expire_at => exact h.elim
  | persist => exact h.elim
  | iter => rfl
  | len => rfl
  | keyspace_stats => rfl
  | snapshot => rfl
  | _ => exact hkey _ _

/-- Every operation of `Data` at an instant does what the map that never holds an expired entry does, and what only reads
leaves the content as it is. The callback of a purge is taken to return. -/
theorem lazy_expiry_invisible (op : DataOp F) (ctx : Ctx) (k : KState F) (hctx : ctx.PurgeReturns F) :
    ∃ k', op.run ctx k = ((op.spec ctx.clock (k.store.content ctx.clock.mono)).1, k') ∧
      k'.store.content ctx.clock.mono = (op.spec ctx.clock (k.store.content ctx.clock.mono)).2 ∧
      (op.Reads → k'.store.content ctx.clock.mono = k.store.content ctx.clock.mono) := by
  obtain ⟨k', hrun, hm⟩ := gives_spec hctx op k
  exact ⟨k', hrun, hm, fun h => hm.trans (spec_of_reads h ..)⟩

/-- With the notifications off, an expired key that still lies in the store is missing for `get`. -/
theorem lazy_expiry_invisible_get : ∃ (ctx : Ctx) (k : KState Int), ctx.flags = [] ∧
    (k.store.storage.get (.bytes (bs "k"))).isSome = true ∧ ∃ k', (DataOp.get (.bytes (bs "k"))).run ctx k =
      (.ok (.value none), k') ∧
      k'.store.content ctx.clock.mono = k.store.content ctx.clock.mono := by
  let ctx : Ctx := ⟨.plain, ⟨5, 5⟩, ⟨∅, ∅⟩, [], 0⟩
  let k : KState Int := ⟨⟨Dict.set ∅ (.bytes (bs "k")) ⟨.raw (.bytes (bs "v")), some 3⟩, ∅⟩, [], 0⟩
  obtain ⟨k', hrun, -, hreads⟩ := lazy_expiry_invisible (.get (.bytes (bs "k"))) ctx k (Ctx.purgeReturns_of_off rfl)
  have hspec : (DataOp.spec ctx.clock (k.store.content ctx.clock.mono) (.get (.bytes (bs "k")))).1 = .ok (.value none) := by
    have hlookup : (k.store.content ctx.clock.mono).lookup (.bytes (bs "k")) = none := by
      rw [Store.content_lookup]
      decide
    have hvalue : (k.store.content ctx.clock.mono).value (.bytes (bs "k")) = none := by
      unfold Content.value
      rw [hlookup]
      rfl
    exact congrArg (fun v => Except.ok (DataRes.value v)) hvalue
  rw [hspec] at hrun
  exact ⟨ctx, k, rfl, by decide, k', hrun, hreads trivial⟩

end Kagni
