import Kagni.Lemmas.Deadlines
import Kagni.Settled

/-!
# Deadlines are kept, cleared or left alone

A value that is changed in place keeps its deadline, unless it is a null: a command that finds one takes the key for a missing
one and stores a new value, without the deadline that is there.
-/

namespace Kagni

open Lib Lib.Prog

variable {F : Type} [PyFloat F] {env : Env} {clock : Clock} {s : Server F} {c : Cmd} {args : List Value}
  {state : Option SessionId}

theorem head_onExc (e : Exc Error) : (onExc e).head? = some 45 := by
  cases e <;> rfl

/-- A command of the keyspace answers with what it returns or raises, and leaves the content it leaves. -/
theorem after_keyspace {method : List Value → K F Reply} (hm : handler c = .keyspace method) :
    s.after env clock c args state =
      (.ok (some (decoratedFrame ((method args (s.ctx env clock) s.kstate).1.mapError Exc.toError))),
      (method args (s.ctx env clock) s.kstate).2.store.content clock.mono) := by
  have hrun := runDecorated_run (liftK (method args)) (env, clock) s
  unfold Server.after
  rw [hm]
  change ((runDecorated (liftK (method args)) (env, clock) s).1,
    (runDecorated (liftK (method args)) (env, clock) s).2.data.toStore.content clock.mono) = _
  rw [hrun, decoratedFrame_liftK, liftK_store]

/-- A command of the server leaves the entries it does not flush. -/
theorem after_server (hc : ∀ method, (handler c : Handler F) ≠ .keyspace method) {key : Value} {e : Entry F}
    (h : (s.after env clock c args state).2.lookup key = some e) : (s.data.toStore.content clock.mono).lookup key = some e := by
  let I : Server F → Prop := fun t => ∀ key e, (t.data.toStore.content clock.mono).lookup key = some e →
    (s.data.toStore.content clock.mono).lookup key = some e
  have hcalm : Calm fun t u : Server F => I t → I u :=
    { toIsPreorder := isPreorder_keeps _, draws := fun _ _ => id, deliver := fun _ _ _ => id }
  have hflush : SurvivesFlush fun t u : Server F => I t → I u := fun _ => ⟨fun _ _ _ he => (nomatch he), id⟩
  exact hcalm.runHandler (fun method hm => absurd hm (hc method)) (fun _ _ _ _ _ _ _ => id) (fun _ _ _ _ _ => id)
    (fun _ => hflush)
    (fun _ _ _ => id) (env, clock) s (fun _ _ => id) key e h

/-- The watch over a command of the server. -/
def Server.watch (s : Server F) (env : Env) (clock : Clock) (free : Set Value) : Watch F :=
  .disturbed (s.ctx env clock) (s.data.toStore.content clock.mono) free

theorem Server.watch_at (s : Server F) (env : Env) (clock : Clock) (free : Set Value) : (s.watch env clock free).At s.kstate :=
  ⟨rfl, False.elim⟩

/-- After a command a key has a deadline that it may have. -/
theorem fits_after {free : Set Value} (hfree : ∀ key ∈ c.timed args, key ∈ free) {key : Value} {e : Entry F}
    (h : (s.after env clock c args state).2.lookup key = some e) : (s.watch env clock free).Fits key e.expires_at := by
  by_cases hc : ∃ method, (handler c : Handler F) = .keyspace method
  · obtain ⟨method, hm⟩ := hc
    have hends : (s.watch env clock free).Ends (method args) := Watch.ends_command hm False.elim hfree
    replace hends := hends s.kstate (s.watch_at env clock free)
    rw [after_keyspace hm] at h
    revert h
    revert hends
    change Outcome _ _ (method args (s.ctx env clock) s.kstate) → _
    cases method args (s.ctx env clock) s.kstate with
    | mk out k =>
      cases out with
      | ok _ => exact fun hk h => hk.1 key e h
      | error _ => exact fun hk h => hk.1 key e h
  · exact .inr (.inl ⟨e, after_server (not_exists.1 hc) h, rfl⟩)

/-- A command that works in place sets no deadline. -/
theorem timed_of_inPlace (h : c.InPlace args) : c.timed args = [] := by
  cases h with
  | SET hsplit hkeep => exact if_pos (setKeeps_of_splits hsplit hkeep)
  | listed hc =>
    simp only [inPlaceCommands, List.mem_cons, List.not_mem_nil, or_false] at hc
    rcases hc with rfl | rfl | rfl | rfl | rfl | rfl | rfl | rfl | rfl | rfl | rfl | rfl | rfl | rfl | rfl | rfl
      | rfl | rfl | rfl | rfl |
      rfl | rfl | rfl | rfl | rfl | rfl | rfl | rfl | rfl | rfl | rfl | rfl | rfl | rfl | rfl | rfl | rfl | rfl
        | rfl | rfl | rfl | rfl |
      rfl | rfl | rfl | rfl
    all_goals rfl

/-- A key whose deadline a command sets is among its arguments. -/
theorem timed_subset (c : Cmd) (args : List Value) : ∀ key ∈ c.timed args, key ∈ args := by
  intro key h
  cases c with
  | SET =>
    change key ∈ (if setKeeps (args.drop 2) then [] else args.take 1) at h
    split at h
    · cases h
    · exact List.mem_of_mem_take h
  | MSET | MSETNX =>
    obtain ⟨p, hp, rfl⟩ := List.mem_map.1 h
    exact (mem_of_mem_pairsOf hp).1
  | BITOP => exact List.mem_of_mem_drop (List.mem_of_mem_take h)
  | SETNX | SETEX | PSETEX | GETEX | GETSET | EXPIRE | PEXPIRE | EXPIREAT | PEXPIREAT | PERSIST | SDIFFSTORE
    | SINTERSTORE | SUNIONSTORE
  | ZUNIONSTORE | ZINTERSTORE | ZDIFFSTORE => exact List.mem_of_mem_take h
  | _ => cases h

omit [PyFloat F] in
/-- A key that holds a null looks like a missing one. -/
theorem null_of_value {m : Content F} {key : Value} {e : Entry F} (he : m.lookup key = some e) (hvalue : m.value key = none) :
    e.value = .raw .null := by
  rw [Content.value, he, Option.bind_some] at hvalue
  split at hvalue
  · assumption
  · cases hvalue

omit [PyFloat F] in
theorem data_get_null {ctx : Ctx} {k : KState F} {key : Value} {e : Entry F} (hkey : key.hashable = true)
    (he : (k.store.content ctx.clock.mono).lookup key = some e) (hnull : e.value = .raw .null) :
    data_get key ctx k = (.ok none, k) := by
  unfold data_get
  rw [bind_entry hkey]
  rw [Store.content_lookup, Option.filter_eq_some_iff] at he
  rw [he.1]
  change (if e.live ctx.clock.mono then _ else _ : K F _) ctx k = _
  rw [if_pos he.2, hnull]
  rfl

/-- SADD stores a new set where there is a null. -/
theorem SADD_null {ctx : Ctx} {k : KState F} {key val : Value} {e : Entry F} (hkey : key.hashable = true)
    (hval : val.hashable = true)
    (he : (k.store.content ctx.clock.mono).lookup key = some e) (hnull : e.value = .raw .null) :
    ((SADD key [val] ctx k).2.store.content ctx.clock.mono).lookup key = some ⟨.set (.ofList [val]), none⟩ := by
  have hset : (_set key : K F _) ctx k = (.ok none, k) := by
    have hkind : expect_kind key .set ctx k = (.ok none, k) := bind_ok ctx k (data_get_null hkey he hnull)
    exact bind_ok ctx k hkind
  have hhash : (needHashes [val] : K F Unit) ctx k = (.ok (), k) := by
    unfold needHashes
    rw [if_pos (by simp [hval])]
    rfl
  have hneed : (needHash key : K F Unit) ctx k = (.ok (), k) := by
    unfold needHash
    rw [if_pos hkey]
    rfl
  have hrun : SADD key [val] ctx k =
    (_after_write key .sadd >>= fun _ => pure (Reply.int (OrdSet.ofList [val]).card) : K F Reply) ctx
      { k with store.storage := k.store.storage.set key ⟨.set (.ofList [val]), none⟩ } := by
    unfold SADD
    rw [bind_ok ctx k (show (_assert_keys [val] .SADD : K F Unit) ctx k = (.ok (), k) from rfl), bind_ok ctx k hset]
    dsimp only
    rw [bind_ok ctx k hhash, bind_ok ctx k (bind_ok ctx k hneed)]
  rw [hrun, content_of_reads (Q := fun _ => True) fun w => (w.reads_after_write key .sadd).bind fun _ _ => .pure trivial]
  have hcontent := Store.content_set k.store ctx.clock.mono key ⟨.set (.ofList [val]), none⟩
  rw [hcontent, Content.put_live _ _ (Entry.live_of_none rfl _), Finmap.lookup_insert]

/-- A key whose deadline a command may not change keeps it, unless a null is taken for a missing key. -/
theorem kept_after (free : Set Value) (hfree : ∀ key ∈ c.timed args, key ∈ free) {key : Value} (hkey : key ∉ free)
    {e e' : Entry F}
    (he : (s.data.toStore.content clock.mono).lookup key = some e) (hvalue : e.expires_at ≠ none → e.value ≠ .raw .null)
    (he' : (s.after env clock c args state).2.lookup key = some e') : e'.expires_at = e.expires_at := by
  rcases fits_after hfree he' with h | ⟨e₀, he₀, h⟩ | ⟨hnone, h⟩
  · exact absurd h hkey
  · obtain rfl := Option.some.inj (he.symm.trans he₀)
    exact h
  · by_contra hne
    exact hvalue (fun hold => hne (h.trans hold.symm)) (null_of_value he hnone)

/-- A key that is created has no deadline. -/
theorem created_after (free : Set Value) (hfree : ∀ key ∈ c.timed args, key ∈ free) {key : Value}
    (hkey : key ∉ free) {e' : Entry F}
    (hnone : (s.data.toStore.content clock.mono).lookup key = none)
    (he' : (s.after env clock c args state).2.lookup key = some e') :
    e'.expires_at = none := by
  rcases fits_after hfree he' with h | ⟨e₀, he₀, -⟩ | ⟨-, h⟩
  · exact absurd h hkey
  · rw [show (s.watch env clock free).start.lookup key = none from hnone] at he₀
    cases he₀
  · exact h

/-- A key that is replaced has no deadline. -/
theorem replaced_after {key : Value} (hr : c.Replaces (s.data.toStore.content clock.mono) args key) {e' : Entry F}
    (he' : (s.after env clock c args state).2.lookup key = some e')
    (hdone : (∃ frame, (s.after env clock c args state).1 = .ok (some frame) ∧ frame.head? ≠ some 45) ∨
      (s.data.toStore.content clock.mono).lookup key ≠ some e') : e'.expires_at = none := by
  obtain ⟨method, hm⟩ : ∃ method, (handler c : Handler F) = .keyspace method := by
    cases hr with
    | store hc =>
      simp only [storeCommands, List.mem_cons, List.not_mem_nil, or_false] at hc
      rcases hc with rfl | rfl | rfl | rfl | rfl | rfl
      all_goals exact ⟨_, rfl⟩
    | _ => exact ⟨_, rfl⟩
  have hundates : Outcome (fun _ => (s.watch env clock ∅).Undated key) (fun _ => (s.watch env clock ∅).Spared key)
      (method args (s.ctx env clock) s.kstate) := Watch.undates_command hr hm s.kstate (s.watch_at env clock ∅)
  rw [after_keyspace hm] at he' hdone
  cases hrun : method args (s.ctx env clock) s.kstate with
  | mk out k =>
    rw [hrun] at hundates he' hdone
    cases out with
    | ok reply => exact hundates e' he'
    | error err =>
      -- the command raised: either before it wrote the key, or when the deadline was gone
      rcases hundates with hgone | hsame
      · exact hgone e' he'
      · rcases hdone with ⟨frame, hframe, hhead⟩ | hchanged
        · cases hframe
          exact absurd (head_onExc _) hhead
        · exact absurd (hsame.symm.trans he') hchanged

omit [PyFloat F] in
/-- `set` keeps the deadline of an entry if the entry still lives by its own reading of the clock. -/
theorem data_set_keeps_iff {ctx : Ctx} {k : KState F} {key : Value} {e : Entry F} (hkey : key.hashable = true)
    (he : k.store.storage.get key = some e) (hdeadline : e.expires_at ≠ none) (v : Obj F) :
    (∀ e', (data_set key v none true ctx k).2.store.storage.get key = some e' → e'.expires_at = e.expires_at) ↔
      e.live ctx.clock.mono = true := by
  have hclock : (Kagni.clock : K F Clock) ctx k = (.ok ctx.clock, k) := rfl
  have hrun : (data_set key v none true ctx k).2.store.storage.get key =
      some ⟨v, if e.live ctx.clock.mono = true then e.expires_at else none⟩ := by
    unfold data_set
    rw [bind_ok ctx k hclock, bind_entry hkey, he]
    change (k.store.storage.set key _).get key = _
    rw [Dict.get_set_self]
    simp
  rw [hrun]
  constructor
  · intro h
    by_contra hdead
    have hnone := h _ rfl
    dsimp only at hnone
    rw [if_neg hdead] at hnone
    exact hdeadline hnone.symm
  · rintro hlive e' he'
    rw [if_pos hlive] at he'
    cases he'
    rfl

/-- Every command does with deadlines what it should, if and only if no live key with a deadline holds a null, and no deadline
passes between the look at a key and the reading of the clock in `set`. -/
theorem deadlines_kept_iff (env : Env) (clock later : Clock) (s : Server F) : s.KeepsDeadlines env clock later ↔
    ∀ (key : Value) (e : Entry F), key.hashable = true → (s.data.toStore.content clock.mono).lookup key = some e →
      e.expires_at ≠ none →
      e.value ≠ .raw .null ∧ e.live later.mono = true := by
  have hstored {key : Value} {e : Entry F} (he : (s.data.toStore.content clock.mono).lookup key = some e) :
      s.kstate.store.storage.get key = some e := by
    rw [Store.content_lookup, Option.filter_eq_some_iff] at he
    exact he.1
  constructor
  · intro h key e hkey he hdeadline
    refine ⟨fun hnull => ?_, ?_⟩
    swap
    · exact (data_set_keeps_iff hkey (hstored he) hdeadline (.raw .null)).1 fun e' => h.reread key e e' _ hkey he hdeadline
    have hafter : (s.after env clock .SADD [key, .bytes (bs "a")] none).2.lookup key =
        some ⟨.set (.ofList [.bytes (bs "a")]), none⟩ := by
      rw [after_keyspace rfl]
      exact SADD_null hkey rfl he hnull
    exact hdeadline (h.inPlace .SADD [key, .bytes (bs "a")] none (.listed (by decide)) key e _ hkey he hdeadline hafter).symm
  · intro h
    have hempty : ∀ {c : Cmd} {args : List Value}, c.InPlace args → ∀ key ∈ c.timed args, key ∈ (∅ : Set Value) :=
      fun hc key hkey => by
      rw [timed_of_inPlace hc] at hkey
      cases hkey
    constructor
    · intro c args state hc key e e' hkey he _ he'
      exact kept_after ∅ (hempty hc) id he (fun hdeadline => (h key e hkey he hdeadline).1) he'
    · intro c args state hc key e' hnone he'
      exact created_after ∅ (hempty hc) id hnone he'
    · intro c args state key hr e' he' hdone
      exact replaced_after hr he' hdone
    · intro c args state key e e' hargs hkey he he'
      exact kept_after {key | key ∈ args} (timed_subset c args) hargs he (fun hdeadline => (h key e hkey he hdeadline).1) he'
    · intro key e e' v hkey he hdeadline he'
      have hreread := (h key e hkey he hdeadline).2
      exact (data_set_keeps_iff hkey (hstored he) hdeadline v).2 hreread e' he'

/-- A server with a null under `k` that expires. -/
def expiringNull : Server Int :=
  (Server.init 0 none ∅ fun _ => true).step .plain
    (.request ⟨0, 0⟩ (some 0) (.array [.bytes (bs "SETEX"), .bytes (bs "k"), .bytes (bs "100"), .null]))

/-- SADD takes the null for a missing key, and the new set never expires. -/
theorem deadline_lost : expiringNull.Reached .plain (fun _ => True) ∧ ¬expiringNull.KeepsDeadlines .plain ⟨0, 0⟩ ⟨0, 0⟩ := by
  refine ⟨.step (.start 0 none fun _ => true) trivial, fun h => ?_⟩
  have hbefore : ((expiringNull.data.toStore.content 0).lookup (.bytes (bs "k"))).map Entry.expires_at =
      some (some (100 * 10 ^ 9)) := by
    decide +kernel
  have hafter : ((expiringNull.after .plain ⟨0, 0⟩ .SADD [.bytes (bs "k"), .bytes (bs "a")] (some 0)).2.lookup
    (.bytes (bs "k"))).map
      Entry.expires_at = some none := by
    decide +kernel
  obtain ⟨e, he, hdeadline⟩ := Option.map_eq_some_iff.1 hbefore
  obtain ⟨e', he', hnone⟩ := Option.map_eq_some_iff.1 hafter
  have hkept := h.inPlace .SADD [.bytes (bs "k"), .bytes (bs "a")] (some 0) (.listed (by decide)) _ e e' rfl he
    (by simp [hdeadline]) he'
  rw [hdeadline, hnone] at hkept
  cases hkept

end Kagni
