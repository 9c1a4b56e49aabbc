import Kagni.Lemmas.Flush

/-!
# What a tick of the dumper leaves in the table

After a tick the table reads back as the snapshot the tick took, unless the snapshot was empty and the table was not: an empty
snapshot is not dumped. Then the rows of the last dump stay, and a restart brings their keys back. A plain list goes into the
table as it is when it is pickled.
-/

namespace Kagni

open Lib Lib.Prog

variable {F : Type}

/-- A key that is not live has no row. -/
theorem snapshot_of_dead {s : Store F} {clock : Clock} {key : Value} (h : s.is_live key clock.mono = false) :
    (s.snapshot clock).get key = none := by
  unfold Store.is_live at h
  rw [Store.snapshot, Dict.get_mapValues, Dict.get_filter]
  cases hk : s.storage.get key with
  | none => rfl
  | some e =>
    rw [hk] at h
    simpa using h

/-- What is pickled is the snapshot exactly if its plain lists were kept. -/
theorem pickles_eq_iff (snapshot : Snapshot F) (lists : Dict Value (List Value)) :
    (∀ key, (DB.pickles snapshot lists).get key = snapshot.get key) ↔ ListsKept snapshot lists := by
  have hrow (key : Value) : (DB.pickles snapshot lists).get key = snapshot.get key ↔
      ∀ items deadline items', snapshot.get key = some (.raw (.array items), deadline) → lists.get key = some items' →
        items' = items := by
    unfold DB.pickles
    rw [Dict.get_mapValues]
    cases hget : snapshot.get key with
    | none => exact ⟨fun _ _ _ _ hitems => (nomatch hitems), fun _ => rfl⟩
    | some row =>
      obtain ⟨value, deadline⟩ := row
      rw [Option.map_some, Option.some.injEq]
      constructor
      · rintro hsame items deadline' items' hrow hlists
        cases hrow
        dsimp only at hsame
        rw [hlists] at hsame
        cases hsame
        rfl
      · intro hkept
        dsimp only
        split
        · rename_i items items' hitems
          rw [hkept items deadline items' rfl hitems]
        · rfl
  exact forall_congr' hrow

/-- What is restored under a key is made of the row of that key alone. -/
theorem restore_get (snapshot : Snapshot F) (now : Clock) (key : Value) :
    (restore snapshot now).get key = (snapshot.get key).bind fun row => restoreEntry row now := by
  rw [restore, Dict.get_foldl_set (fun row => restoreEntry row now) _ ?_ snapshot.entries snapshot.nodup ∅ key, Dict.get_empty,
    Option.or_none]
  · rfl
  · intro storage p
    cases restoreEntry p.2 now with
    | none => simp only [Option.elim_none]
    | some e => simp only [Option.elim_some]

/-- What `snapshot` returns is the snapshot of the store it was called on. -/
theorem snapshot_value {c : Ctx} {k k' : KState F} {out : Snapshot F} (h : snapshot c k = (.ok out, k')) :
    out = k.store.snapshot c.clock := by
  unfold snapshot at h
  rw [bind_ok c k (get_run c k), bind_ok c k (show clock c k = (.ok c.clock, k) from rfl), bind_run] at h
  split at h
  · exact (Except.ok.inj (Prod.mk.inj h).1).symm
  · cases (Prod.mk.inj h).1

namespace Persisted

variable [PyFloat F] {env : Env} {s t : Persisted F}

/-- The invariant of a run without a flush: the epoch is 0, also in the dump that is awaited, and there is a table. -/
structure Calm (s : Persisted F) : Prop where
  server : ∃ table, Unflushed 0 (some table) s.server
  awaited : ∀ snapshot epoch, s.awaited = some (snapshot, epoch) → epoch = 0

theorem calm_of_wake {clock : Clock} (h : Calm s) (hs : step env s (.wake clock) = some t) :
    Calm t ∧ t.server.table = s.server.table ∧
      if (s.server.data.snapshot clock).entries = [] then t.awaited = none
      else ∃ epoch, t.awaited = some (s.server.data.snapshot clock, epoch) := by
  obtain ⟨table, hU⟩ := h.server
  unfold step at hs
  dsimp only at hs
  split at hs
  · cases hs
  · have hkeep := (Unflushed.quiet (F := F) 0 (some table)).liftK snapshot (env, clock) s.server hU
    split at hs
    · rename_i out server hrun
      rw [hrun] at hkeep
      have hvalue : out = s.server.data.snapshot clock := by
        unfold liftK at hrun
        split at hrun
        · rename_i k hk
          obtain rfl := Except.ok.inj (Prod.mk.inj hrun).1
          exact snapshot_value hk
        · cases (Prod.mk.inj hrun).1
      subst hvalue
      have htable : server.table = s.server.table := by rw [hkeep.table_eq, hU.table_eq]
      split at hs
      · rename_i he
        cases hs
        exact ⟨⟨⟨table, hkeep⟩, nofun⟩, htable, by rw [if_pos he]⟩
      · rename_i he
        cases hs
        refine ⟨⟨⟨table, hkeep⟩, fun _ _ h => ?_⟩, htable, by rw [if_neg he]; exact ⟨_, rfl⟩⟩
        cases h
        exact hkeep.epoch_eq
    · cases hs

theorem calm_of_step {e : DumperEvent} (he : e.NoFlush) (h : Calm s) (hs : step env s e = some t) : Calm t := by
  obtain ⟨table, hU⟩ := h.server
  cases e with
  | input i =>
    cases hs
    exact ⟨⟨table, hU.step env he⟩, h.awaited⟩
  | wake clock => exact (calm_of_wake h hs).1
  | dumped lists =>
    unfold step at hs
    dsimp only at hs
    split at hs
    · cases hs
    · rename_i snapshot epoch _
      cases hs
      refine ⟨⟨DB.dump table (DB.pickles snapshot lists) s.server.data.epoch epoch, hU.queue, hU.epoch_eq, ?_⟩, nofun⟩
      exact congrArg (Option.map _) hU.table_eq

theorem calm_of_run {port : Nat} {table : Table F} {storage : Dict Value (Entry F)} {wired : SessionId → Bool}
    {events : List DumperEvent} (he : ∀ e ∈ events, e.NoFlush)
    (hrun : trace (step env) ⟨Server.init port (some table) storage wired, none⟩ events = some s) : Calm s :=
  trace.invariant_of_forall (fun _ _ _ he h hs => calm_of_step he h hs) he hrun
    ⟨⟨table, Unflushed.init port (some table) storage wired⟩, nofun⟩

/-- The dump that is awaited is the one the tick took, whatever arrives meanwhile. -/
theorem dumped_table {inputs : List Input} {lists : Dict Value (List Value)} (hi : ∀ i ∈ inputs, i.NoFlush) (h : Calm s)
    {snapshot : Snapshot F} {epoch : Nat} (ha : s.awaited = some (snapshot, epoch))
    (hrun : trace (step env) s (inputs.map .input ++ [.dumped lists]) = some t) :
    t.server.table = some (DB.pickles snapshot lists).entries := by
  induction inputs generalizing s with
  | nil =>
    obtain ⟨table, hU⟩ := h.server
    obtain rfl := h.awaited snapshot epoch ha
    obtain ⟨t', ht', hrun⟩ := trace.cons_eq_some.1 hrun
    cases hrun
    simp only [step, ha, Option.some.injEq] at ht'
    subst ht'
    simp [hU.table_eq, hU.epoch_eq, DB.dump]
  | cons i inputs ih =>
    obtain ⟨t', ht', hrun⟩ := trace.cons_eq_some.1 hrun
    refine ih (fun j hj => hi j (by simp [hj])) (calm_of_step (e := .input i) (hi i (by simp)) h ht') ?_ hrun
    cases ht'
    exact ha

/-- A completed tick leaves the snapshot it took in the table, and no key that was dead at the tick comes back after a restart,
exactly when the snapshot was not empty or the table was empty before, and no plain list was changed before it was pickled. -/
theorem tick_agrees_iff {port : Nat} {table : Table F} {storage : Dict Value (Entry F)} {wired : SessionId → Bool}
    {events : List DumperEvent} {inputs : List Input} {lists : Dict Value (List Value)} {clock : Clock}
    (he : ∀ e ∈ events, e.NoFlush) (hi : ∀ i ∈ inputs, i.NoFlush)
    (hrun : trace (step env) ⟨Server.init port (some table) storage wired, none⟩ events = some s)
    (htick : Tick env clock s inputs lists t) :
    (Agrees (t.server.table.getD []) (s.server.data.snapshot clock) ∧
        ∀ key now, s.server.data.is_live key clock.mono = false → (restart t now).server.data.storage.get key = none) ↔
      ((s.server.data.snapshot clock).entries ≠ [] ∨ s.server.table = some []) ∧
        ListsKept (s.server.data.snapshot clock) lists := by
  have hcalm := calm_of_run he hrun
  obtain ⟨table', hU⟩ := hcalm.server
  -- a table that agrees with the snapshot has no row for a key that was dead
  have hdead : Agrees (t.server.table.getD []) (s.server.data.snapshot clock) →
      ∀ key now, s.server.data.is_live key clock.mono = false → (restart t now).server.data.storage.get key = none :=
    fun ha key now hk => (restore_get _ now key).trans (by rw [(ha key).trans (snapshot_of_dead hk), Option.bind_none])
  rw [and_iff_left_of_imp hdead]
  cases htick with
  | skipped h ha =>
    obtain ⟨-, htable, hawait⟩ := calm_of_wake hcalm h
    have hempty : (s.server.data.snapshot clock).entries = [] := by
      by_contra hne
      rw [if_neg hne] at hawait
      obtain ⟨epoch, hawait⟩ := hawait
      rw [ha] at hawait
      cases hawait
    have hnone : ∀ key, (s.server.data.snapshot clock).get key = none := by
      intro key
      rw [Dict.get, hempty]
      rfl
    have hkept : ListsKept (s.server.data.snapshot clock) ∅ := fun _ _ _ _ _ hlists => (nomatch hlists)
    rw [htable, hU.table_eq, and_iff_left hkept]
    simp only [Agrees, hnone, Option.getD_some, DB.load_eq_empty_iff, hempty, ne_eq, not_true_eq_false, false_or,
      Option.some.injEq]
  | dumped _ lists h ha hr =>
    obtain ⟨hcalm', -, hawait⟩ := calm_of_wake hcalm h
    split at hawait
    · exact absurd hawait ha
    · rename_i hne
      obtain ⟨epoch, hawait⟩ := hawait
      rw [dumped_table hi hcalm' hawait hr, Option.getD_some, and_iff_right (.inl hne)]
      unfold Agrees
      rw [DB.load_entries]
      exact pickles_eq_iff _ _

/-- A key is set, dumped and deleted. -/
def setDumpDel : List DumperEvent :=
  [.input (.send ⟨0, 0⟩ 0 [bs "SET", bs "k", bs "v"]), .wake ⟨1, 1⟩, .dumped ∅, .input (.send ⟨2, 2⟩ 0 [bs "DEL", bs "k"])]

/-- The server it happens to. -/
def fresh : Persisted Int := ⟨Server.init 0 (some []) ∅ fun _ => true, none⟩

/-- After the deletion the store is empty, the next tick dumps nothing, and a restart brings the key back. -/
theorem tick_disagrees : ∃ s t : Persisted Int, trace (step .plain) fresh setDumpDel = some s ∧ Tick .plain ⟨3, 3⟩ s [] ∅ t ∧
    s.server.data.is_live (.bytes (bs "k")) 3 = false ∧ ¬Agrees (t.server.table.getD []) (s.server.data.snapshot ⟨3, 3⟩) ∧
    (restart t ⟨4, 4⟩).server.data.storage.get (.bytes (bs "k")) ≠ none := by
  have h : ((trace (step .plain) fresh setDumpDel).any fun s => (step .plain s (.wake ⟨3, 3⟩)).any fun t =>
      t.awaited.isNone && !s.server.data.is_live (.bytes (bs "k")) 3 &&
        ((DB.load (t.server.table.getD [])).get (.bytes (bs "k"))).isSome &&
        ((s.server.data.snapshot ⟨3, 3⟩).get (.bytes (bs "k"))).isNone &&
        ((restart t ⟨4, 4⟩).server.data.storage.get (.bytes (bs "k"))).isSome) = true := by
    decide +kernel
  obtain ⟨s, hs, h⟩ := (Option.any_eq_true ..).1 h
  obtain ⟨t, ht, h⟩ := (Option.any_eq_true ..).1 h
  simp only [Bool.and_eq_true, Option.isNone_iff_eq_none, Bool.not_eq_true', Option.isSome_iff_ne_none] at h
  obtain ⟨⟨⟨⟨hawaited, hdead⟩, htable⟩, hsnapshot⟩, hback⟩ := h
  refine ⟨s, t, hs, .skipped ht hawaited, hdead, fun ha => ?_, hback⟩
  exact htable ((ha _).trans hsnapshot)

/-- A tick with something to dump, the key being deleted while the dump runs. -/
theorem tick_agrees_iff_dumped : ∃ s t : Persisted Int,
    Tick .plain ⟨1, 1⟩ s [.send ⟨2, 2⟩ 0 [bs "DEL", bs "k"]] ∅ t ∧
      ((Agrees (t.server.table.getD []) (s.server.data.snapshot ⟨1, 1⟩) ∧
        ∀ key now, s.server.data.is_live key 1 = false → (restart t now).server.data.storage.get key = none) ↔
      ((s.server.data.snapshot ⟨1, 1⟩).entries ≠ [] ∨ s.server.table = some []) ∧
        ListsKept (s.server.data.snapshot ⟨1, 1⟩) ∅) := by
  have h : ((trace (step .plain) fresh (setDumpDel.take 1)).any fun s => (step .plain s (.wake ⟨1, 1⟩)).any fun s' =>
      s'.awaited.isSome && (trace (step .plain) s' ([.input (.send ⟨2, 2⟩ 0 [bs "DEL", bs "k"])] ++ [.dumped ∅])).isSome) =
        true := by
    decide +kernel
  obtain ⟨s, hs, h⟩ := (Option.any_eq_true ..).1 h
  obtain ⟨s', hs', h⟩ := (Option.any_eq_true ..).1 h
  simp only [Bool.and_eq_true, Option.isSome_iff_ne_none] at h
  obtain ⟨t, ht⟩ := Option.ne_none_iff_exists'.1 h.2
  have htick : Tick .plain ⟨1, 1⟩ s [.send ⟨2, 2⟩ 0 [bs "DEL", bs "k"]] ∅ t := .dumped _ ∅ hs' h.1 ht
  refine ⟨s, t, htick, tick_agrees_iff ?_ ?_ hs htick⟩
  · intro e he
    rw [List.mem_singleton.1 he]
    exact (by decide +kernel : ¬Request.Flushes ⟨bs "SET", [.bytes (bs "k"), .bytes (bs "v")]⟩)
  · intro i hi
    rw [List.mem_singleton.1 hi]
    exact (by decide +kernel : ¬Request.Flushes ⟨bs "DEL", [.bytes (bs "k")]⟩)

end Persisted

end Kagni
