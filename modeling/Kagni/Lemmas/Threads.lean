import Kagni.Db

/-!
# What the threads keep

The lock belongs to whoever is between taking and releasing it, and no dump carries an epoch the store has not reached. From this
follows what a flush leaves behind: when it returns the table is empty, no dump that was there stands before its commit, and no
such dump will pass the comparison of the epochs again.
-/

namespace Kagni

open Lib

variable {F : Type}

/-- The dump holds the lock. -/
def DumpPhase.Holds (p : DumpPhase) : Prop := p = .locked ∨ p = .matched ∨ p = .leaving

/-- The dump has taken the lock. -/
def DumpPhase.Entered (p : DumpPhase) : Prop := p ≠ .start ∧ p ≠ .connected

/-- A dump that has taken the lock holds it, or is done. -/
theorem DumpPhase.entered_iff (p : DumpPhase) : p.Entered ↔ p.Holds ∨ p = .done := by
  cases p <;> simp [Entered, Holds]

/-- The dump is past its commit. -/
def DumpPhase.Left (p : DumpPhase) : Prop := p = .leaving ∨ p = .done

instance (p : DumpPhase) : Decidable p.Left := inferInstanceAs (Decidable (_ ∨ _))

/-- The flush holds the lock. -/
def FlushPhase.Holds (p : FlushPhase) : Prop := p = .locked ∨ p = .leaving ∨ p = .aborting

namespace Threads

variable {s s' : Threads F} {i j : Nat} {d : Dump F} {p : DumpPhase}

@[simp] theorem moveDump_data (s : Threads F) (i : Nat) (p : DumpPhase) : (s.moveDump i p).data = s.data := rfl

@[simp] theorem moveDump_table (s : Threads F) (i : Nat) (p : DumpPhase) : (s.moveDump i p).table = s.table := rfl

@[simp] theorem moveDump_lock (s : Threads F) (i : Nat) (p : DumpPhase) : (s.moveDump i p).lock = s.lock := rfl

@[simp] theorem moveDump_flush (s : Threads F) (i : Nat) (p : DumpPhase) : (s.moveDump i p).flush = s.flush := rfl

@[simp] theorem moveDump_length (s : Threads F) (i : Nat) (p : DumpPhase) : (s.moveDump i p).dumps.length = s.dumps.length := by
  simp [moveDump]

@[simp] theorem moveDump_dumps (s : Threads F) (i j : Nat) (p : DumpPhase) :
    (s.moveDump i p).dumps[j]? = if i = j then s.dumps[j]?.map (fun d => { d with phase := p }) else s.dumps[j]? := by
  rw [moveDump, List.getElem?_modify]
  split <;> simp

/-- What a step of a dump may do: it moves that dump to another phase, and takes or releases the lock, compares the epochs, or
commits on the way. -/
inductive DumpStep (s : Threads F) (i : Nat) (d : Dump F) : Threads F → Prop
  | outside (p : DumpPhase) (hd : ¬d.phase.Holds) (hp : ¬p.Holds) : DumpStep s i d (s.moveDump i p)
  | acquire (hd : ¬d.phase.Holds) (hl : s.lock = none) : DumpStep s i d ({ s with lock := some (.dump i) }.moveDump i .locked)
  | stay (p : DumpPhase) (hd : d.phase.Holds) (hp : p.Holds) (hm : p = .matched → s.data.epoch = d.epoch) :
      DumpStep s i d (s.moveDump i p)
  | commit (hd : d.phase = .matched) : DumpStep s i d ({ s with table := d.snapshot.entries }.moveDump i .leaving)
  | release (hd : d.phase.Holds) : DumpStep s i d ({ s with lock := none }.moveDump i .done)

theorem dumpStep_of_stepDump (h : s.stepDump i d = some s') : DumpStep s i d s' := by
  unfold stepDump at h
  split at h
  · rename_i hp
    cases h
    exact .outside _ (by simp [hp, DumpPhase.Holds]) (by simp [DumpPhase.Holds])
  · rename_i hp
    split at h
    · rename_i hl
      cases h
      exact .acquire (by simp [hp, DumpPhase.Holds]) hl
    · cases h
  · rename_i hp
    cases h
    refine .stay _ (by simp [hp, DumpPhase.Holds]) (by split <;> simp [DumpPhase.Holds]) ?_
    split
    · nofun
    · rename_i he
      exact fun _ => not_not.1 he
  · rename_i hp
    cases h
    exact .commit hp
  · rename_i hp
    cases h
    exact .release (by simp [hp, DumpPhase.Holds])
  · cases h

theorem dumpStep_of_failDump (h : s.failDump i d = some s') : DumpStep s i d s' := by
  unfold failDump at h
  split at h
  all_goals
    rename_i hp
    cases h
  · exact .outside _ (by simp [hp, DumpPhase.Holds]) (by simp [DumpPhase.Holds])
  · exact .outside _ (by simp [hp, DumpPhase.Holds]) (by simp [DumpPhase.Holds])
  · exact .stay _ (by simp [hp, DumpPhase.Holds]) (by simp [DumpPhase.Holds]) nofun
  · exact .stay _ (by simp [hp, DumpPhase.Holds]) (by simp [DumpPhase.Holds]) nofun

/-- What a step of a running flush may do. -/
inductive FlushStep (s : Threads F) : Threads F → Prop
  | outside (p : FlushPhase) (hs : ¬s.flush.Holds) (hp : ¬p.Holds) : FlushStep s { s with flush := p }
  | acquire (hs : ¬s.flush.Holds) (hl : s.lock = none) : FlushStep s { s with lock := some .flush, flush := .locked }
  | wipe (hs : s.flush.Holds) : FlushStep s { s with table := [], flush := .leaving }
  | abort (hs : s.flush.Holds) : FlushStep s { s with flush := .aborting }
  | release (hs : s.flush.Holds) : FlushStep s { s with lock := none, flush := .idle }

theorem flushStep_of_stepFlush (h : s.stepFlush = some s') : FlushStep s s' := by
  unfold stepFlush at h
  split at h
  · cases h
  · rename_i hp
    cases h
    exact .outside _ (by simp [hp, FlushPhase.Holds]) (by simp [FlushPhase.Holds])
  · rename_i hp
    split at h
    · rename_i hl
      cases h
      exact .acquire (by simp [hp, FlushPhase.Holds]) hl
    · cases h
  · rename_i hp
    cases h
    exact .wipe (by simp [hp, FlushPhase.Holds])
  · rename_i hp
    cases h
    exact .release (by simp [hp, FlushPhase.Holds])
  · rename_i hp
    cases h
    exact .release (by simp [hp, FlushPhase.Holds])

theorem flushStep_of_failFlush (h : s.failFlush = some s') : FlushStep s s' := by
  unfold failFlush at h
  split at h
  all_goals
    rename_i hp
    cases h
  · exact .outside _ (by simp [hp, FlushPhase.Holds]) (by simp [FlushPhase.Holds])
  · exact .outside _ (by simp [hp, FlushPhase.Holds]) (by simp [FlushPhase.Holds])
  · exact .abort (by simp [hp, FlushPhase.Holds])

/-- Every step, by the thread that takes it. -/
inductive Step (s : Threads F) : Threads F → Prop
  | mutate (store : Store F) (hs : s.flush = .idle) : Step s { s with data := { s.data with toStore := store } }
  | snapshot (now : Clock) (hs : s.flush = .idle) : Step s (s.takeSnapshot now)
  | clear (hs : s.flush = .idle) : Step s { s with data := s.data.clear, flush := .cleared }
  | flush {s' : Threads F} (h : FlushStep s s') : Step s s'
  | dump {s' : Threads F} (i : Nat) (d : Dump F) (hd : s.dumps[i]? = some d) (h : DumpStep s i d s') : Step s s'

theorem step_of_action {a : Action F} (h : step s a = some s') : Step s s' := by
  cases a with
  | mutate store =>
    obtain ⟨hs, h⟩ := Option.ite_none_right_eq_some.1 h
    cases h
    exact .mutate store hs
  | snapshot now =>
    obtain ⟨hs, h⟩ := Option.ite_none_right_eq_some.1 h
    cases h
    exact .snapshot now hs
  | clear =>
    obtain ⟨hs, h⟩ := Option.ite_none_right_eq_some.1 h
    cases h
    exact .clear hs
  | flush => exact .flush (flushStep_of_stepFlush h)
  | flushFail => exact .flush (flushStep_of_failFlush h)
  | dump i =>
    obtain ⟨d, hd, h⟩ := Option.bind_eq_some_iff.1 h
    exact .dump i d hd (dumpStep_of_stepDump h)
  | dumpFail i =>
    obtain ⟨d, hd, h⟩ := Option.bind_eq_some_iff.1 h
    exact .dump i d hd (dumpStep_of_failDump h)

/-- The invariant of every reachable state. -/
structure Inv (s : Threads F) : Prop where
  /-- No dump is ahead of the store. -/
  epoch : ∀ (i : Nat) (d : Dump F), s.dumps[i]? = some d → d.epoch ≤ s.data.epoch
  /-- A dump is inside the critical section exactly while the lock is its own. -/
  lock_dump : ∀ (i : Nat) (d : Dump F), s.dumps[i]? = some d → (d.phase.Holds ↔ s.lock = some (.dump i))
  /-- The lock belongs to no dump that does not exist. -/
  lock_lt : ∀ i, s.lock = some (.dump i) → i < s.dumps.length
  /-- And so for the flush. -/
  lock_flush : s.flush.Holds ↔ s.lock = some .flush
  /-- A flush that is about to return has emptied the table. -/
  wiped : s.flush = .leaving → s.table = []

theorem inv_init (store : Store F) (table : Table F) : Inv (init store table) where
  epoch := by simp [init]
  lock_dump := by simp [init]
  lock_lt := by simp [init]
  lock_flush := by simp [init, FlushPhase.Holds]
  wiped := by simp [init]

theorem Inv.takeSnapshot (hI : Inv s) (now : Clock) : Inv (s.takeSnapshot now) := by
  -- a new dump stands at its start, and nobody can hold the lock in its name yet
  have hnew : ∀ i d, (s.takeSnapshot now).dumps[i]? = some d →
      s.dumps[i]? = some d ∨ i = s.dumps.length ∧ d = ⟨s.data.snapshot now, s.data.epoch, .start⟩ := by
    intro i d h
    change (s.dumps ++ [_])[i]? = some d at h
    rw [List.getElem?_append] at h
    split at h
    · exact .inl h
    · rw [List.getElem?_singleton] at h
      split at h
      · exact .inr ⟨by omega, (Option.some.inj h).symm⟩
      · cases h
  refine ⟨fun i d h => ?_, fun i d h => ?_, fun i h => ?_, hI.lock_flush, hI.wiped⟩
  · obtain h | ⟨-, rfl⟩ := hnew i d h
    · exact hI.epoch i d h
    · exact le_refl s.data.epoch
  · obtain h | ⟨rfl, rfl⟩ := hnew i d h
    · exact hI.lock_dump i d h
    · refine ⟨by simp [DumpPhase.Holds], fun h => ?_⟩
      exact absurd (hI.lock_lt _ h) (lt_irrefl _)
  · have := hI.lock_lt i h
    simp only [Threads.takeSnapshot, List.length_append]
    omega

theorem Inv.flush (hI : Inv s) (h : FlushStep s s') : Inv s' := by
  cases h with
  | outside p hs hp =>
    refine ⟨hI.epoch, hI.lock_dump, hI.lock_lt, ?_, fun h => absurd (Or.inr (Or.inl h)) hp⟩
    exact ⟨fun h => absurd h hp, fun h => absurd (hI.lock_flush.2 h) hs⟩
  | acquire hs hl =>
    refine ⟨hI.epoch, fun i d hd => ?_, by simp, by simp [FlushPhase.Holds], by simp⟩
    have := hI.lock_dump i d hd
    simp_all
  | wipe hs =>
    refine ⟨hI.epoch, hI.lock_dump, hI.lock_lt, ?_, fun _ => rfl⟩
    exact ⟨fun _ => hI.lock_flush.1 hs, fun _ => .inr (.inl rfl)⟩
  | abort hs =>
    refine ⟨hI.epoch, hI.lock_dump, hI.lock_lt, ?_, nofun⟩
    exact ⟨fun _ => hI.lock_flush.1 hs, fun _ => .inr (.inr rfl)⟩
  | release hs =>
    have hl := hI.lock_flush.1 hs
    refine ⟨hI.epoch, fun i d hd => ?_, by simp, by simp [FlushPhase.Holds], by simp⟩
    have := hI.lock_dump i d hd
    simp_all

theorem Inv.dump (hI : Inv s) (hd : s.dumps[i]? = some d) (h : DumpStep s i d s') : Inv s' := by
  -- what changes is the phase of this dump, and with it who holds the lock
  have hlt : i < s.dumps.length := (List.getElem?_eq_some_iff.1 hd).1
  have hown := hI.lock_dump i d hd
  have hepoch : ∀ p (j : Nat) (e : Dump F), (s.moveDump i p).dumps[j]? = some e → e.epoch ≤ s.data.epoch := by
    intro p j e he
    rw [moveDump_dumps] at he
    split at he
    · obtain ⟨e', he', rfl⟩ := Option.map_eq_some_iff.1 he
      exact hI.epoch j e' he'
    · exact hI.epoch j e he
  have hothers : ∀ (p : DumpPhase) (l : Option Owner), (p.Holds ↔ l = some (.dump i)) →
    (∀ j, j ≠ i → (s.lock = some (.dump j) ↔ l = some (.dump j))) →
      ∀ (j : Nat) (e : Dump F), (s.moveDump i p).dumps[j]? = some e → (e.phase.Holds ↔ l = some (.dump j)) := by
    intro p l hp hl j e he
    rw [moveDump_dumps] at he
    split at he
    · rename_i hij
      obtain ⟨e', -, rfl⟩ := Option.map_eq_some_iff.1 he
      exact hij ▸ hp
    · rename_i hij
      rw [hI.lock_dump j e he, hl j fun e => hij e.symm]
  cases h with
  | outside p hd' hp =>
    refine ⟨hepoch p, hothers p s.lock ?_ fun _ _ => Iff.rfl, fun j hj => ?_, hI.lock_flush, hI.wiped⟩
    · exact ⟨fun h => absurd h hp, fun h => absurd (hown.2 h) hd'⟩
    · rw [moveDump_length]
      exact hI.lock_lt j hj
  | acquire hd' hl =>
    refine ⟨hepoch .locked, hothers .locked (some (.dump i)) ?_ ?_, fun j hj => ?_, ?_, hI.wiped⟩
    · simp [DumpPhase.Holds]
    · intro j hj
      simp [hl, Ne.symm hj]
    · cases hj
      rw [moveDump_length]
      exact hlt
    · exact ⟨fun h => by simp [hI.lock_flush.1 h] at hl, nofun⟩
  | stay p hd' hp hm =>
    refine ⟨hepoch p, hothers p s.lock ?_ fun _ _ => Iff.rfl, fun j hj => ?_, hI.lock_flush, hI.wiped⟩
    · exact ⟨fun _ => hown.1 hd', fun _ => hp⟩
    · rw [moveDump_length]
      exact hI.lock_lt j hj
  | commit hm =>
    have hh : d.phase.Holds := .inr (.inl hm)
    refine ⟨hepoch .leaving, hothers .leaving s.lock ?_ fun _ _ => Iff.rfl, fun j hj => ?_, hI.lock_flush, fun h => ?_⟩
    · exact ⟨fun _ => hown.1 hh, fun _ => .inr (.inr rfl)⟩
    · rw [moveDump_length]
      exact hI.lock_lt j hj
    · have := hI.lock_flush.1 (.inr (.inl h))
      rw [hown.1 hh] at this
      cases this
  | release hd' =>
    have hl := hown.1 hd'
    refine ⟨hepoch .done, hothers .done none ?_ ?_, by simp, ?_, hI.wiped⟩
    · simp [DumpPhase.Holds]
    · intro j hj
      simp [hl, Ne.symm hj]
    · exact ⟨fun h => by simp [hI.lock_flush.1 h] at hl, nofun⟩

theorem Inv.step (hI : Inv s) (h : Step s s') : Inv s' := by
  cases h with
  | mutate store hs => exact ⟨hI.epoch, hI.lock_dump, hI.lock_lt, hI.lock_flush, hI.wiped⟩
  | snapshot now hs => exact hI.takeSnapshot now
  | clear hs =>
    refine ⟨fun i d hd => Nat.le_succ_of_le (hI.epoch i d hd), hI.lock_dump, hI.lock_lt, ?_, nofun⟩
    refine ⟨by simp [FlushPhase.Holds], fun h => ?_⟩
    have := hI.lock_flush.2 h
    simp [hs, FlushPhase.Holds] at this
  | flush h => exact hI.flush h
  | dump i d hd h => exact hI.dump hd h

theorem inv_of_reachable (h : Reachable s) : Inv s := by
  obtain ⟨store, table, actions, h⟩ := h
  exact trace.invariant (fun _ _ _ hI hs => hI.step (step_of_action hs)) h (inv_init store table)

/-- The first `n` dumps were taken in an epoch that is over. -/
def Stale (n : Nat) (s : Threads F) : Prop :=
  n ≤ s.dumps.length ∧ ∀ (i : Nat) (d : Dump F), i < n → s.dumps[i]? = some d → d.epoch < s.data.epoch

/-- The table holds nothing of the first `n` dumps, and none of them is about to commit. -/
structure Since (n : Nat) (s : Threads F) : Prop where
  stale : Stale n s
  unmatched : ∀ (i : Nat) (d : Dump F), i < n → s.dumps[i]? = some d → d.phase ≠ .matched
  table : s.table = [] ∨ ∃ i d, n ≤ i ∧ s.dumps[i]? = some d ∧ s.table = d.snapshot.entries

/-- What `clear` does to the dumps that are there. -/
theorem stale_clear (hI : Inv s) (h : step s .clear = some s') : Stale s.dumps.length s' := by
  obtain ⟨-, h⟩ := Option.ite_none_right_eq_some.1 h
  cases h
  exact ⟨le_refl _, fun i d _ hd => Nat.lt_succ_of_le (hI.epoch i d hd)⟩

/-- Dumps keep their place, their snapshot and their epoch, and the epoch of the store never goes back. -/
theorem dumps_of_step (h : Step s s') : s.data.epoch ≤ s'.data.epoch ∧ s.dumps.length ≤ s'.dumps.length ∧
    ∀ i d', i < s.dumps.length → s'.dumps[i]? = some d' →
      ∃ d, s.dumps[i]? = some d ∧ d.snapshot = d'.snapshot ∧ d.epoch = d'.epoch := by
  have hsame : ∀ (i : Nat) (d' : Dump F), s.dumps[i]? = some d' → ∃ d, s.dumps[i]? = some d ∧ d.snapshot = d'.snapshot ∧
      d.epoch = d'.epoch :=
    fun i d' h => ⟨d', h, rfl, rfl⟩
  have hmove : ∀ k p (i : Nat) (d' : Dump F), (s.moveDump k p).dumps[i]? = some d' →
      ∃ d : Dump F, s.dumps[i]? = some d ∧ d.snapshot = d'.snapshot ∧ d.epoch = d'.epoch := by
    intro k p i d' h
    rw [moveDump_dumps] at h
    split at h
    · obtain ⟨d, hd, rfl⟩ := Option.map_eq_some_iff.1 h
      exact ⟨d, hd, rfl, rfl⟩
    · exact ⟨d', h, rfl, rfl⟩
  cases h with
  | mutate store hs => exact ⟨le_refl _, le_refl _, fun i d' _ => hsame i d'⟩
  | snapshot now hs =>
    refine ⟨le_refl _, by simp [takeSnapshot], fun i d' hi h => hsame i d' ?_⟩
    change (s.dumps ++ [_])[i]? = some d' at h
    rwa [List.getElem?_append_left hi] at h
  | clear hs => exact ⟨Nat.le_succ _, le_refl _, fun i d' _ => hsame i d'⟩
  | flush h => cases h <;> exact ⟨le_refl _, le_refl _, fun i d' _ => hsame i d'⟩
  | dump k d hd h =>
    cases h
    all_goals exact ⟨le_refl _, (moveDump_length ..).ge, fun i d' _ h => hmove k _ i d' h⟩

theorem Stale.step {n : Nat} (hs : Stale n s) (h : Step s s') : Stale n s' := by
  obtain ⟨he, hl, hd⟩ := dumps_of_step h
  refine ⟨hs.1.trans hl, fun i d' hi hd' => ?_⟩
  obtain ⟨d, hd, -, e⟩ := hd i d' (hi.trans_le hs.1) hd'
  have := hs.2 i d hi hd
  omega

/-- What the return of a flush leaves behind. -/
theorem since_return {n : Nat} (hI : Inv s) (hs : Stale n s) (hl : s.flush = .leaving) (h : step s .flush = some s') :
    Since n s' := by
  have hf : s.lock = some .flush := hI.lock_flush.1 (.inr (.inl hl))
  simp only [Threads.step, stepFlush, hl, Option.some.injEq] at h
  subst h
  refine ⟨hs, fun i d _ hd hm => ?_, .inl (hI.wiped hl)⟩
  have := (hI.lock_dump i d hd).1 (.inr (.inl hm))
  rw [hf] at this
  cases this

theorem Since.step {n : Nat} (hs : Since n s) (h : Step s s') : Since n s' := by
  have hstale := hs.stale.step h
  have hmove : ∀ k d p, s.dumps[k]? = some d → (p = .matched → n ≤ k) →
      ∀ (i : Nat) (e : Dump F), i < n → (s.moveDump k p).dumps[i]? = some e → e.phase ≠ .matched := by
    intro k d p hd hp i e hi he
    rw [moveDump_dumps] at he
    split at he
    · rename_i hki
      obtain ⟨e', -, rfl⟩ := Option.map_eq_some_iff.1 he
      exact fun hm => by have := hp hm; omega
    · exact hs.unmatched i e hi he
  have htable : ∀ k p, s.table = [] ∨ ∃ i d, n ≤ i ∧ (s.moveDump k p).dumps[i]? = some d ∧ s.table = d.snapshot.entries := by
    intro k p
    refine hs.table.imp_right ?_
    rintro ⟨i, d, hn, hd, ht⟩
    refine ⟨i, if k = i then { d with phase := p } else d, hn, ?_, ?_⟩
    · rw [moveDump_dumps, hd]
      split <;> rfl
    · rw [ht]
      split <;> rfl
  cases h with
  | mutate store h => exact ⟨hstale, hs.unmatched, hs.table⟩
  | snapshot now h =>
    refine ⟨hstale, fun i d hi hd => ?_, hs.table.imp_right fun ⟨i, d, hn, hd, ht⟩ => ⟨i, d, hn, ?_, ht⟩⟩
    · change (s.dumps ++ [_])[i]? = some d at hd
      rw [List.getElem?_append_left (hi.trans_le hs.stale.1)] at hd
      exact hs.unmatched i d hi hd
    · change (s.dumps ++ [_])[i]? = some d
      rw [List.getElem?_append_left (List.getElem?_eq_some_iff.1 hd).1]
      exact hd
  | clear h => exact ⟨hstale, hs.unmatched, hs.table⟩
  | flush h =>
    cases h with
    | wipe h => exact ⟨hstale, hs.unmatched, .inl rfl⟩
    | _ => exact ⟨hstale, hs.unmatched, hs.table⟩
  | dump k d hd h =>
    cases h with
    | outside p hd' hp =>
      exact ⟨hstale, hmove k d p hd fun hm => absurd (.inr (.inl hm)) hp, htable k p⟩
    | acquire hd' hl => exact ⟨hstale, hmove k d _ hd nofun, htable k _⟩
    | stay p hd' hp hm =>
      refine ⟨hstale, hmove k d p hd fun h => ?_, htable k p⟩
      -- the comparison of the epochs turns a stale dump away
      by_contra hk
      have := hs.stale.2 k d (not_le.1 hk) hd
      have := hm h
      omega
    | commit hm =>
      have hk : n ≤ k := by
        by_contra hk
        exact hs.unmatched k d (not_le.1 hk) hd hm
      refine ⟨hstale, hmove k d _ hd nofun, .inr ⟨k, { d with phase := .leaving }, hk, ?_, rfl⟩⟩
      rw [moveDump_dumps, if_pos rfl]
      exact congrArg _ hd
    | release hd' => exact ⟨hstale, hmove k d _ hd nofun, htable k _⟩

/-! ## Two dumps -/

/-- A step of one of two dumps, seen from the pair: the phase it goes to, and the table. -/
structure PairStep (P Q : Dump F) (epoch : Nat) (t : Table F) (P' : Dump F) (t' : Table F) : Prop where
  snapshot : P'.snapshot = P.snapshot
  epoch_eq : P'.epoch = P.epoch
  exclusive : ¬(P'.phase.Holds ∧ Q.phase.Holds)
  phase : P.phase = .start ∧ P'.phase = .connected ∧ t' = t ∨
    P.phase = .connected ∧ P'.phase = .locked ∧ t' = t ∨
    P.phase = .locked ∧ P.epoch = epoch ∧ P'.phase = .matched ∧ t' = t ∨
    P.phase = .locked ∧ P.epoch ≠ epoch ∧ P'.phase = .leaving ∧ t' = t ∨
    P.phase = .matched ∧ P'.phase = .leaving ∧ t' = P.snapshot.entries ∨
    P.phase = .leaving ∧ P'.phase = .done ∧ t' = t

theorem pairStep_of_step {t t' : Threads F} {i j : Nat} {P Q : Dump F} (hI : Inv t) (hij : i ≠ j) (hP : t.dumps[i]? = some P)
    (hQ : t.dumps[j]? = some Q) (h : step t (.dump i) = some t') :
    t'.data = t.data ∧ t'.dumps[j]? = some Q ∧
      ∃ P', t'.dumps[i]? = some P' ∧ PairStep P Q t.data.epoch t.table P' t'.table := by
  have hI' := hI.step (step_of_action h)
  have hmoved : ∀ (u : Threads F) p, u.dumps = t.dumps → t' = u.moveDump i p →
      t'.dumps[j]? = some Q ∧ t'.dumps[i]? = some { P with phase := p } := by
    rintro u p hu rfl
    simp [moveDump_dumps, hu, hij, hP, hQ]
  have hex : ∀ p, t'.dumps[j]? = some Q ∧ t'.dumps[i]? = some { P with phase := p } → ¬(p.Holds ∧ Q.phase.Holds) := by
    rintro p ⟨hQ', hP'⟩ ⟨h1, h2⟩
    have e1 := (hI'.lock_dump i _ hP').1 h1
    have e2 := (hI'.lock_dump j _ hQ').1 h2
    rw [e1] at e2
    exact hij (Owner.dump.inj (Option.some.inj e2))
  simp only [step, hP, Option.bind_some, stepDump] at h
  split at h
  case h_2 hp =>
    split at h
    · obtain rfl := (Option.some.inj h).symm
      have hm := hmoved { t with lock := some (.dump i) } .locked rfl rfl
      exact ⟨rfl, hm.1, _, hm.2, rfl, rfl, hex _ hm, by simp [hp]⟩
    · cases h
  case h_3 hp =>
    obtain rfl := (Option.some.inj h).symm
    have hm := hmoved t _ rfl rfl
    refine ⟨rfl, hm.1, _, hm.2, rfl, rfl, hex _ hm, ?_⟩
    by_cases he : t.data.epoch = P.epoch
    · simp [hp, he]
    · simp [hp, he, Ne.symm he]
  case h_6 => cases h
  case h_1 hp =>
    obtain rfl := (Option.some.inj h).symm
    have hm := hmoved t _ rfl rfl
    exact ⟨rfl, hm.1, _, hm.2, rfl, rfl, hex _ hm, by simp [hp]⟩
  case h_4 hp =>
    obtain rfl := (Option.some.inj h).symm
    have hm := hmoved { t with table := P.snapshot.entries } _ rfl rfl
    exact ⟨rfl, hm.1, _, hm.2, rfl, rfl, hex _ hm, by simp [hp]⟩
  case h_5 hp =>
    obtain rfl := (Option.some.inj h).symm
    have hm := hmoved { t with lock := none } _ rfl rfl
    exact ⟨rfl, hm.1, _, hm.2, rfl, rfl, hex _ hm, by simp [hp]⟩

/-- Two dumps `i` and `j` in a state: the older one with the snapshot `A` and the epoch `e`, the newer one with the snapshot
`B` and the epoch `epoch`, which is the one of the store. -/
structure Pair (i j : Nat) (A B : Snapshot F) (e epoch : Nat) (P Q : Dump F) (t : Threads F) : Prop where
  inv : Inv t
  older : t.dumps[i]? = some P ∧ P.snapshot = A ∧ P.epoch = e
  newer : t.dumps[j]? = some Q ∧ Q.snapshot = B ∧ Q.epoch = epoch
  now : t.data.epoch = epoch

/-- The older dump took the lock first: the newer one has the last word. -/
structure OlderFirst (i j : Nat) (A B : Snapshot F) (e epoch : Nat) (t : Threads F) : Prop where
  pair : ∃ P Q, Pair i j A B e epoch P Q t ∧ P.phase.Entered ∧ (Q.phase.Entered → P.phase = .done) ∧
    (Q.phase.Left → t.table = B.entries)

/-- The newer dump took the lock first: if the older one commits, then after it. -/
structure NewerFirst (i j : Nat) (A B : Snapshot F) (e epoch : Nat) (t : Threads F) : Prop where
  pair : ∃ P Q, Pair i j A B e epoch P Q t ∧ Q.phase.Entered ∧ (P.phase.Entered → Q.phase = .done) ∧
    (P.phase = .matched → e = epoch) ∧
    (Q.phase.Left → t.table = if P.phase.Left ∧ e = epoch then A.entries else B.entries)

/-- Neither has. -/
structure Outside (i j : Nat) (A B : Snapshot F) (e epoch : Nat) (t : Threads F) : Prop where
  pair : ∃ P Q, Pair i j A B e epoch P Q t ∧ ¬P.phase.Entered ∧ ¬Q.phase.Entered

section

variable {A B : Snapshot F} {e epoch : Nat} {P Q : Dump F} {t t' : Threads F}

/-- A step of the older dump. -/
theorem Pair.older_step (h : Pair i j A B e epoch P Q t) (hij : i ≠ j) (hs : step t (.dump i) = some t') :
    ∃ P', Pair i j A B e epoch P' Q t' ∧ PairStep P Q epoch t.table P' t'.table := by
  obtain ⟨hd, hQ, P', hP', hstep⟩ := pairStep_of_step h.inv hij h.older.1 h.newer.1 hs
  rw [h.now] at hstep
  refine ⟨P', ⟨h.inv.step (step_of_action hs), ⟨hP', ?_, ?_⟩, ⟨hQ, h.newer.2⟩, ?_⟩, hstep⟩
  · rw [hstep.snapshot, h.older.2.1]
  · rw [hstep.epoch_eq, h.older.2.2]
  · rw [hd, h.now]

/-- A step of the newer dump. -/
theorem Pair.newer_step (h : Pair i j A B e epoch P Q t) (hij : i ≠ j) (hs : step t (.dump j) = some t') :
    ∃ Q', Pair i j A B e epoch P Q' t' ∧ PairStep Q P epoch t.table Q' t'.table := by
  obtain ⟨hd, hP, Q', hQ', hstep⟩ := pairStep_of_step h.inv hij.symm h.newer.1 h.older.1 hs
  rw [h.now] at hstep
  refine ⟨Q', ⟨h.inv.step (step_of_action hs), ⟨hP, h.older.2⟩, ⟨hQ', ?_, ?_⟩, ?_⟩, hstep⟩
  · rw [hstep.snapshot, h.newer.2.1]
  · rw [hstep.epoch_eq, h.newer.2.2]
  · rw [hd, h.now]

theorem OlderFirst.step {a : Action F} (h : OlderFirst i j A B e epoch t) (hij : i ≠ j) (ha : a = .dump i ∨ a = .dump j)
    (hs : Threads.step t a = some t') : OlderFirst i j A B e epoch t' := by
  obtain ⟨P, Q, hp, hP, hQP, hQ⟩ := h
  have hB := hp.newer.2
  rcases ha with rfl | rfl
  · obtain ⟨P', hp', hstep⟩ := hp.older_step hij hs
    have hph := hstep.phase
    refine ⟨P', Q, hp', ?_, ?_, ?_⟩
    · grind [DumpPhase.Entered]
    · grind [DumpPhase.Entered]
    · grind [DumpPhase.Entered, DumpPhase.Left]
  · obtain ⟨Q', hp', hstep⟩ := hp.newer_step hij hs
    have hph := hstep.phase
    have hex := hstep.exclusive
    have hP' := P.phase.entered_iff.1 hP
    refine ⟨P, Q', hp', hP, ?_, ?_⟩
    · grind [DumpPhase.Entered, DumpPhase.Holds]
    · grind [DumpPhase.Entered, DumpPhase.Left]

theorem NewerFirst.step {a : Action F} (h : NewerFirst i j A B e epoch t) (hij : i ≠ j) (ha : a = .dump i ∨ a = .dump j)
    (hs : Threads.step t a = some t') : NewerFirst i j A B e epoch t' := by
  obtain ⟨P, Q, hp, hQ, hPQ, hm, ht⟩ := h
  have hA := hp.older.2
  have hB := hp.newer.2
  rcases ha with rfl | rfl
  · obtain ⟨P', hp', hstep⟩ := hp.older_step hij hs
    have hph := hstep.phase
    have hex := hstep.exclusive
    have hQ' := Q.phase.entered_iff.1 hQ
    refine ⟨P', Q, hp', hQ, ?_, ?_, ?_⟩
    · grind [DumpPhase.Entered, DumpPhase.Holds]
    · grind
    · grind [DumpPhase.Entered, DumpPhase.Left]
  · obtain ⟨Q', hp', hstep⟩ := hp.newer_step hij hs
    have hph := hstep.phase
    refine ⟨P, Q', hp', ?_, ?_, hm, ?_⟩
    · grind [DumpPhase.Entered]
    · grind [DumpPhase.Entered]
    · grind [DumpPhase.Entered, DumpPhase.Left]

/-- The older dump has taken the lock and the newer one has not. -/
theorem OlderFirst.of_pair (hp : Pair i j A B e epoch P Q t) (hP : P.phase.Entered) (hQ : ¬Q.phase.Entered) :
    OlderFirst i j A B e epoch t := by
  refine ⟨P, Q, hp, hP, fun h => absurd h hQ, fun h => ?_⟩
  rcases h with h | h
  · exact absurd (by simp [h, DumpPhase.Entered]) hQ
  · exact absurd (by simp [h, DumpPhase.Entered]) hQ

theorem Outside.step {a : Action F} (h : Outside i j A B e epoch t) (hij : i ≠ j) (ha : a = .dump i ∨ a = .dump j)
    (hs : Threads.step t a = some t') :
    Outside i j A B e epoch t' ∨ (∃ P Q, Pair i j A B e epoch P Q t' ∧ P.phase.Entered ∧ ¬Q.phase.Entered) ∨
      NewerFirst i j A B e epoch t' := by
  obtain ⟨P, Q, hp, hP, hQ⟩ := h
  rcases ha with rfl | rfl
  · obtain ⟨P', hp', hstep⟩ := hp.older_step hij hs
    by_cases hP' : P'.phase.Entered
    · exact .inr (.inl ⟨P', Q, hp', hP', hQ⟩)
    · exact .inl ⟨P', Q, hp', hP', hQ⟩
  · obtain ⟨Q', hp', hstep⟩ := hp.newer_step hij hs
    have hph := hstep.phase
    by_cases hQ' : Q'.phase.Entered
    · refine .inr (.inr ⟨P, Q', hp', hQ', ?_, ?_, ?_⟩)
      · exact fun h => absurd h hP
      · grind [DumpPhase.Entered]
      · grind [DumpPhase.Entered, DumpPhase.Left]
    · exact .inl ⟨P, Q', hp', hP, hQ'⟩

end

end Threads

end Kagni
