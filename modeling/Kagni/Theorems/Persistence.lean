import Kagni.Lemmas.Threads

/-!
# Dumps and flushes under every interleaving

A flush is not undone by a dump that was in flight; and at the shutdown of the asyncio backend, where the last periodic dump may
still run, the final snapshot stays in the table exactly when that dump cannot commit after it.
-/

namespace Kagni

open Lib

variable {F : Type}

namespace Threads

/-! ## A flush is final -/

/-- From the moment a flush returns, the table is empty or holds the snapshot of a dump that was started after its `clear`. -/
theorem flush_not_undone {s s' t t' u : Threads F} (between after : List (Action F)) (hr : Reachable s)
    (hclear : step s .clear = some s') (hbetween : trace step s' between = some t) (hreturn : t.flush = .leaving)
    (hflush : step t .flush = some t') (hafter : trace step t' after = some u) :
    u.table = [] ∨
      ∃ i d, s.dumps.length ≤ i ∧ u.dumps[i]? = some d ∧ u.table = d.snapshot.entries := by
  have hI := inv_of_reachable hr
  have hmid : Inv t ∧ Stale s.dumps.length t :=
    trace.invariant (I := fun t => Inv t ∧ Stale s.dumps.length t)
      (fun _ _ _ h hs => ⟨h.1.step (step_of_action hs), h.2.step (step_of_action hs)⟩) hbetween
      ⟨hI.step (step_of_action hclear), stale_clear hI hclear⟩
  have hend : Since s.dumps.length u :=
    trace.invariant (fun _ _ _ h hs => h.step (step_of_action hs)) hafter (since_return hmid.1 hmid.2 hreturn hflush)
  exact hend.table

/-- A dump whose comparison of the epochs is behind it when the store is cleared: it commits the old row, and the flush that waits
for its lock empties the table after it. -/
theorem flush_not_undone_matched :
    ∃ u : Threads Unit, trace step (init ⟨(∅ : Dict Value (Entry Unit)).set .null ⟨.raw .null, none⟩, ∅⟩ [])
        ([.snapshot ⟨0, 0⟩, .dump 0, .dump 0, .dump 0] ++ [.clear, .flush, .dump 0, .dump 0, .flush, .flush] ++ [.flush]) =
          some u ∧
      (u.table = [] ∨ ∃ i d, 1 ≤ i ∧ u.dumps[i]? = some d ∧ u.table = d.snapshot.entries) :=
  ⟨_, rfl, flush_not_undone [.flush, .dump 0, .dump 0, .flush, .flush] []
    ⟨_, _, [.snapshot ⟨0, 0⟩, .dump 0, .dump 0, .dump 0], rfl⟩ rfl rfl rfl rfl rfl⟩

/-! ## The final snapshot -/

/-- In the schedule, the dump `i` takes the lock at a point where the dump `j` has not. -/
def LocksFirst (i j : Nat) (s : Threads F) (schedule : List (Action F)) : Prop :=
  ∃ before after t P Q, schedule = before ++ after ∧ trace step s before = some t ∧ t.dumps[i]? = some P ∧
    t.dumps[j]? = some Q ∧ P.phase.Entered ∧ ¬Q.phase.Entered

variable {i j : Nat} {A B : Snapshot F} {e epoch : Nat} {t u : Threads F} {schedule : List (Action F)}

theorem OlderFirst.run (h : OlderFirst i j A B e epoch t) (hij : i ≠ j) (hs : ∀ a ∈ schedule, a = .dump i ∨ a = .dump j)
    (hrun : trace Threads.step t schedule = some u) : OlderFirst i j A B e epoch u :=
  trace.invariant_of_forall (fun _ _ _ ha h hs => h.step hij ha hs) hs hrun h

theorem NewerFirst.run (h : NewerFirst i j A B e epoch t) (hij : i ≠ j) (hs : ∀ a ∈ schedule, a = .dump i ∨ a = .dump j)
    (hrun : trace Threads.step t schedule = some u) : NewerFirst i j A B e epoch u :=
  trace.invariant_of_forall (fun _ _ _ ha h hs => h.step hij ha hs) hs hrun h

/-- While neither has taken the lock, the schedule decides who does. -/
theorem Outside.run (h : Outside i j A B e epoch t) (hij : i ≠ j) (hs : ∀ a ∈ schedule, a = .dump i ∨ a = .dump j)
    (hrun : trace Threads.step t schedule = some u) :
    Outside i j A B e epoch u ∨ LocksFirst i j t schedule ∨ NewerFirst i j A B e epoch u := by
  induction schedule generalizing t with
  | nil =>
    cases hrun
    exact .inl h
  | cons a schedule ih =>
    obtain ⟨t', ht', hrun⟩ := trace.cons_eq_some.1 hrun
    have hs' := fun b hb => hs b (List.mem_cons_of_mem a hb)
    obtain h | ⟨P, Q, hp, hP, hQ⟩ | h := h.step hij (hs a (by simp)) ht'
    · obtain h | ⟨before, after, v, P, Q, rfl, hv, hPQ⟩ | h := ih h hs' hrun
      · exact .inl h
      · exact .inr (.inl ⟨a :: before, after, v, P, Q, rfl, trace.cons_eq_some.2 ⟨t', ht', hv⟩, hPQ⟩)
      · exact .inr (.inr h)
    · exact .inr (.inl ⟨[a], schedule, t', P, Q, rfl, by simp [trace, ht'], hp.older.1, hp.newer.1, hP, hQ⟩)
    · exact .inr (.inr (h.run hij hs' hrun))

/-- Who takes the lock first has the table last written by the other. -/
theorem LocksFirst.olderFirst {P Q : Dump F} (hp : Pair i j A B e epoch P Q t) (hij : i ≠ j)
    (hs : ∀ a ∈ schedule, a = .dump i ∨ a = .dump j) (hrun : trace Threads.step t schedule = some u)
    (h : LocksFirst i j t schedule) : OlderFirst i j A B e epoch u := by
  obtain ⟨before, after, v, P', Q', rfl, hv, hP', hQ', hP, hQ⟩ := h
  obtain ⟨v', hv', hrun⟩ := Option.bind_eq_some_iff.1 (trace.append ▸ hrun)
  rw [hv] at hv'
  cases hv'
  have hpair : ∃ P Q, Pair i j A B e epoch P Q v := by
    refine trace.invariant_of_forall (I := fun t => ∃ P Q, Pair i j A B e epoch P Q t) (fun s a s' ha h hs => ?_)
      (fun a ha => hs a (by simp [ha])) hv ⟨P, Q, hp⟩
    obtain ⟨P, Q, hp⟩ := h
    rcases ha with rfl | rfl
    · obtain ⟨P', hp', -⟩ := hp.older_step hij hs
      exact ⟨P', Q, hp'⟩
    · obtain ⟨Q', hp', -⟩ := hp.newer_step hij hs
      exact ⟨P, Q', hp'⟩
  obtain ⟨P, Q, hp⟩ := hpair
  have hPP' : P = P' := Option.some.inj (hp.older.1.symm.trans hP')
  have hQQ' : Q = Q' := Option.some.inj (hp.newer.1.symm.trans hQ')
  refine (OlderFirst.of_pair hp ?_ ?_).run hij (fun a ha => hs a (by simp [ha])) hrun
  · rwa [hPP']
  · rwa [hQQ']

/-- At the shutdown of the asyncio backend a dump `i` may still run beside the dump of the final snapshot. Once both are done, the
table is the final snapshot exactly when the older dump stands down, carries the same snapshot, or takes the lock first. -/
theorem final_snapshot_wins_iff {s s' u : Threads F} {i : Nat} {d : Dump F} {now : Clock} (schedule : List (Action F))
    (hr : Reachable s) (hd : s.dumps[i]? = some d) (hfinal : step s (.snapshot now) = some s')
    (hs : ∀ a ∈ schedule, a = .dump i ∨ a = .dump s.dumps.length) (hrun : trace step s' schedule = some u)
    (hdone : ∀ k d', k = i ∨ k = s.dumps.length → u.dumps[k]? = some d' → d'.phase = .done) :
    Agrees u.table (s.data.snapshot now) ↔
      d.epoch ≠ s.data.epoch ∨ (∀ key, d.snapshot.get key = (s.data.snapshot now).get key) ∨
        LocksFirst i s.dumps.length s' schedule := by
  have hlt : i < s.dumps.length := (List.getElem?_eq_some_iff.1 hd).1
  have hij : i ≠ s.dumps.length := hlt.ne
  obtain ⟨-, hfinal⟩ := Option.ite_none_right_eq_some.1 hfinal
  obtain rfl := Option.some.inj hfinal
  -- the pair as it stands when the final dump is issued
  have hpair : Pair i s.dumps.length d.snapshot (s.data.snapshot now) d.epoch s.data.epoch d
      ⟨s.data.snapshot now, s.data.epoch, .start⟩ (s.takeSnapshot now) := by
    refine ⟨(inv_of_reachable hr).takeSnapshot now, ⟨?_, rfl, rfl⟩, ⟨?_, rfl, rfl⟩, rfl⟩
    · change (s.dumps ++ [_])[i]? = some d
      rw [List.getElem?_append_left hlt, hd]
    · change (s.dumps ++ [_])[s.dumps.length]? = some _
      simp
  have hend : ∀ P Q, Pair i s.dumps.length d.snapshot (s.data.snapshot now) d.epoch s.data.epoch P Q u →
      P.phase = .done ∧ Q.phase = .done :=
    fun P Q hp => ⟨hdone i P (.inl rfl) hp.older.1, hdone _ Q (.inr rfl) hp.newer.1⟩
  have holder : OlderFirst i s.dumps.length d.snapshot (s.data.snapshot now) d.epoch s.data.epoch u →
      Agrees u.table (s.data.snapshot now) := by
    rintro ⟨P, Q, hp, -, -, ht⟩ key
    rw [ht (.inr (hend P Q hp).2), DB.load_entries]
  have hnewer : NewerFirst i s.dumps.length d.snapshot (s.data.snapshot now) d.epoch s.data.epoch u →
      u.table = if d.epoch = s.data.epoch then d.snapshot.entries else (s.data.snapshot now).entries := by
    rintro ⟨P, Q, hp, -, -, -, ht⟩
    rw [ht (.inr (hend P Q hp).2)]
    simp [DumpPhase.Left, (hend P Q hp).1]
  have hcases : LocksFirst i s.dumps.length (s.takeSnapshot now) schedule ∨
      NewerFirst i s.dumps.length d.snapshot (s.data.snapshot now) d.epoch s.data.epoch u := by
    by_cases hP : d.phase.Entered
    · exact .inl ⟨[], schedule, _, _, _, rfl, rfl, hpair.older.1, hpair.newer.1, hP, by simp [DumpPhase.Entered]⟩
    · have hout : Outside i s.dumps.length d.snapshot (s.data.snapshot now) d.epoch s.data.epoch (s.takeSnapshot now) :=
        ⟨d, _, hpair, hP, by simp [DumpPhase.Entered]⟩
      obtain ⟨P, Q, hp, hP, -⟩ | h := hout.run hij hs hrun
      · exact absurd (by simp [(hend P Q hp).1, DumpPhase.Entered]) hP
      · exact h
  constructor
  · intro h
    obtain hfirst | hn := hcases
    · exact .inr (.inr hfirst)
    · by_cases he : d.epoch = s.data.epoch
      · refine .inr (.inl fun key => ?_)
        rw [← h key, hnewer hn, if_pos he, DB.load_entries]
      · exact .inl he
  · intro h
    by_cases hfirst : LocksFirst i s.dumps.length (s.takeSnapshot now) schedule
    · exact holder (hfirst.olderFirst hpair hij hs hrun)
    · have hn := hcases.resolve_left hfirst
      intro key
      obtain he | hsame | h := h
      · rw [hnewer hn, if_neg he, DB.load_entries]
      · rw [hnewer hn]
        split
        · rw [DB.load_entries, hsame key]
        · rw [DB.load_entries]
      · exact absurd h hfirst

/-- A server that holds one key. -/
def oneKey (value : Bytes) : Store Unit := ⟨(∅ : Dict Value (Entry Unit)).set (.bytes [107]) ⟨.raw (.bytes value), none⟩, ∅⟩

/-- The older dump waits while the final one runs, and then commits the value the key had before the last write. -/
theorem final_snapshot_lost : ∃ (s s' u : Threads Unit) (d : Dump Unit),
    trace step (init (oneKey [1]) []) [.snapshot ⟨0, 0⟩, .dump 0, .mutate (oneKey [2])] = some s ∧
      s.dumps[0]? = some d ∧ step s (.snapshot ⟨0, 0⟩) = some s' ∧
      trace step s' [.dump 1, .dump 1, .dump 1, .dump 1, .dump 1, .dump 0, .dump 0, .dump 0, .dump 0] = some u ∧
      (∀ k d', k = 0 ∨ k = 1 → u.dumps[k]? = some d' → d'.phase = .done) ∧
      ¬Agrees u.table (s.data.snapshot ⟨0, 0⟩) := by
  refine ⟨_, _, _, _, rfl, rfl, rfl, rfl, ?_, fun h => ?_⟩
  · rintro k d' (rfl | rfl) h <;> cases h <;> rfl
  · have hk : some ((Obj.raw (.bytes [1]) : Obj Unit), (none : Option Int)) = some (.raw (.bytes [2]), none) :=
      h (.bytes [107])
    cases hk

/-- The older dump takes the lock first. -/
theorem final_snapshot_wins_iff_first : ∃ (s s' u : Threads Unit) (d : Dump Unit),
    trace step s' [.dump 0, .dump 1, .dump 0, .dump 0, .dump 0, .dump 1, .dump 1, .dump 1, .dump 1] = some u ∧
      (Agrees u.table (s.data.snapshot ⟨0, 0⟩) ↔
        d.epoch ≠ s.data.epoch ∨ (∀ key, d.snapshot.get key = (s.data.snapshot ⟨0, 0⟩).get key) ∨
          LocksFirst 0 1 s' [.dump 0, .dump 1, .dump 0, .dump 0, .dump 0, .dump 1, .dump 1, .dump 1, .dump 1]) := by
  refine ⟨_, _, _, _, ?_, final_snapshot_wins_iff _
    ⟨oneKey [1], [], [.snapshot ⟨0, 0⟩, .dump 0, .mutate (oneKey [2])], rfl⟩ rfl rfl ?_ rfl ?_⟩
  · rfl
  · intro a ha
    simp only [List.mem_cons, List.not_mem_nil, or_false] at ha
    rcases ha with rfl | rfl | rfl | rfl | rfl | rfl | rfl | rfl | rfl <;> first | exact .inl rfl | exact .inr rfl
  · rintro k d' (rfl | rfl) h <;> cases h <;> rfl

end Threads

end Kagni
