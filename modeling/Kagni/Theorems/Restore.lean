import Kagni.Lemmas.Expiry

/-!
# A snapshot survives a restart

`snapshot` turns monotonic deadlines into wall-clock ones and `restore` turns them back, under another origin of the monotonic
clock. What comes back are the keys that were live and still would be, each with its value and with a lifetime shorter by the
time that has passed. The shape test of `restore` takes no stored value for a pair.
-/

namespace Kagni

open Lib Lib.Prog

variable {F : Type}

/-- What is restored under a key is made of the row of that key alone. -/
theorem restoreItems_get (rows : Dict Value (SnapshotItem F)) (now : Clock) (key : Value) :
    (restoreItems rows now).get key = (rows.get key).bind fun item => restoreItem item now := by
  rw [restoreItems, Dict.get_foldl_set (fun item => restoreItem item now) _ ?_ rows.entries rows.nodup ∅ key, Dict.get_empty,
    Option.or_none]
  · rfl
  · intro storage p
    cases restoreItem p.2 now with
    | none => simp only [Option.elim_none]
    | some e => simp only [Option.elim_some]

/-- A row of `snapshot` is read back as the value and the deadline it holds. -/
theorem split_ofRow (row : Obj F × Option Int) : (SnapshotItem.ofRow row).split = (.obj row.1, row.2) := by
  obtain ⟨value, deadline⟩ := row
  cases deadline <;> rfl

/-- A deadline at the instant of the restore has passed. -/
theorem restoreItem_ofRow (value : Obj F) (deadline : Option Int) (now : Clock) :
    restoreItem (.ofRow (value, deadline)) now = match deadline with
      | none => some (.obj value, none)
      | some t => if now.wall < t then some (.obj value, some (now.mono + (t - now.wall))) else none := by
  unfold restoreItem
  rw [split_ofRow]
  cases deadline with
  | none => rfl
  | some t =>
    dsimp only
    by_cases h : now.wall < t
    · rw [if_pos h, if_neg (by omega)]
    · rw [if_neg h, if_pos (by omega)]

/-- What `restore` makes of the snapshot of a store, `d` nanoseconds later: the live keys whose lifetime is longer than `d`, with
a lifetime shorter by `d`. A snapshot of plain values comes back without deadlines. -/
theorem snapshot_restore (ctx : Ctx) (k : KState F) (hctx : ctx.PurgeReturns F) (now : Clock) (d : Int)
    (hwall : now.wall = ctx.clock.wall + d) :
    ∃ out k', snapshot ctx k = (.ok out, k') ∧
      (∀ key, (restoreItems (out.mapValues fun _ row => .ofRow row) now).get key =
        ((k.store.content ctx.clock.mono).lookup key).bind fun e => match e.expires_at with
          | none => some (.obj e.value, none)
          | some t =>
            let lifetime := t - ctx.clock.mono
            if d < lifetime then some (.obj e.value, some (now.mono + (lifetime - d))) else none) ∧
      ∀ (legacy : Dict Value (Obj F)) key,
        (restoreItems (legacy.mapValues fun _ value => .obj value) now).get key =
          (legacy.get key).map fun value => (.obj value, none) := by
  obtain ⟨k', hrun, -⟩ := sweep_run hctx k
  refine ⟨k.store.snapshot ctx.clock, k', bind_ok ctx k hrun, fun key => ?_, fun legacy key => ?_⟩
  · rw [restoreItems_get, Dict.get_mapValues, Store.snapshot, Dict.get_mapValues, Store.content, Dict.lookup_toFinmap]
    cases (k.store.storage.filter fun p => p.2.live ctx.clock.mono).get key with
    | none => rfl
    | some e =>
      rw [Option.map_some, Option.map_some, Option.bind_some, Option.bind_some, restoreItem_ofRow]
      cases e.expires_at with
      | none => rfl
      | some t =>
        dsimp only [Option.map_some]
        -- both clocks agree on the lifetime that is left
        have hleft : ctx.clock.wall + (t - ctx.clock.mono) - now.wall = t - ctx.clock.mono - d := by omega
        rw [hleft]
        by_cases h : d < t - ctx.clock.mono
        · rw [if_pos h, if_pos (by omega)]
        · rw [if_neg h, if_neg (by omega)]
  · rw [restoreItems_get, Dict.get_mapValues]
    cases legacy.get key <;> rfl

/-- With the notifications off the snapshot is taken, and the wall clock of every later instant is a distance from it. -/
theorem snapshot_restore_plain : ∃ out k', snapshot (F := Int) ⟨.plain, ⟨5, 100⟩, ⟨∅, ∅⟩, [], 0⟩
    ⟨⟨Dict.set ∅ (.bytes (bs "k")) ⟨.raw (.bytes (bs "v")), some 9⟩, ∅⟩, [], 0⟩ = (.ok out, k') ∧
    (restoreItems (out.mapValues fun _ row => .ofRow row) ⟨1, 103⟩).get (.bytes (bs "k")) =
      some (.obj (.raw (.bytes (bs "v"))), some 2) := by
  obtain ⟨out, k', hrun, hrows, -⟩ := snapshot_restore (F := Int) ⟨.plain, ⟨5, 100⟩, ⟨∅, ∅⟩, [], 0⟩
    ⟨⟨Dict.set ∅ (.bytes (bs "k")) ⟨.raw (.bytes (bs "v")), some 9⟩, ∅⟩, [], 0⟩ (Ctx.purgeReturns_of_off rfl) ⟨1, 103⟩ 3 rfl
  refine ⟨out, k', hrun, ?_⟩
  rw [hrows, Store.content_lookup]
  rfl

end Kagni
