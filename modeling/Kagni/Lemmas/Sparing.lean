import Kagni.Lemmas.Atomic
import Kagni.Lemmas.Locality

/-!
# Keys that a program does not work on

Whether or not events are published, and whether or not publishing one raises, a program leaves what is under the other keys
as it is.
-/

namespace Kagni

open Lib Lib.Prog

variable {F : Type} {α : Type} {ctx : Ctx} {key other : Value} {o : Option (Entry F)} {m : K F α}

/-- The program leaves the live entry of the key as it is, or that there is none. -/
abbrev Sparing (ctx : Ctx) (key : Value) (o : Option (Entry F)) (m : K F α) (Q : α → Prop) : Prop :=
  Keeps ctx (fun k : KState F => (k.store.content ctx.clock.mono).lookup key = o) m Q

theorem sparing_of_same (h : Respects SameStore m) : Sparing ctx key o m fun _ => True :=
  .of_respects fun ctx' k hk => by
    have hsame : (m ctx' k).2.store = k.store := h ctx' k
    rw [hsame]
    exact hk

theorem sparing_erase (hne : key ≠ other) : Sparing ctx key o (setStorage (·.erase other)) fun _ => True :=
  .modify fun k hk => (congrArg (Finmap.lookup key) (Store.content_erase k.store ctx.clock.mono other)).trans
    ((Finmap.lookup_erase_ne hne).trans hk)

theorem sparing_put (hne : key ≠ other) (e : Entry F) : Sparing ctx key o (setStorage (·.set other e)) fun _ => True := by
  refine .modify fun k hk => (congrArg (Finmap.lookup key) (Store.content_set k.store ctx.clock.mono other e)).trans ?_
  unfold Content.put
  split
  · exact (Finmap.lookup_insert_of_ne _ hne).trans hk
  · exact (Finmap.lookup_erase_ne hne).trans hk

theorem sparing_clock : Sparing ctx key o (clock : K F Clock) fun _ => True := sparing_of_same (.bind .ask fun _ => .pure)

theorem sparing_entry (other : Value) : Sparing ctx key o (entry other : K F _) fun _ => True :=
  sparing_of_same (.bind (sameStore_needHash other) fun _ => .bind .get fun _ => .pure)

theorem sparing_purge (hne : key ≠ other) : Sparing ctx key o (_purge_key other : K F Unit) fun _ => True :=
  (sparing_erase hne).bind fun _ _ => sparing_of_same (sameStore_notify other .expired)

theorem sparing_get (hne : key ≠ other) : Sparing ctx key o (data_get other : K F _) fun _ => True := by
  refine (sparing_entry other).bind ?_
  intro e _
  cases e with
  | none => exact .pure trivial
  | some e =>
    refine sparing_clock.bind ?_
    intro now _
    refine .ite (fun _ => ?_) fun _ => (sparing_purge hne).bind fun _ _ => .pure trivial
    split
    · exact .pure trivial
    · exact .pure trivial

theorem sparing_is_live (other : Value) : Sparing ctx key o (is_live other : K F Bool) fun _ => True := by
  refine (sparing_entry other).bind ?_
  intro e _
  cases e with
  | none => exact .pure trivial
  | some e => exact sparing_clock.bind fun _ _ => .pure trivial

theorem sparing_needHash (v : Value) : Sparing ctx key o (needHash v : K F Unit) fun _ => v.hashable = true :=
  .ite (fun h => .pure h) fun _ => .raise

theorem sparing_data_set (hne : key ≠ other) (value : Obj F) (deadline : Option Int) (keep_ttl : Bool) :
    Sparing ctx key o (data_set other value deadline keep_ttl) fun _ => other.hashable = true := by
  have hentry : Sparing ctx key o (entry other : K F (Option (Entry F))) fun _ => other.hashable = true :=
    (sparing_needHash other).bind fun _ h => Keeps.get.bind fun _ _ => .pure h
  refine sparing_clock.bind ?_
  intro _ _
  refine hentry.bind ?_
  intro _ h
  exact (sparing_put hne _).weaken fun _ _ => h

theorem sparing_setitem (hne : key ≠ other) (value : Obj F) :
    Sparing ctx key o (setitem other value) fun _ => other.hashable = true := by
  refine (sparing_needHash other).bind ?_
  intro _ h
  exact (sparing_put hne _).weaken fun _ _ => h

theorem sparing_store_value (hne : key ≠ other) (value : Obj F) : Sparing ctx key o (store_value other value) fun _ => True := by
  intro k hk
  unfold store_value setStorage Prog.modify
  dsimp only
  split
  · rename_i e _
    exact sparing_put hne { e with value := value } k hk
  · exact ⟨hk, trivial⟩

theorem sparing_remove (hne : key ≠ other) : Sparing ctx key o (data_remove other : K F Bool) fun _ => True := by
  refine (sparing_entry other).bind ?_
  intro e _
  cases e with
  | none => exact .pure trivial
  | some e =>
    refine (sparing_erase hne).bind ?_
    intro _ _
    exact sparing_clock.bind fun _ _ => .pure trivial

theorem sparing_expire (hne : key ≠ other) (secs : Int) :
    Sparing ctx key o (data_expire other secs : K F Bool) fun _ => True := by
  refine (sparing_entry other).bind ?_
  intro e _
  cases e with
  | none => exact .pure trivial
  | some e =>
    refine sparing_clock.bind ?_
    intro now _
    refine .ite (fun _ => ?_) fun _ => .ite (fun _ => ?_) fun _ => ?_
    · exact (sparing_purge hne).bind fun _ _ => .pure trivial
    · exact (sparing_erase hne).bind fun _ _ => .pure trivial
    · exact (sparing_put hne _).bind fun _ _ => .pure trivial

theorem sparing_expire_at (hne : key ≠ other) (wall_deadline_ns : Int) :
    Sparing ctx key o (data_expire_at other wall_deadline_ns : K F Bool) fun _ => True := by
  refine (sparing_entry other).bind ?_
  intro e _
  cases e with
  | none => exact .pure trivial
  | some e =>
    refine sparing_clock.bind ?_
    intro now _
    refine .ite (fun _ => ?_) fun _ => .ite (fun _ => ?_) fun _ => ?_
    · exact (sparing_purge hne).bind fun _ _ => .pure trivial
    · exact (sparing_erase hne).bind fun _ _ => .pure trivial
    · exact (sparing_put hne _).bind fun _ _ => .pure trivial

theorem sparing_wall_expiry (hne : key ≠ other) : Sparing ctx key o (wall_expiry other : K F Int) fun _ => True := by
  refine (sparing_entry other).bind ?_
  intro e _
  cases e with
  | none => exact .pure trivial
  | some e =>
    refine sparing_clock.bind ?_
    intro now _
    split
    · exact .pure trivial
    · exact .ite (fun _ => (sparing_purge hne).bind fun _ _ => .pure trivial) fun _ => .pure trivial

theorem sparing_ttl_ms (hne : key ≠ other) : Sparing ctx key o (ttl_ms other : K F Int) fun _ => True := by
  refine (sparing_entry other).bind ?_
  intro e _
  cases e with
  | none => exact .pure trivial
  | some e =>
    dsimp only
    split
    · exact .pure trivial
    · refine sparing_clock.bind ?_
      intro _ _
      exact .ite (fun _ => (sparing_purge hne).bind fun _ _ => .pure trivial) fun _ => .pure trivial

theorem sparing_persist (hne : key ≠ other) : Sparing ctx key o (persist other : K F Bool) fun _ => True := by
  refine (sparing_entry other).bind ?_
  intro e _
  cases e with
  | none => exact .pure trivial
  | some e =>
    refine sparing_clock.bind ?_
    intro now _
    refine .ite (fun _ => ?_) fun _ => .ite (fun _ => .pure trivial) fun _ => ?_
    · exact (sparing_erase hne).bind fun _ _ => .pure trivial
    · exact (sparing_put hne _).bind fun _ _ => .pure trivial

variable [PyFloat F] {A S S' : Set Value} {clock : Clock} {Q : α → Prop}

theorem sparing_sweep : Sparing ctx key o (_sweep : K F Unit) fun _ => True := by
  intro k hk
  have hcontent := content_of_reads (Q := fun _ => True) (fun w => w.reads_sweep) ctx k
  revert hcontent
  cases _sweep ctx k with
  | mk out k' =>
    intro hcontent
    cases out with
    | ok a => exact ⟨(congrArg (Finmap.lookup key) hcontent).trans hk, trivial⟩
    | error e => exact (congrArg (Finmap.lookup key) hcontent).trans hk

/-- An access to other keys. -/
theorem Access.sparing (h : Access (.within A ctx.clock) S α m Q S') (hkey : key ∉ A) (hS : S ⊆ A) :
    Sparing ctx key o m fun a => S' ⊆ A ∧ Q a := by
  have hne : ∀ {other}, other ∈ A → key ≠ other := fun hother heq => hkey (heq ▸ hother)
  have hmem : ∀ {other}, (Discipline.within A ctx.clock).Seen S other → other ∈ A := fun h => h.elim (fun h => hS h) id
  cases h with
  | ask f => exact fun k hk => ⟨hk, hS, _, _, rfl⟩
  | draw n => exact fun k hk => ⟨hk, hS, fun hn => Nat.mod_lt _ hn⟩
  | get f hlook hf =>
    exact (sparing_get (hne hlook)).bind fun e _ => .pure ⟨Set.insert_subset hlook hS, e, fun v _ => ⟨hlook, obj_within v⟩, rfl⟩
  | is_live hlook => exact (sparing_is_live _).weaken fun _ _ => ⟨hS, fun _ => hlook⟩
  | sweep => exact sparing_sweep.weaken fun _ _ => ⟨hS, trivial⟩
  | index f hscan => exact hscan.elim
  | data_set _ _ h _ _ => exact (sparing_data_set (hne (hmem h)) _ _ _).weaken fun _ hhash => ⟨hS, hhash⟩
  | setitem _ _ h => exact (sparing_setitem (hne (hmem h)) _).weaken fun _ hhash => ⟨hS, hhash⟩
  | store_value _ hlook _ => exact (sparing_store_value (hne hlook) _).weaken fun _ _ => ⟨hS, trivial⟩
  | remove f _ h => exact (sparing_remove (hne (hmem h))).bind fun b _ => .pure ⟨hS, b, fun _ => hmem h, rfl⟩
  | expire secs hlook => exact (sparing_expire (hne hlook) secs).weaken fun _ _ => ⟨hS, fun _ => hlook⟩
  | expire_at wall_deadline_ns hlook =>
    exact (sparing_expire_at (hne hlook) wall_deadline_ns).weaken fun _ _ => ⟨hS, fun _ => hlook⟩
  | wall_expiry hlook => exact (sparing_wall_expiry (hne hlook)).weaken fun _ _ => ⟨hS, trivial⟩
  | ttl_ms hlook => exact (sparing_ttl_ms (hne hlook)).weaken fun _ _ => ⟨hS, trivial⟩
  | persist hlook _ => exact (sparing_persist (hne hlook)).weaken fun _ _ => ⟨hS, fun _ => hlook⟩
  | touch other => exact fun k hk => ⟨hk, hS, trivial⟩
  | notify event _ => exact (sparing_of_same (sameStore_notify _ event)).weaken fun _ _ => ⟨hS, trivial⟩

/-- A program that works on the keys `A` leaves the others alone. -/
theorem Disciplined.sparing (h : Disciplined (.within A ctx.clock) ∅ m Q) (hkey : key ∉ A) :
    Sparing ctx key o m fun _ => True := by
  have hleaf : ∀ {S S' : Set Value} {α : Type} {m : K F α} {Q : α → Prop}, Access (.within A ctx.clock) S α m Q S' →
      Triple ctx (fun k : KState F => S ⊆ A ∧ (k.store.content ctx.clock.mono).lookup key = o) m
        (fun a k => (S' ⊆ A ∧ (k.store.content ctx.clock.mono).lookup key = o) ∧ Q a)
        fun _ k => S ⊆ A ∧ (k.store.content ctx.clock.mono).lookup key = o := fun h k hk =>
    (h.sparing hkey hk.1).conseq (fun _ hk => hk) (fun _ _ hk => ⟨⟨hk.2.1, hk.1⟩, hk.2.2⟩) (fun _ _ hk' => ⟨hk.1, hk'⟩) k hk.2
  have hend := Built.triple (I := fun S (k : KState F) => S ⊆ A ∧ (k.store.content ctx.clock.mono).lookup key = o)
    (fun hle k hk => ⟨Set.Subset.trans hle hk.1, hk.2⟩) hleaf h
  exact hend.conseq (fun _ hk => ⟨Set.empty_subset A, hk⟩) (fun _ _ hk => ⟨hk.1.2, trivial⟩) fun _ _ hk => hk.2

end Kagni
