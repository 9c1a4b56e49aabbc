import Kagni.Lemmas.Discipline
import Kagni.Lemmas.Footprint

/-!
# Commands that empty a collection

The commands that take elements out change the collection in place and drop the key when nothing is left, so between the two
the store holds an empty collection under that key. Nothing raises in between when the arguments and the data are byte strings
and events are published without an exception, as they are when nobody is subscribed.
-/

namespace Kagni

open Lib Lib.Prog

variable {F : Type} {key : Value} {α β : Type}

theorem Value.bytes_ne_array (b : Bytes) (items : List Value) : Value.bytes b ≠ .array items := by
  intro h
  cases h

/-- The discipline of a store of byte strings in which no collection is empty. No value of a string is an array, so every list
is a `deque`. -/
def Discipline.collections (clock : Clock) : Discipline where
  permits
    | .create key => key.IsBytes
    | .store v => v.IsBytes
    | .value v => ∀ items, v ≠ .array items
    | _ => True
  nonempty := True
  clock
  store_bytes _ := trivial
  value_bytes := Value.bytes_ne_array
  value_array items h := absurd rfl (h items)
  look_of_scan _ _ := trivial

theorem Value.IsBytes.hashable {v : Value} (h : v.IsBytes) : v.hashable = true := by
  obtain ⟨b, rfl⟩ := (Value.isBytes_iff v).1 h
  rfl

/-! ## Events without subscribers -/

theorem Ctx.quiet_of_alone {ctx : Ctx} (hhub : ctx.hub = .init) : ctx.Quiet := Ctx.PatternsCompile.quiet fun p hp => by
  rw [hhub] at hp
  cases hp

/-! ## A store with an empty collection -/

namespace Discipline

variable {d : Discipline} {c c' : Prop} {s : Store F}

/-- The store obeys the discipline but for what is under `key`; it obeys it there too unless `c` holds. -/
structure Pending (d : Discipline) (key : Value) (c : Prop) (s : Store F) : Prop where
  others : ∀ p ∈ s.storage.entries, d.permits (.create p.1) ∧ (p.1 ≠ key → d.obj p.2.value)
  done : ¬c → d.Holds s

theorem Holds.pending (h : d.Holds s) (key : Value) (c : Prop) : d.Pending key c s :=
  ⟨fun p hp => ⟨(h p hp).1, fun _ => (h p hp).2⟩, fun _ => h⟩

theorem Pending.holds_erase (h : d.Pending key c s) : d.Holds { s with storage := s.storage.erase key } := by
  intro p hp
  obtain ⟨hp, hne⟩ := List.mem_filter.1 hp
  exact ⟨(h.others p hp).1, (h.others p hp).2 (by simpa using hne)⟩

/-- Something that may be stored is put under some key. -/
theorem Pending.set (h : d.Pending key c s) {other : Value} {e : Entry F} (hother : d.permits (.create other))
    (hobj : d.obj e.value) :
    d.Pending key (other ≠ key ∧ c) { s with storage := s.storage.set other e } := by
  have hothers : ∀ p ∈ (s.storage.set other e).entries, d.permits (.create p.1) ∧ (p.1 ≠ key → d.obj p.2.value) := by
    intro p hp
    rcases Dict.mem_entries_set hp with rfl | hp
    · exact ⟨hother, fun _ => hobj⟩
    · exact h.others p hp
  refine ⟨hothers, fun hc => ?_⟩
  by_cases hother' : other = key
  · subst hother'
    intro p hp
    refine ⟨(hothers p hp).1, ?_⟩
    by_cases hp' : p.1 = other
    · have hget := (Dict.get_eq_some_iff ..).2 hp
      rw [hp', Dict.get_set, if_pos rfl] at hget
      rw [← Option.some.inj hget]
      exact hobj
    · exact (hothers p hp).2 hp'
  · exact Holds.set (h.done fun hc' => hc ⟨hother', hc'⟩) hother hobj

/-- What is under the key is changed in place. -/
theorem Pending.store_value (h : d.Pending key c s) {value : Obj F} (hobj : ¬c' → d.obj value) :
    d.Pending key c' { s with storage := match s.storage.get key with
      | some e => s.storage.set key { e with value := value }
      | none => s.storage } := by
  have hothers : ∀ p ∈ s.storage.entries, d.permits (.create p.1) ∧ (p.1 ≠ key → d.obj p.2.value) := h.others
  split
  · rename_i e he
    have hkey := (h.others _ ((Dict.get_eq_some_iff ..).1 he)).1
    refine ⟨fun p hp => ?_, fun hc => ?_⟩
    · rcases Dict.mem_entries_set hp with rfl | hp
      · exact ⟨hkey, fun hne => absurd rfl hne⟩
      · exact h.others p hp
    · have hdone : d.Pending key (key ≠ key ∧ c) _ := h.set hkey (e := { e with value := value }) (hobj hc)
      exact hdone.done fun hne => hne.1 rfl
  · rename_i hnone
    refine ⟨hothers, fun _ p hp => ⟨(hothers p hp).1, (hothers p hp).2 ?_⟩⟩
    rintro rfl
    exact absurd ((Dict.get_eq_some_iff ..).2 hp) (by rw [hnone]; nofun)

end Discipline

section Triples

variable {ctx : Ctx} {m : K F α} {f : α → K F β} {c c' : Prop} {Q : α → Prop} {R : β → Prop}

/-- The program keeps the collections of a store of byte strings nonempty. -/
abbrev Collects (ctx : Ctx) (m : K F α) (Q : α → Prop) : Prop := Keeping (.collections ctx.clock) ctx m Q

/-- The program neither fills nor drops the collection under `key`, which is empty if `c`, and does not raise while it is. -/
def Mute (ctx : Ctx) (key : Value) (c : Prop) (m : K F α) (Q : α → Prop) : Prop :=
  Triple ctx (fun k => (Discipline.collections ctx.clock).Pending key c k.store) m
    (fun a k => (Discipline.collections ctx.clock).Pending key c k.store ∧ Q a) fun _ k =>
      (Discipline.collections ctx.clock).Holds k.store

/-- The program drops the collection under `key` or fills it, if it was left empty. -/
def Closes (ctx : Ctx) (key : Value) (c : Prop) (m : K F α) (Q : α → Prop) : Prop :=
  Triple ctx (fun k => (Discipline.collections ctx.clock).Pending key c k.store) m
    (fun a k => (Discipline.collections ctx.clock).Holds k.store ∧ Q a) fun _ k =>
      (Discipline.collections ctx.clock).Holds k.store

theorem Disciplined.collects {S : Set Value} (h : Disciplined (.collections ctx.clock) S m Q) : Collects ctx m Q :=
  Disciplined.keeps h rfl

theorem computes_collects (h : Computes m Q) : Collects ctx m Q := Disciplined.collects (of_computes (S := ∅) h)

theorem looks_collects {S : Set Value} (h : Looks (.collections ctx.clock) S key m Q) : Collects ctx m Q :=
  Disciplined.collects h.built

theorem collects_check {e : Errors} [Decidable c] {f : PUnit → K F α} (h : ¬c → Collects ctx (f PUnit.unit) Q) :
    Collects ctx (if c then throw_ e >>= f else f PUnit.unit) Q :=
  .ite (fun _ => .bind (Q := fun _ => False) .raise fun _ => False.elim) h

theorem Closes.collects (h : Closes ctx key c m Q) : Collects ctx m Q := h.pre fun _ hk => hk.pending key c

theorem Closes.of_collects (hc : ¬c) (h : Collects ctx m Q) : Closes ctx key c m Q := h.pre fun _ hk => hk.done hc

theorem Closes.bind (hm : Closes ctx key c m Q) (hf : ∀ a, Q a → Collects ctx (f a) R) : Closes ctx key c (m >>= f) R :=
  Triple.bind hm fun a k hk => hf a hk.2 k hk.1

theorem Mute.closes (hm : Mute ctx key c m Q) (hf : ∀ a, Q a → Closes ctx key c (f a) R) : Closes ctx key c (m >>= f) R :=
  Triple.bind hm fun a k hk => hf a hk.2 k hk.1

theorem Closes.ite {p : Prop} [Decidable p] {m' : K F α} (h : p → Closes ctx key c m Q) (h' : ¬p → Closes ctx key c m' Q) :
    Closes ctx key c (if p then m else m') Q := Triple.ite h h'

/-- The collection under `key` is changed in place, to an empty one if `b`. -/
theorem closes_store_value {b : Prop} {value : Obj F} (hobj : ¬b → (Discipline.collections ctx.clock).obj value)
    {f : Unit → K F β}
    (hf : Closes ctx key b (f ()) R) : Closes ctx key c (store_value key value >>= f) R :=
  Triple.bind (Q := fun _ (k : KState F) => (Discipline.collections ctx.clock).Pending key b k.store)
    (Triple.modify fun _ hk => hk.store_value hobj) fun _ => hf

theorem collects_store_value {value : Obj F} (hobj : ¬c → (Discipline.collections ctx.clock).obj value) {f : Unit → K F β}
    (hf : Closes ctx key c (f ()) R) : Collects ctx (store_value key value >>= f) R :=
  (closes_store_value (c := False) hobj hf).collects

/-- Something is stored under a key, maybe another one. -/
theorem closes_setitem {other : Value} (hother : other.IsBytes) {value : Obj F}
    (hobj : (Discipline.collections ctx.clock).obj value)
    {f : Unit → K F β} (hf : Closes ctx key (other ≠ key ∧ c) (f ()) R) : Closes ctx key c (setitem other value >>= f) R := by
  have hset : Triple ctx (fun k => (Discipline.collections ctx.clock).Pending key c k.store) (setitem other value)
      (fun _ (k : KState F) => (Discipline.collections ctx.clock).Pending key (other ≠ key ∧ c) k.store)
      fun _ k => (Discipline.collections ctx.clock).Holds k.store := by
    rw [setitem, needHash, if_pos hother.hashable, pure_bind]
    exact Triple.modify fun _ hk => hk.set hother hobj
  exact Triple.bind hset fun _ => hf

/-- What is stored under a key, maybe another one, is changed in place. -/
theorem closes_store_other {other : Value} {value : Obj F} (hobj : (Discipline.collections ctx.clock).obj value)
    {f : Unit → K F β} (hf : Closes ctx key (other ≠ key ∧ c) (f ()) R) : Closes ctx key c (store_value other value >>= f) R := by
  refine Triple.bind (Q := fun _ (k : KState F) => (Discipline.collections ctx.clock).Pending key (other ≠ key ∧ c) k.store)
    (Triple.modify fun k hk => ?_) fun _ => hf
  by_cases h : other = key
  · subst h
    exact hk.store_value fun _ => hobj
  dsimp only
  split
  · rename_i e he
    exact hk.set (hk.others _ ((Dict.get_eq_some_iff ..).1 he)).1 hobj
  · exact ⟨hk.others, fun hc => hk.done fun hc' => hc ⟨h, hc'⟩⟩

theorem closes_remove (hkey : key.IsBytes) (c : Prop) : Closes ctx key c (data_remove key : K F Bool) fun _ => True := by
  intro k hk
  have hentry : (entry key : K F _) ctx k = (.ok (k.store.storage.get key), k) := by
    rw [entry, needHash, if_pos hkey.hashable]
    rfl
  unfold data_remove
  rw [bind_ok ctx k hentry]
  cases hget : k.store.storage.get key with
  | none =>
    refine ⟨?_, trivial⟩
    have hsame : k.store.storage.erase key = k.store.storage := by
      refine Dict.ext_entries (List.filter_eq_self.2 fun p hp => ?_)
      have hne : p.1 ≠ key := by
        rintro rfl
        rw [(Dict.get_eq_some_iff ..).2 hp] at hget
        cases hget
      simpa using hne
    have := hk.holds_erase
    rwa [hsame] at this
  | some e => exact ⟨hk.holds_erase, trivial⟩

theorem mute_notify (hquiet : ctx.Quiet) {other : Value} (hother : other.IsBytes) (event : Event) :
    Mute ctx key c (_notify other event : K F Unit) fun _ => True := by
  obtain ⟨b, rfl⟩ := (Value.isBytes_iff other).1 hother
  intro k hk
  obtain ⟨k', hrun, hsame⟩ := notify_run (hquiet event) b k
  rw [hrun]
  exact ⟨hsame.symm ▸ hk, trivial⟩

theorem mute_after_write (hquiet : ctx.Quiet) {other : Value} (hother : other.IsBytes) (event : Event) :
    Mute ctx key c (_after_write other event : K F Unit) fun _ => True := by
  refine Triple.bind (Q := fun _ (k : KState F) => (Discipline.collections ctx.clock).Pending key c k.store) ?_ fun _ =>
    mute_notify hquiet hother event
  exact Triple.modify fun _ hk => ⟨hk.others, hk.done⟩

/-- An empty collection is dropped. -/
theorem closes_drop [Decidable c] (hkey : key.IsBytes) : Closes ctx key c
    (if c then data_remove key >>= fun _ => pure () else pure () : K F Unit) fun _ => True := by
  refine .ite (fun _ => (closes_remove hkey c).bind fun _ _ => .pure trivial) fun h => .of_collects h (.pure trivial)

end Triples

end Kagni
