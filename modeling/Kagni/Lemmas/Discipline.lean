import Kagni.Discipline
import Kagni.Lemmas.Expiry

/-!
# A disciplined program keeps a disciplined store

What is read from a disciplined store is disciplined, so a program that writes back what it read, or what it made of it, needs a
permission for its arguments only where it stores one of them.
-/

namespace Kagni

open Lib Lib.Prog

variable {F : Type} {d : Discipline} {S : Set Value} {α β : Type}

/-! ## Disciplined stores -/

namespace Discipline

/-- An entry that is stored was permitted, and so was its value. -/
theorem Holds.get {s : Store F} (h : d.Holds s) {key : Value} {e : Entry F} (he : s.storage.get key = some e) :
    d.permits (.create key) ∧ d.obj e.value := h (key, e) ((Dict.get_eq_some_iff ..).1 he)

/-- A key that goes leaves the others as they were. -/
theorem Holds.erase {s : Store F} (h : d.Holds s) (key : Value) : d.Holds { s with storage := s.storage.erase key } :=
  fun p hp => h p (List.mem_of_mem_filter hp)

/-- An entry that is permitted may be stored. -/
theorem Holds.set {s : Store F} (h : d.Holds s) {key : Value} {e : Entry F} (hkey : d.permits (.create key))
    (hobj : d.obj e.value) :
    d.Holds { s with storage := s.storage.set key e } := by
  intro p hp
  rcases Dict.mem_entries_set hp with rfl | hp
  · exact ⟨hkey, hobj⟩
  · exact h p hp

/-- A value in place of another keeps the entry's deadline. -/
theorem Holds.store_value {s : Store F} (h : d.Holds s) (key : Value) {value : Obj F} (hobj : d.obj value) :
    d.Holds { s with storage := match s.storage.get key with
      | some e => s.storage.set key { e with value := value }
      | none => s.storage } := by
  split
  · rename_i e he
    exact h.set (h.get he).1 hobj
  · exact h

end Discipline

section Keeps

variable {ctx : Ctx}

/-- The program keeps a disciplined store disciplined. -/
abbrev Keeping (d : Discipline) (ctx : Ctx) (m : K F α) (Q : α → Prop) : Prop := Keeps ctx (fun k => d.Holds k.store) m Q

theorem keeping_clock : Keeping d ctx (clock : K F Clock) (· = ctx.clock) :=
  Keeps.ask.bind fun _ h => .pure (congrArg Ctx.clock h)

theorem keeping_needHash (v : Value) : Keeping d ctx (needHash v : K F Unit) fun _ => v.hashable = true :=
  .ite (fun h => .pure h) fun _ => .raise

/-- The entry of a key is one that was permitted. -/
theorem keeping_entry (key : Value) :
    Keeping d ctx (entry key : K F _) fun o => ∀ e, o = some e → d.permits (.create key) ∧ d.obj e.value := by
  refine (keeping_needHash key).bind ?_
  intro _ _
  exact Keeps.get.bind fun _ hs => .pure fun _ he => hs.get he

theorem keeping_erase (key : Value) : Keeping d ctx (setStorage (·.erase key) : K F Unit) fun _ => True :=
  .modify fun _ hs => hs.erase key

/-- An entry may be put where creating it is permitted. -/
theorem keeping_put {key : Value} (e : Entry F) (hkey : d.permits (.create key)) (hobj : d.obj e.value) :
    Keeping d ctx (setStorage (·.set key e)) fun _ => True := .modify fun _ hs => hs.set hkey hobj

/-- An event stores nothing, also where its delivery raises. -/
theorem keeping_notify (key : Value) (event : Event) : Keeping d ctx (_notify key event : K F Unit) fun _ => True := by
  refine .of_respects ?_
  intro ctx k hk
  have hsame : (_notify key event ctx k).2.store = k.store := sameStore_notify key event ctx k
  rw [hsame]
  exact hk

/-- An expired key may go, with its event. -/
theorem keeping_purge (key : Value) : Keeping d ctx (_purge_key key : K F Unit) fun _ => True :=
  (keeping_erase key).bind fun _ _ => keeping_notify key _

/-- What `get` finds was permitted. -/
theorem keeping_get (key : Value) :
    Keeping d ctx (data_get key : K F _) fun o => ∀ v, o = some v → d.permits (.create key) ∧ d.obj v := by
  refine (keeping_entry key).bind ?_
  intro o ho
  split
  · exact .pure nofun
  · rename_i e
    refine keeping_clock.bind ?_
    intro now _
    refine .ite (fun _ => ?_) fun _ => ?_
    · split
      · exact .pure nofun
      · exact .pure fun v hv => Option.some.inj hv ▸ ho e rfl
    · exact (keeping_purge key).bind fun _ _ => .pure nofun

/-- A live key is one whose creation was permitted. -/
theorem keeping_is_live (key : Value) : Keeping d ctx (is_live key : K F Bool) fun b => b = true → d.permits (.create key) := by
  refine (keeping_entry key).bind ?_
  intro o ho
  split
  · exact .pure nofun
  · rename_i e
    exact keeping_clock.bind fun _ _ => .pure fun _ => (ho e rfl).1

/-- A sweep only erases. -/
theorem keeping_sweep : Keeping d ctx (_sweep : K F Unit) fun _ => True := by
  refine keeping_clock.bind ?_
  intro _ _
  refine Keeps.get.bind ?_
  intro _ _
  exact .each fun p _ => keeping_purge p.1

/-- `set` stores a permitted value, or a deadline that has passed erases the key. -/
theorem keeping_data_set {key : Value} {value : Obj F} (hkey : key.hashable = true → d.permits (.create key)) (hobj : d.obj value)
    (deadline : Option Int) (keep_ttl : Bool) :
    Keeping d ctx (data_set key value deadline keep_ttl) fun _ => key.hashable = true := by
  refine keeping_clock.bind ?_
  intro now _
  have hentry : Keeping d ctx (entry key : K F (Option (Entry F))) fun _ => key.hashable = true :=
    (keeping_needHash key).bind fun _ h => Keeps.get.bind fun _ _ => .pure h
  refine hentry.bind ?_
  intro _ h
  exact (keeping_put _ (hkey h) hobj).weaken fun _ _ => h

/-- Assignment is `set` without a deadline. -/
theorem keeping_setitem {key : Value} {value : Obj F} (hkey : key.hashable = true → d.permits (.create key))
    (hobj : d.obj value) :
    Keeping d ctx (setitem key value) fun _ => key.hashable = true := by
  refine (keeping_needHash key).bind ?_
  intro _ h
  exact (keeping_put _ (hkey h) hobj).weaken fun _ _ => h

/-- A key that was removed had been there. -/
theorem keeping_remove (key : Value) :
    Keeping d ctx (data_remove key : K F Bool) fun b => b = true → d.permits (.create key) := by
  refine (keeping_entry key).bind ?_
  intro o ho
  split
  · exact .pure nofun
  · rename_i e
    refine (keeping_erase key).bind ?_
    intro _ _
    exact keeping_clock.bind fun _ _ => .pure fun _ => (ho e rfl).1

/-- A new deadline changes no value. -/
theorem keeping_expire (key : Value) (secs : Int) :
    Keeping d ctx (data_expire key secs : K F Bool) fun b => b = true → d.permits (.create key) := by
  refine (keeping_entry key).bind ?_
  intro o ho
  split
  · exact .pure nofun
  · rename_i e
    obtain ⟨hkey, hobj⟩ := ho e rfl
    refine keeping_clock.bind ?_
    intro now _
    refine .ite (fun _ => ?_) fun _ => .ite (fun _ => ?_) fun _ => ?_
    · exact (keeping_purge key).bind fun _ _ => .pure nofun
    · exact (keeping_erase key).bind fun _ _ => .pure fun _ => hkey
    · exact .bind (keeping_put _ hkey (by exact hobj)) fun _ _ => .pure fun _ => hkey

/-- Likewise with a deadline of the wall clock. -/
theorem keeping_expire_at (key : Value) (wall_deadline_ns : Int) :
    Keeping d ctx (data_expire_at key wall_deadline_ns : K F Bool) fun b => b = true → d.permits (.create key) := by
  refine (keeping_entry key).bind ?_
  intro o ho
  split
  · exact .pure nofun
  · rename_i e
    obtain ⟨hkey, hobj⟩ := ho e rfl
    refine keeping_clock.bind ?_
    intro now _
    refine .ite (fun _ => ?_) fun _ => .ite (fun _ => ?_) fun _ => ?_
    · exact (keeping_purge key).bind fun _ _ => .pure nofun
    · exact (keeping_erase key).bind fun _ _ => .pure fun _ => hkey
    · exact .bind (keeping_put _ hkey (by exact hobj)) fun _ _ => .pure fun _ => hkey

theorem keeping_wall_expiry (key : Value) : Keeping d ctx (wall_expiry key : K F Int) fun _ => True := by
  refine (keeping_entry key).bind ?_
  intro o _
  split
  · exact .pure trivial
  · refine keeping_clock.bind ?_
    intro now _
    split
    · exact .pure trivial
    · exact .ite (fun _ => (keeping_purge key).bind fun _ _ => .pure trivial) fun _ => .pure trivial

theorem keeping_ttl_ms (key : Value) : Keeping d ctx (ttl_ms key : K F Int) fun _ => True := by
  refine (keeping_entry key).bind ?_
  intro o _
  split
  · exact .pure trivial
  · split
    · exact .pure trivial
    · refine keeping_clock.bind ?_
      intro _ _
      exact .ite (fun _ => (keeping_purge key).bind fun _ _ => .pure trivial) fun _ => .pure trivial

/-- A key that loses its deadline keeps its value. -/
theorem keeping_persist (key : Value) : Keeping d ctx (persist key : K F Bool) fun b => b = true → d.permits (.create key) := by
  refine (keeping_entry key).bind ?_
  intro o ho
  split
  · exact .pure nofun
  · rename_i e
    obtain ⟨hkey, hobj⟩ := ho e rfl
    refine keeping_clock.bind ?_
    intro now _
    refine .ite (fun _ => ?_) fun _ => .ite (fun _ => .pure nofun) fun _ => ?_
    · exact (keeping_erase key).bind fun _ _ => .pure nofun
    · exact .bind (keeping_put _ hkey (by exact hobj)) fun _ _ => .pure fun _ => hkey

/-- A draw is within its bound. -/
theorem keeping_draw (n : Nat) : Keeping d ctx (draw n : K F Nat) fun i => 0 < n → i < n := by
  refine Keeps.get.bind ?_
  intro _ _
  refine Keeps.bind (Q := fun _ => True) (.modify fun _ hs => hs) ?_
  intro _ _
  exact Keeps.ask.bind fun _ _ => .pure fun hn => Nat.mod_lt _ hn

/-- Every access keeps a disciplined store disciplined, and returns what it promises. -/
theorem Access.keeps {m : K F α} {Q : α → Prop} {S' : Set Value} (h : Access d S α m Q S') (hclock : ctx.clock = d.clock) :
    Keeping d ctx m Q := by
  cases h with
  | ask f => exact fun k hk => ⟨hk, _, _, congrArg (fun now => f _ now _) hclock⟩
  | draw n => exact keeping_draw n
  | get f _ _ => exact (keeping_get _).bind fun o ho => .pure ⟨o, ho, rfl⟩
  | is_live _ => exact keeping_is_live _
  | sweep => exact keeping_sweep
  | index f _ =>
    refine fun k hk => ⟨hk, _, fun p hp => ?_, rfl⟩
    obtain ⟨q, hq, rfl⟩ := List.mem_map.1 hp
    exact (hk q hq).1
  | data_set hkey hobj _ _ _ => exact keeping_data_set hkey hobj _ _
  | setitem hkey hobj _ => exact keeping_setitem hkey hobj
  | store_value hobj _ _ => exact .modify fun k hk => hk.store_value _ hobj
  | remove f _ _ => exact (keeping_remove _).bind fun b hb => .pure ⟨b, hb, rfl⟩
  | expire secs _ => exact keeping_expire _ secs
  | expire_at wall_deadline_ns _ => exact keeping_expire_at _ wall_deadline_ns
  | wall_expiry _ => exact keeping_wall_expiry _
  | ttl_ms _ => exact keeping_ttl_ms _
  | persist _ _ => exact keeping_persist _
  | touch key => exact .modify fun _ hk => hk
  | notify event _ => exact keeping_notify _ event

/-- A disciplined program keeps a disciplined store disciplined. -/
theorem Disciplined.keeps {m : K F α} {Q : α → Prop} (h : Disciplined d S m Q) (hclock : ctx.clock = d.clock) :
    Keeping d ctx m Q :=
  Built.triple (I := fun _ (k : KState F) => d.Holds k.store) (fun _ _ hk => hk) (fun h => h.keeps hclock) h

end Keeps

end Kagni
