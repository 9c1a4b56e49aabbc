import Kagni.Lemmas.Computes

/-!
# The methods of `Data` and the readers of the command modules

One rule for each: the effects it needs, what it returns, and whether the key has been looked up afterwards. A reader of one
kind of value (`_string`, `_set`, ...) does not look at the fields of a hash.
-/

namespace Kagni

open Lib Lib.Prog

variable {F : Type} {d : Discipline} {S : Set Value} {key : Value} {α β : Type}

/-- One more key may have been looked at. -/
theorem le_insert : S ≤ insert key S := Set.subset_insert key S

/-- A key just looked at was seen. -/
theorem Discipline.seen_insert (d : Discipline) (S : Set Value) (key : Value) : d.Seen (insert key S) key :=
  .inl (Set.mem_insert key S)

/-! ## The methods -/

theorem disciplined_clock : Disciplined d S (clock : K F Clock) (· = d.clock) :=
  (Built.leaf (.ask fun _ now _ => now) le_rfl).weaken fun _ ⟨_, _, h⟩ => h

/-- `get` looks at its key. -/
theorem looks_get (hlook : d.permits (.look key)) (hfields : d.permits (.fields key)) :
    Looks d S key (data_get key : K F _) fun o => ∀ v, o = some v → d.permits (.create key) ∧ d.obj v := by
  have hid : (data_get key : K F _) = do return id (← data_get key) := by
    simp only [id, bind_pure]
  rw [hid]
  exact ⟨fun hf => .learn (.get id hlook (.inl hfields)) le_insert fun a ⟨o, ho, ha⟩ => hf a (ha ▸ ho)⟩

/-- What is done with the value does not depend on the fields of a hash. -/
theorem looks_get_blind {f : Option (Obj F) → α} {g : α → K F β} {Q : β → Prop} (hlook : d.permits (.look key)) (hf : Blind f)
    (hg : ∀ o, (∀ v, o = some v → d.permits (.create key) ∧ d.obj v) → Disciplined d (insert key S) (g (f o)) Q) :
    Looks d S key (data_get key >>= fun o => g (f o)) Q := by
  have hmap : (data_get key >>= fun o => g (f o) : K F β) = (do return f (← data_get key)) >>= g := by
    simp only [bind_assoc, pure_bind]
  rw [hmap]
  exact (Teaches.of_leaf (Access.get f hlook (.inr hf)) le_insert).bind fun a ⟨o, ho, ha⟩ => ha ▸ hg o ho

/-- A key is found live only if it may be there. -/
theorem disciplined_is_live (hlook : d.permits (.look key)) :
    Disciplined d S (is_live key : K F Bool) fun b => b = true → d.permits (.create key) := .leaf (.is_live hlook) le_rfl

/-- A sweep purges what has expired. -/
theorem disciplined_sweep : Disciplined d S (_sweep : K F Unit) fun _ => True := .leaf .sweep le_rfl

/-- A scan gives keys that may be there. -/
theorem disciplined_keys (hscan : d.permits .scan) :
    Disciplined d S (data_keys : K F _) fun keys => ∀ key ∈ keys, d.permits (.create key) := by
  have hread : (do return (← Prog.get).store.storage.keys : K F (List Value)) = fun _ k =>
      (.ok ((k.store.storage.entries.map fun p => (p.1, p.2.expires_at)).map Prod.fst), k) := by
    funext ctx k
    rw [List.map_map]
    rfl
  refine disciplined_sweep.bind ?_
  intro _ _
  rw [hread]
  refine (Built.leaf (.index (List.map Prod.fst) hscan) le_rfl).weaken ?_
  rintro keys ⟨entries, h, rfl⟩ key hkey
  obtain ⟨p, hp, rfl⟩ := List.mem_map.1 hkey
  exact h p hp

/-- What `keyspace_stats` makes of the deadlines. -/
def statsOf (now : Int) (entries : List (Value × Option Int)) : Nat × Nat × Int :=
  let deadlines := entries.filterMap Prod.snd
  let avg := if deadlines = [] then 0 else (deadlines.map (· - now)).sum / deadlines.length / 1000000
  (entries.length, deadlines.length, avg)

/-- The numbers of INFO come from a scan. -/
theorem disciplined_keyspace_stats (hscan : d.permits .scan) : Disciplined d S (keyspace_stats : K F _) fun _ => True := by
  refine disciplined_sweep.bind ?_
  intro _ _
  refine disciplined_clock.bind ?_
  intro now _
  have hread : (do
      let entries := (← Prog.get).store.storage.entries
      let deadlines := entries.filterMap fun p => p.2.expires_at
      let avg := if deadlines = [] then 0 else (deadlines.map (· - now.mono)).sum / deadlines.length / 1000000
      return (entries.length, deadlines.length, avg) : K F (Nat × Nat × Int)) = fun _ k =>
        (.ok (statsOf now.mono (k.store.storage.entries.map fun p => (p.1, p.2.expires_at))), k) := by
    funext ctx k
    unfold statsOf
    rw [List.filterMap_map, List.length_map]
    rfl
  rw [hread]
  exact (Built.leaf (.index (statsOf now.mono) hscan) le_rfl).weaken fun _ _ => trivial

/-- `set` needs a permitted value under a key that was seen, and looks at the old deadline only to keep it. -/
theorem disciplined_data_set {value : Obj F} {deadline : Option Int} {keep_ttl : Bool}
    (hkey : key.hashable = true → d.permits (.create key)) (hobj : d.obj value) (hseen : d.Seen S key)
    (hkeep : keep_ttl = true → d.permits (.look key)) (hpast : d.permits .past ∨ ∀ t, deadline = some t → d.clock.wall < t) :
    Disciplined d S (data_set key value deadline keep_ttl) fun _ => key.hashable = true :=
  .leaf (.data_set hkey hobj hseen hkeep hpast) le_rfl

/-- Assignment needs no more than `set` does. -/
theorem disciplined_setitem {value : Obj F} (hkey : key.hashable = true → d.permits (.create key)) (hobj : d.obj value)
    (hseen : d.Seen S key) : Disciplined d S (setitem key value) fun _ => key.hashable = true :=
  .leaf (.setitem hkey hobj hseen) le_rfl

/-- A value in place of another needs a look at the key before. -/
theorem disciplined_store_value {value : Obj F} (hobj : d.obj value) (hlook : d.permits (.look key)) (hseen : key ∈ S) :
    Disciplined d S (store_value key value) fun _ => True := .leaf (.store_value hobj hlook hseen) le_rfl

/-- Whether a key was removed is told only after a look at it. -/
theorem disciplined_remove (hlook : d.permits (.look key)) (hseen : d.Seen S key) :
    Disciplined d S (data_remove key : K F Bool) fun b => b = true → d.permits (.create key) := by
  have h := (Built.leaf (Access.remove (F := F) id (.inl hlook) hseen) le_rfl).weaken fun a ⟨b, hb, ha⟩ =>
    (ha ▸ hb : a = true → d.permits (.create key))
  rwa [show (do return id (← data_remove key) : K F Bool) = data_remove key by simp only [id, bind_pure]] at h

/-- A removal nobody asks about. -/
theorem disciplined_discard (hseen : d.Seen S key) {m : K F α} {Q : α → Prop} (hm : Disciplined d S m Q) :
    Disciplined d S (data_remove key >>= fun _ => m) Q := by
  have hdrop : (data_remove key >>= fun _ => m : K F α) = (do return (fun _ => ()) (← data_remove key)) >>= fun _ => m := by
    simp only [bind_assoc, pure_bind]
  rw [hdrop]
  exact (Built.leaf (.remove (fun _ => ()) (.inr fun _ => rfl) hseen) le_rfl).bind fun _ _ => hm

/-- EXPIRE looks at its key and moves the deadline. -/
theorem disciplined_expire (hlook : d.permits (.look key)) (secs : Int) :
    Disciplined d S (data_expire key secs : K F Bool) fun b => b = true → d.permits (.create key) :=
  .leaf (.expire secs hlook) le_rfl

/-- Likewise with a deadline of the wall clock. -/
theorem disciplined_expire_at (hlook : d.permits (.look key)) (wall_deadline_ns : Int) :
    Disciplined d S (data_expire_at key wall_deadline_ns : K F Bool) fun b => b = true → d.permits (.create key) :=
  .leaf (.expire_at wall_deadline_ns hlook) le_rfl

/-- The deadline of a key is looked at. -/
theorem disciplined_wall_expiry (hlook : d.permits (.look key)) : Disciplined d S (wall_expiry key : K F Int) fun _ => True :=
  .leaf (.wall_expiry hlook) le_rfl

/-- The time to live in milliseconds is looked at. -/
theorem disciplined_ttl_ms (hlook : d.permits (.look key)) : Disciplined d S (ttl_ms key : K F Int) fun _ => True :=
  .leaf (.ttl_ms hlook) le_rfl

theorem disciplined_ttl (hlook : d.permits (.look key)) : Disciplined d S (ttl key : K F Int) fun _ => True := by
  refine (disciplined_ttl_ms hlook).bind ?_
  intro _ _
  exact .ite (fun _ => .pure trivial) fun _ => .pure trivial

/-- PERSIST looks at its key and drops the deadline. -/
theorem disciplined_persist (hlook : d.permits (.look key)) (hseen : d.Seen S key) :
    Disciplined d S (persist key : K F Bool) fun b => b = true → d.permits (.create key) := .leaf (.persist hlook hseen) le_rfl

/-- An event may be told of a key that may be there. -/
theorem disciplined_notify (hkey : d.permits (.create key)) (event : Event) :
    Disciplined d S (_notify key event : K F Unit) fun _ => True :=
  .leaf (.notify event hkey) le_rfl

/-- A write is told of likewise, and moves the generation. -/
theorem disciplined_after_write (hkey : d.permits (.create key)) (event : Event) :
    Disciplined d S (_after_write key event : K F Unit) fun _ => True :=
  (Built.leaf (.touch key) le_rfl).bind fun _ _ => disciplined_notify hkey event

/-! ## Random choices -/

/-- A draw is within its bound. -/
theorem disciplined_draw (n : Nat) : Disciplined d S (draw n : K F Nat) fun i => 0 < n → i < n := .leaf (.draw n) le_rfl

/-- A choice is one of the items. -/
theorem disciplined_choice (items : List α) : Disciplined d S (choice items : K F α) (· ∈ items) := by
  refine (disciplined_draw items.length).bind ?_
  intro _ _
  exact (of_computes (computes_orFail _)).weaken fun _ h => List.mem_of_getElem? h

/-- What is done so many times is disciplined each time. -/
theorem disciplined_times {m : K F α} {Q : α → Prop} (hm : Disciplined d S m Q) (n : Nat) :
    Disciplined d S (times m n) fun xs => ∀ x ∈ xs, Q x := by
  induction n with
  | zero => exact .pure nofun
  | succ n ih =>
    refine hm.bind ?_
    intro x hx
    exact ih.bind fun xs hxs => .pure (List.forall_mem_cons.2 ⟨hx, hxs⟩)

/-- A sample has items of the list. -/
theorem disciplined_sample (n : Nat) (items : List α) :
    Disciplined d S (sample n items : K F (List α)) fun xs => ∀ x ∈ xs, x ∈ items := by
  induction n generalizing items with
  | zero => exact .pure nofun
  | succ n ih =>
    refine (disciplined_draw items.length).bind ?_
    intro i _
    refine (of_computes (computes_orFail _)).bind ?_
    intro x hx
    refine (ih (items.eraseIdx i)).bind fun xs hxs => .pure (List.forall_mem_cons.2 ⟨List.mem_of_getElem? hx, fun y hy => ?_⟩)
    exact List.mem_of_mem_eraseIdx (hxs y hy)

/-- Items are picked from the list, with or without repetition. -/
theorem disciplined_pick (items : List α) (count : Int) :
    Disciplined d S (pick items count : K F (List α)) fun xs => ∀ x ∈ xs, x ∈ items := by
  refine .ite (fun _ => disciplined_times (disciplined_choice items) _) ?_
  intro _
  refine .ite (fun _ => .pure nofun) ?_
  intro _
  exact .ite (fun _ => .pure fun _ h => h) fun _ => disciplined_sample _ items

/-! ## Readers of one kind of value -/

/-- A value of the kind a command works on, or an error. -/
def checkKind (kind : Kind) : Option (Obj F) → Option (Option (Obj F))
  | none => some none
  | some obj => if kind_of obj = some kind then some (some obj) else none

/-- The check of a kind does not see the fields of a hash. -/
theorem blind_checkKind {kind : Kind} (h : kind ≠ .hash) : Blind (checkKind (F := F) kind) := by
  intro fields fields'
  have hne : ∀ fields : Dict Value FieldEntry, kind_of (F := F) (.hash fields) ≠ some kind :=
    fun _ e => h (Option.some.inj e).symm
  unfold checkKind
  dsimp only
  rw [if_neg (hne fields), if_neg (hne fields')]

/-- The value, or the error. -/
def kindOrThrow : Option (Option (Obj F)) → K F (Option (Obj F))
  | none => throw_ .WRONGTYPE
  | some o => pure o

/-- `expect_kind` is the check and then its error. -/
theorem expect_kind_eq (key : Value) (kind : Kind) :
    expect_kind key kind = (do kindOrThrow (checkKind kind (← data_get key)) : K F _) := by
  unfold expect_kind
  refine congrArg (data_get key >>= ·) (funext fun o => ?_)
  cases o with
  | none => rfl
  | some obj =>
    simp only [checkKind]
    split <;> rfl

/-- The reader of a kind gives a value of that kind, or raises. -/
theorem looks_expect_kind {kind : Kind} (hlook : d.permits (.look key)) (h : d.permits (.fields key) ∨ kind ≠ .hash) :
    Looks d S key (expect_kind key kind : K F _) fun o =>
      ∀ v, o = some v → d.permits (.create key) ∧ d.obj v ∧ kind_of v = some kind := by
  have hcheck : ∀ o : Option (Obj F), (∀ v, o = some v → d.permits (.create key) ∧ d.obj v) →
      Disciplined d (insert key S) (kindOrThrow (checkKind kind o)) fun o =>
        ∀ v, o = some v → d.permits (.create key) ∧ d.obj v ∧ kind_of v = some kind := by
    intro o ho
    cases o with
    | none => exact .pure nofun
    | some obj =>
      simp only [checkKind]
      by_cases hkind : kind_of obj = some kind
      · rw [if_pos hkind]
        refine .pure fun v hv => ?_
        cases hv
        exact ⟨(ho obj rfl).1, (ho obj rfl).2, hkind⟩
      · rw [if_neg hkind]
        exact .raise _
  rw [expect_kind_eq]
  rcases h with h | h
  · exact (looks_get hlook h).bind hcheck
  · exact looks_get_blind hlook (blind_checkKind h) hcheck

theorem looks_string (hlook : d.permits (.look key)) :
    Looks d S key (_string key : K F _) fun o => ∀ b, o = some b → d.permits (.create key) := by
  refine (looks_expect_kind hlook (.inr (by decide))).bind ?_
  intro o ho
  split
  · exact .pure fun _ _ => (ho _ rfl).1
  · exact .pure nofun

theorem looks_set (hlook : d.permits (.look key)) :
    Looks d S key (_set key : K F _) fun o => ∀ s, o = some s → d.permits (.create key) ∧ d.obj (F := F) (.set s) := by
  refine (looks_expect_kind hlook (.inr (by decide))).bind ?_
  intro o ho
  split
  · refine .pure fun s hs => ?_
    cases hs
    exact ⟨(ho _ rfl).1, (ho _ rfl).2.1⟩
  · exact .pure nofun

theorem looks_bitmap (hlook : d.permits (.look key)) :
    Looks d S key (_bitmap key : K F _) fun o => ∀ b, o = some b → d.permits (.create key) := by
  refine (looks_expect_kind hlook (.inr (by decide))).bind ?_
  intro o ho
  split
  · exact .pure fun _ _ => (ho _ rfl).1
  · exact .pure nofun

/-- A hash or none, for a discipline that may see fields. -/
theorem looks_hash (hlook : d.permits (.look key)) (hfields : d.permits (.fields key)) :
    Looks d S key (_hash key : K F _) fun o => ∀ fields, o = some fields → d.permits (.create key) ∧
      d.obj (F := F) (.hash fields) := by
  refine (looks_expect_kind hlook (.inl hfields)).bind ?_
  intro o ho
  split
  · refine .pure fun fields hfields => ?_
    cases hfields
    exact ⟨(ho _ rfl).1, (ho _ rfl).2.1⟩
  · exact .pure nofun

/-- A sorted set or none. -/
theorem looks_zset (hlook : d.permits (.look key)) :
    Looks d S key (_zset key : K F _) fun o => ∀ z, o = some z → d.permits (.create key) ∧ d.obj (.zset z) := by
  refine (looks_expect_kind hlook (.inr (by decide))).bind ?_
  intro o ho
  split
  · refine .pure fun z hz => ?_
    cases hz
    exact ⟨(ho _ rfl).1, (ho _ rfl).2.1⟩
  · exact .pure nofun

/-- A list or none, a deque or a plain one. -/
theorem looks_list (hlook : d.permits (.look key)) :
    Looks d S key (_list key : K F _) fun o => ∀ l, o = some l → d.permits (.create key) ∧ d.obj (F := F) l.obj := by
  refine (looks_expect_kind hlook (.inr (by decide))).bind ?_
  intro o ho
  split
  · refine .pure fun l hl => ?_
    cases hl
    exact ⟨(ho _ rfl).1, (ho _ rfl).2.1⟩
  · refine .pure fun l hl => ?_
    cases hl
    exact ⟨(ho _ rfl).1, (ho _ rfl).2.1⟩
  · exact .pure nofun

end Kagni
