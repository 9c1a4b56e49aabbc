import Kagni.Atomic
import Kagni.Lemmas.Computes

/-!
# Rules for commands that finish or leave nothing behind

A read leaves the content as it is, whatever it purges. So a command that raises after reads only has written nothing, and
what it read is what the content held at its start.
-/

namespace Kagni

open Lib Lib.Prog

variable {F : Type}

/-! ## Programs that return -/

/-- The program returns and leaves the keyspace alone. -/
def Returns {α : Type} (ctx : Ctx) (m : K F α) (Q : α → Prop) : Prop :=
  ∀ k, ∃ a k', m ctx k = (.ok a, k') ∧ k'.store.storage = k.store.storage ∧ Q a

namespace Returns

variable {ctx : Ctx} {α β : Type} {m : K F α} {f : α → K F β} {Q Q' : α → Prop} {R : β → Prop}

theorem pure {a : α} (h : Q a) : Returns ctx (Pure.pure a : K F α) Q := fun k => ⟨a, k, rfl, rfl, h⟩

theorem bind (hm : Returns ctx m Q) (hf : ∀ a, Q a → Returns ctx (f a) R) : Returns ctx (m >>= f) R := by
  intro k
  obtain ⟨a, k₁, hrun, hsame, ha⟩ := hm k
  obtain ⟨b, k₂, hrest, hsame', hb⟩ := hf a ha k₁
  exact ⟨b, k₂, (bind_ok ctx k hrun).trans hrest, hsame'.trans hsame, hb⟩

theorem draw {n : Nat} (hn : 0 < n) : Returns ctx (draw n : K F Nat) (· < n) :=
  fun k => ⟨_, { k with draws := k.draws + 1 }, rfl, rfl, Nat.mod_lt _ hn⟩

theorem getElem {items : List α} {i : Nat} (hi : i < items.length) : Returns ctx (orFail items[i]? : K F α) (· ∈ items) := by
  rw [List.getElem?_eq_getElem hi]
  exact .pure (List.getElem_mem hi)

theorem choice {items : List α} (h : items ≠ []) : Returns ctx (choice items : K F α) (· ∈ items) :=
  (draw (List.length_pos_of_ne_nil h)).bind fun _ hi => getElem hi

theorem times (hm : Returns ctx m Q) (n : Nat) : Returns ctx (times m n) fun xs => ∀ x ∈ xs, Q x := by
  induction n with
  | zero => exact .pure nofun
  | succ n ih =>
    refine hm.bind ?_
    intro x hx
    exact ih.bind fun xs hxs => .pure (List.forall_mem_cons.2 ⟨hx, hxs⟩)

theorem sample {n : Nat} {items : List α} (hn : n ≤ items.length) :
    Returns ctx (sample n items : K F (List α)) fun xs => ∀ x ∈ xs, x ∈ items := by
  induction n generalizing items with
  | zero => exact .pure nofun
  | succ n ih =>
    refine (draw (by omega)).bind fun i hi => (getElem hi).bind fun x hx => ?_
    have hrest : n ≤ (items.eraseIdx i).length := by
      rw [List.length_eraseIdx, if_pos hi]
      omega
    exact (ih hrest).bind fun xs hxs => .pure (List.forall_mem_cons.2 ⟨hx, fun y hy => List.mem_of_mem_eraseIdx (hxs y hy)⟩)

/-- Something can be picked of what is not empty. -/
theorem pick {items : List α} (h : items ≠ []) (count : Int) :
    Returns ctx (pick items count : K F (List α)) fun xs => ∀ x ∈ xs, x ∈ items := by
  unfold Kagni.pick
  split
  · exact times (choice h) _
  split
  · exact .pure nofun
  split
  · exact .pure fun x hx => hx
  · exact sample (by omega)

end Returns

/-! ## Replies that can be sent -/

namespace Reply

theorem encodes_list {items : List Reply} (h : ∀ r ∈ items, r.Encodes) : (Reply.list items).Encodes := by
  have hitems : (_resp_dumps_items items).isSome = true := by
    induction items with
    | nil => rfl
    | cons r items ih =>
      have hr : (_resp_dumps r).isSome = true := (Option.isSome_map ..).symm.trans (h r (by simp))
      obtain ⟨lines, hlines⟩ := Option.isSome_iff_exists.1 hr
      obtain ⟨rest, hrest⟩ := Option.isSome_iff_exists.1 (ih fun r hr => h r (by simp [hr]))
      rw [_resp_dumps_items, hlines, hrest]
      rfl
  rw [Encodes, protocolBuilder, _resp_dumps, Option.isSome_map, Option.isSome_map]
  exact hitems

theorem encodes_ofValue {v : Value} (h : v.IsBytes) : (ofValue v).Encodes := by
  obtain ⟨b, rfl⟩ := (Value.isBytes_iff v).1 h
  rfl

theorem encodes_map {α : Type} {f : α → Reply} {xs : List α} (h : ∀ x ∈ xs, (f x).Encodes) : (Reply.list (xs.map f)).Encodes := by
  refine encodes_list ?_
  intro r hr
  obtain ⟨x, hx, rfl⟩ := List.mem_map.1 hr
  exact h x hx

theorem encodes_values {vs : List Value} (h : ∀ v ∈ vs, v.IsBytes) : (values vs).Encodes := by
  rw [values, ofValues_eq_map]
  exact encodes_map fun v hv => encodes_ofValue (h v hv)

end Reply

variable [PyFloat F]

namespace Watch

variable {w : Watch F} {α β : Type} {m : K F α} {f : α → K F β} {Q Q' : α → Prop} {R : β → Prop} {k k' : KState F}
  {key : Value} {c : Prop}

/-! ## States -/

theorem At.done (h : w.At k) : w.Done k := by
  refine ⟨fun key e he => ?_, h.2⟩
  rw [h.1] at he
  exact .inr (.inl ⟨e, he, rfl⟩)

theorem At.congr (h : w.At k) (hsame : k'.store.storage = k.store.storage) : w.At k' := by
  have hcontent : k'.store.content w.ctx.clock.mono = k.store.content w.ctx.clock.mono := by
    rw [Store.content, Store.content, hsame]
  refine ⟨hcontent.trans h.1, fun hcalm p hp => h.2 hcalm p ?_⟩
  rwa [hsame] at hp

theorem Done.congr (h : w.Done k) (hsame : k'.store.storage = k.store.storage) : w.Done k' := by
  have hcontent : k'.store.content w.ctx.clock.mono = k.store.content w.ctx.clock.mono := by
    rw [Store.content, Store.content, hsame]
  refine ⟨fun key e he => h.1 key e (hcontent ▸ he), fun hcalm p hp => h.2 hcalm p ?_⟩
  rwa [hsame] at hp

/-- Purging an expired entry changes nothing. -/
theorem At.purge (h : w.At k) (hdead : ∀ e, k.store.storage.get key = some e → e.live w.ctx.clock.mono = false) :
    w.At { k with store.storage := k.store.storage.erase key } :=
  ⟨(Store.content_erase_dead hdead).trans h.1, fun hcalm p hp => h.2 hcalm p (List.mem_of_mem_filter hp)⟩

theorem Done.erase (h : w.Done k) (key : Value) : w.Done { k with store.storage := k.store.storage.erase key } := by
  refine ⟨fun other e he => ?_, fun hcalm p hp => h.2 hcalm p (List.mem_of_mem_filter hp)⟩
  have hcontent := Store.content_erase k.store w.ctx.clock.mono key
  rw [hcontent] at he
  by_cases hkey : other = key
  · rw [hkey, Finmap.lookup_erase] at he
    cases he
  · rw [Finmap.lookup_erase_ne hkey] at he
    exact h.1 other e he

theorem Done.set (h : w.Done k) {e : Entry F} (hfits : w.Fits key e.expires_at) (hobj : w.calm → e.value.InOrder) :
    w.Done { k with store.storage := k.store.storage.set key e } := by
  refine ⟨fun other e' he => ?_, fun hcalm p hp => ?_⟩
  · have hcontent := Store.content_set k.store w.ctx.clock.mono key e
    rw [hcontent] at he
    unfold Content.put at he
    by_cases hkey : other = key
    · subst hkey
      split at he
      · rw [Finmap.lookup_insert] at he
        cases he
        exact hfits
      · rw [Finmap.lookup_erase] at he
        cases he
    · refine h.1 other e' ?_
      split at he
      · rwa [Finmap.lookup_insert_of_ne _ hkey] at he
      · rwa [Finmap.lookup_erase_ne hkey] at he
  · rcases Dict.mem_entries_set hp with rfl | hp
    · exact hobj hcalm
    · exact h.2 hcalm p hp

/-- What is under a key is changed in place: the entry keeps its deadline. -/
theorem Done.store_value (h : w.Done k) {value : Obj F} (hobj : w.calm → value.InOrder) :
    w.Done { k with store.storage := match k.store.storage.get key with
      | some e => k.store.storage.set key { e with value := value }
      | none => k.store.storage } := by
  split
  · rename_i e he
    refine ⟨fun other e' he' => ?_, fun hcalm p hp => ?_⟩
    · have hcontent := Store.content_set k.store w.ctx.clock.mono key { e with value := value }
      rw [hcontent] at he'
      unfold Content.put at he'
      by_cases hkey : other = key
      · subst hkey
        split at he'
        · rename_i hlive
          rw [Finmap.lookup_insert] at he'
          cases he'
          refine h.1 other e ?_
          rw [Store.content_lookup, he]
          exact Option.filter_eq_some_iff.2 ⟨rfl, hlive⟩
        · rw [Finmap.lookup_erase] at he'
          cases he'
      · refine h.1 other e' ?_
        split at he'
        · rwa [Finmap.lookup_insert_of_ne _ hkey] at he'
        · rwa [Finmap.lookup_erase_ne hkey] at he'
    · rcases Dict.mem_entries_set hp with rfl | hp
      · exact hobj hcalm
      · exact h.2 hcalm p hp
  · exact h

/-! ## Rules -/

theorem Reads.bind (hm : w.Reads m Q) (hf : ∀ a, Q a → w.Reads (f a) R) : w.Reads (m >>= f) R := Keeps.bind hm hf

theorem Reads.weaken (h : w.Reads m Q) (hQ : ∀ a, Q a → Q' a) : w.Reads m Q' := Keeps.weaken h hQ

theorem Reads.pure {a : α} (h : Q a) : w.Reads (Pure.pure a) Q := Keeps.pure h

theorem Reads.raise {e : Exc Errors} : w.Reads (Prog.raise e : K F α) Q := Keeps.raise

theorem Reads.ite [Decidable c] {m' : K F α} (h : c → w.Reads m Q) (h' : ¬c → w.Reads m' Q) :
    w.Reads (if c then m else m') Q := Keeps.ite h h'

theorem Commits.pure {a : α} (h : Q a) : w.Commits (Pure.pure a) Q := Triple.pure fun _ hs => ⟨hs, h⟩

/-- A command that is calm does not get here. -/
theorem Commits.raise {e : Exc Errors} (h : ¬w.calm) : w.Commits (Prog.raise e : K F α) Q := Triple.raise fun _ hs => ⟨hs, h⟩

theorem Commits.bind (hm : w.Commits m Q) (hf : ∀ a, Q a → w.Commits (f a) R) : w.Commits (m >>= f) R :=
  Triple.bind hm fun a s hs => hf a hs.2 s hs.1

theorem Commits.weaken (h : w.Commits m Q) (hQ : ∀ a, Q a → Q' a) : w.Commits m Q' :=
  Triple.weaken h fun a _ hs => ⟨hs.1, hQ a hs.2⟩

theorem Commits.ite [Decidable c] {m' : K F α} (h : c → w.Commits m Q) (h' : ¬c → w.Commits m' Q) :
    w.Commits (if c then m else m') Q :=
  Triple.ite h h'

theorem Commits.each {g : α → K F Unit} {xs : List α} (h : ∀ x ∈ xs, w.Commits (g x) fun _ => True) :
    w.Commits (Prog.each g xs) fun _ => True := by
  induction xs with
  | nil => exact .pure trivial
  | cons x xs ih => exact (h x (by simp)).bind fun _ _ => ih fun y hy => h y (by simp [hy])

theorem Commits.fold {γ : Type} {g : γ → α → K F γ} {b : γ} {xs : List α} (h : ∀ b, ∀ x ∈ xs, w.Commits (g b x) fun _ => True) :
    w.Commits (Prog.fold g b xs) fun _ => True := by
  induction xs generalizing b with
  | nil => exact .pure trivial
  | cons x xs ih => exact (h b x (by simp)).bind fun _ _ => ih fun b y hy => h b y (by simp [hy])

theorem Reads.each {g : α → K F Unit} {xs : List α} (h : ∀ x ∈ xs, w.Reads (g x) fun _ => True) :
    w.Reads (Prog.each g xs) fun _ => True :=
  Keeps.each h

theorem Reads.fold {γ : Type} {g : γ → α → K F γ} {P : γ → Prop} {b : γ} {xs : List α} (hb : P b)
    (h : ∀ b, P b → ∀ x ∈ xs, w.Reads (g b x) P) : w.Reads (Prog.fold g b xs) P := by
  induction xs generalizing b with
  | nil => exact .pure hb
  | cons x xs ih => exact (h b hb x (by simp)).bind fun b hb => ih hb fun b hb y hy => h b hb y (by simp [hy])

theorem Reads.atomic (h : w.Reads m Q) : w.Atomic m Q :=
  Triple.conseq h (fun _ hs => hs) (fun _ _ hs => ⟨hs.1.done, hs.2⟩) fun _ _ hs => ⟨hs.done, fun _ => hs⟩

theorem Commits.atomic (h : w.Commits m Q) : w.Atomic m Q :=
  Triple.conseq h (fun _ hs => hs.done) (fun _ _ hs => hs) fun _ _ hs => ⟨hs.1, fun hcalm => absurd hcalm hs.2⟩

theorem Writes.pure {a : α} (h : Q a) : w.Writes (Pure.pure a) Q := Triple.pure fun _ hs => ⟨hs, h⟩

theorem Writes.raise {e : Exc Errors} : w.Writes (Prog.raise e : K F α) Q := Triple.raise fun _ hs => hs

theorem Writes.bind (hm : w.Writes m Q) (hf : ∀ a, Q a → w.Writes (f a) R) : w.Writes (m >>= f) R :=
  Triple.bind hm fun a s hs => hf a hs.2 s hs.1

theorem Writes.ite [Decidable c] {m' : K F α} (h : c → w.Writes m Q) (h' : ¬c → w.Writes m' Q) :
    w.Writes (if c then m else m') Q :=
  Triple.ite h h'

theorem Commits.writes (h : w.Commits m Q) : w.Writes m Q :=
  Triple.conseq h (fun _ hs => hs) (fun _ _ hs => hs) fun _ _ hs => hs.1

theorem Writes.ends (h : w.Writes m Q) : w.Ends m := Triple.conseq h (fun _ hs => hs.done) (fun _ _ hs => hs.1) fun _ _ hs => hs

/-- First read, then write. -/
theorem Reads.ends (hm : w.Reads m Q) (hf : ∀ a, Q a → w.Ends (f a)) : w.Ends (m >>= f) :=
  Triple.bind (Q := fun a k => w.At k ∧ Q a) (hm.conseq (fun _ hs => hs) (fun _ _ hs => hs) fun _ _ hs => hs.done)
    fun a s hs => hf a hs.2 s hs.1

theorem Finishes.ends {m : K F Reply} (h : w.Finishes m) : w.Ends m :=
  Triple.conseq h (fun _ hs => hs) (fun _ _ hs => hs.1) fun _ _ hs => hs.1

/-- Nothing is asked of a command that is not calm but that it ends. -/
theorem Ends.finishes {m : K F Reply} (h : w.Ends m) (hcalm : ¬w.calm) : w.Finishes m :=
  Triple.conseq h (fun _ hs => hs) (fun _ _ hs => ⟨hs, fun hc => absurd hc hcalm⟩) fun _ _ hs => ⟨hs, fun hc => absurd hc hcalm⟩

theorem Reads.finishes {m : K F Reply} {Q : Reply → Prop} (h : w.Reads m Q) : w.Finishes m :=
  Triple.conseq h (fun _ hs => hs) (fun _ _ hs => ⟨hs.1.done, fun _ => .inr hs.1⟩) fun _ _ hs => ⟨hs.done, fun _ => hs⟩

theorem Atomic.finishes {m : K F Reply} (h : w.Atomic m w.Answers) : w.Finishes m :=
  Triple.conseq h (fun _ hs => hs) (fun _ _ hs => ⟨hs.1, fun hc => .inl (hs.2 hc)⟩) fun _ _ hs => hs

theorem Reads.thenFinishes {f : α → K F Reply} (hm : w.Reads m Q) (hf : ∀ a, Q a → w.Finishes (f a)) : w.Finishes (m >>= f) :=
  Triple.bind (Q := fun a k => w.At k ∧ Q a) (hm.conseq (fun _ hs => hs) (fun _ _ hs => hs) fun _ _ hs => ⟨hs.done, fun _ => hs⟩)
    fun a s hs => hf a hs.2 s hs.1

/-- First read, then write. -/
theorem Reads.andThen (hm : w.Reads m Q) (hf : ∀ a, Q a → w.Atomic (f a) R) : w.Atomic (m >>= f) R :=
  Triple.bind (Q := fun a k => w.At k ∧ Q a) (hm.conseq (fun _ hs => hs) (fun _ _ hs => hs) fun _ _ hs => ⟨hs.done, fun _ => hs⟩)
    fun a s hs => hf a hs.2 s hs.1

/-- First write as a whole, then go on writing. -/
theorem Atomic.andThen (hm : w.Atomic m Q) (hf : ∀ a, Q a → w.Commits (f a) R) : w.Atomic (m >>= f) R :=
  Triple.bind hm fun a s hs => (hf a hs.2).conseq (fun _ hs => hs) (fun _ _ hs => hs)
    (fun _ _ hs => ⟨hs.1, fun hcalm => absurd hcalm hs.2⟩) s hs.1

theorem Atomic.ite [Decidable c] {m' : K F α} (h : c → w.Atomic m Q) (h' : ¬c → w.Atomic m' Q) :
    w.Atomic (if c then m else m') Q :=
  Triple.ite h h'

theorem Atomic.pure {a : α} (h : Q a) : w.Atomic (Pure.pure a) Q := (Reads.pure h).atomic

theorem Atomic.raise {e : Exc Errors} : w.Atomic (Prog.raise e : K F α) Q := Reads.raise.atomic

/-- A check that raises before anything is written. -/
theorem Atomic.check [Decidable c] {e : Errors} {g : PUnit → K F α} (h : ¬c → w.Atomic (g PUnit.unit) Q) :
    w.Atomic (if c then throw_ e >>= g else g PUnit.unit) Q :=
  .ite (fun _ => Reads.andThen (Q := fun _ => False) .raise fun _ => False.elim) h

theorem Reads.check [Decidable c] {e : Errors} {g : PUnit → K F α} (h : ¬c → w.Reads (g PUnit.unit) Q) :
    w.Reads (if c then throw_ e >>= g else g PUnit.unit) Q :=
  .ite (fun _ => .bind (Q := fun _ => False) .raise fun _ => False.elim) h

/-- A check that a command which is calm passes. -/
theorem Commits.check [Decidable c] {e : Errors} {g : PUnit → K F α} (hcalm : w.calm → ¬c) (h : w.Commits (g PUnit.unit) Q) :
    w.Commits (if c then throw_ e >>= g else g PUnit.unit) Q :=
  .ite (fun hc => .bind (Q := fun _ => False) (.raise fun hw => hcalm hw hc) fun _ => False.elim) fun _ => h

/-! ## Reads -/

theorem reads_of_computes (h : Computes m Q) : w.Reads m Q := by
  intro k hk
  obtain ⟨out, hrun, hQ⟩ := h.run w.ctx
  rw [hrun]
  cases out with
  | ok a => exact ⟨hk, hQ a rfl⟩
  | error e => exact hk

theorem reads_of_same (h : Respects SameStore m) : w.Reads m fun _ => True := by
  intro k hk
  have hsame : w.At (m w.ctx k).2 := hk.congr (congrArg Store.storage (h w.ctx k))
  revert hsame
  cases m w.ctx k with
  | mk out k' =>
    cases out with
    | ok _ => exact fun hk => ⟨hk, trivial⟩
    | error _ => exact id

theorem reads_notify (key : Value) (event : Event) : w.Reads (_notify key event) fun _ => True :=
  reads_of_same (sameStore_notify key event)

theorem reads_touch (key : Value) : w.Reads (touch key) fun _ => True := Keeps.modify fun _ hk => hk.congr rfl

theorem reads_after_write (key : Value) (event : Event) : w.Reads (_after_write key event) fun _ => True :=
  (reads_touch key).bind fun _ _ => reads_notify key event

/-- A program that starts with the entry of a key: there is none, an expired one or a live one. -/
theorem reads_entry {tail : Option (Entry F) → K F α} (hnone : w.start.lookup key = none → w.Reads (tail none) Q)
    (hdead : ∀ e k, w.At k → w.start.lookup key = none → k.store.storage.get key = some e → e.live w.ctx.clock.mono = false →
      Outcome (fun a k => w.At k ∧ Q a) (fun _ => w.At) (tail (some e) w.ctx k))
    (hlive : ∀ e, e.live w.ctx.clock.mono = true → w.start.lookup key = some e → w.Reads (tail (some e)) Q) :
    w.Reads (entry key >>= tail) Q := by
  intro k hk
  cases hkey : key.hashable with
  | false =>
    rw [bind_entry_unhashable hkey]
    exact hk
  | true =>
    rw [bind_entry hkey]
    obtain ⟨hget, hm⟩ | ⟨e, hget, he, hm⟩ | ⟨e, hget, he, hm⟩ := k.store.lookup_cases w.ctx.clock.mono key
    all_goals rw [hget]; rw [hk.1] at hm
    · exact hnone hm k hk
    · exact hdead e k hk hm hget he
    · exact hlive e he hm k hk

/-- An expired entry that is found is purged. -/
theorem purge_outcome (hk : w.At k) {e : Entry F} (hget : k.store.storage.get key = some e)
    (he : e.live w.ctx.clock.mono = false) {a : α}
    (ha : Q a) : Outcome (fun a k => w.At k ∧ Q a) (fun _ => w.At)
    ((_purge_key key >>= fun _ => Pure.pure a : K F α) w.ctx k) := by
  have hdead : w.At { k with store.storage := k.store.storage.erase key } := hk.purge fun e' he' => by
    rw [hget] at he'
    cases he'
    exact he
  exact ((reads_notify key .expired).bind fun _ _ => .pure ha) _ hdead

/-- A look at a key finds the value the content held at the start. -/
theorem reads_get (key : Value) : w.Reads (data_get key) fun o => o = w.start.value key := by
  refine reads_entry (fun hm => .pure ?_) (fun e k hk hm hget he => ?_) fun e he hm => ?_
  · rw [Content.value, hm]
    rfl
  · change Outcome _ _ ((if e.live w.ctx.clock.mono then (_ : K F (Option (Obj F))) else _) w.ctx k)
    rw [if_neg (by rw [he]; decide)]
    refine purge_outcome hk hget he ?_
    rw [Content.value, hm]
    rfl
  · intro k hk
    change Outcome _ _ ((if e.live w.ctx.clock.mono then (_ : K F (Option (Obj F))) else _) w.ctx k)
    rw [if_pos he, Content.value, hm, Option.bind_some]
    cases e.value with
    | raw v => cases v <;> exact ⟨hk, rfl⟩
    | _ => exact ⟨hk, rfl⟩

theorem reads_is_live (key : Value) : w.Reads (is_live key) fun b => b = (w.start.lookup key).isSome := by
  refine reads_entry (fun hm => .pure ?_) (fun e k hk hm hget he => ?_) fun e he hm => ?_
  · rw [hm]
    rfl
  · refine ⟨hk, ?_⟩
    rw [hm]
    exact he
  · intro k hk
    refine ⟨hk, ?_⟩
    rw [hm]
    exact he

/-- The questions about the remaining time of a key. -/
theorem reads_remaining {f : Int → Int} {tail : Option (Entry F) → K F Int} (hnone : ∀ k, tail none w.ctx k = (.ok (-2), k))
    (hforever : ∀ e k, e.expires_at = none → tail (some e) w.ctx k = (.ok (-1), k))
    (htimed : ∀ e t k, e.expires_at = some t → tail (some e) w.ctx k =
      (if t ≤ w.ctx.clock.mono then _purge_key key >>= fun _ => pure (-2) else pure (f t)) w.ctx k) :
    w.Reads (entry key >>= tail) fun _ => True := by
  refine reads_entry (fun _ k hk => ?_) (fun e k hk _ hget he => ?_) fun e he _ k hk => ?_
  · rw [hnone]
    exact ⟨hk, trivial⟩
  all_goals cases ht : e.expires_at with
    | none =>
      rw [hforever e k ht]
      exact ⟨hk, trivial⟩
    | some t =>
      rw [Entry.live_of_some ht] at he
      rw [htimed e t k ht]
      first
        | rw [if_pos (not_lt.1 (of_decide_eq_false he))]
          exact purge_outcome hk hget ((Entry.live_of_some ht _).trans he) trivial
        | rw [if_neg (not_le.2 (of_decide_eq_true he))]
          exact ⟨hk, trivial⟩

theorem reads_wall_expiry (key : Value) : w.Reads (wall_expiry key) fun _ => True := by
  refine reads_remaining (f := fun t => w.ctx.clock.wall + (t - w.ctx.clock.mono)) (fun _ => rfl)
    (fun e k he => ?_) fun e t k he => ?_
  all_goals
    refine (bind_ok w.ctx k (show clock w.ctx k = (.ok w.ctx.clock, k) from rfl)).trans ?_
    rw [he]
  rfl

theorem reads_ttl_ms (key : Value) : w.Reads (ttl_ms key) fun _ => True := by
  refine reads_remaining (f := fun t => -((w.ctx.clock.mono - t) / 1000000)) (fun _ => rfl) (fun e k he => ?_) fun e t k he => ?_
  all_goals
    dsimp only
    rw [he]
    rfl

theorem reads_ttl (key : Value) : w.Reads (ttl key) fun _ => True := by
  refine (reads_ttl_ms key).bind ?_
  intro _ _
  exact .ite (fun _ => .pure trivial) fun _ => .pure trivial

/-- A sweep purges expired entries only. -/
theorem reads_sweep : w.Reads _sweep fun _ => True := by
  intro k hk
  have hall : ∀ dead : List (Value × Entry F), (∀ p ∈ dead, p.2.live w.ctx.clock.mono = false) →
      Triple w.ctx (fun k => w.At k ∧ ∀ p ∈ dead, ∀ e, k.store.storage.get p.1 = some e → e.live w.ctx.clock.mono = false)
        (Prog.each (fun p => _purge_key p.1) dead) (fun _ k => w.At k ∧ True) fun _ => w.At := by
    intro dead hdead
    induction dead with
    | nil => exact .pure fun _ hs => ⟨hs.1, trivial⟩
    | cons p dead ih =>
      refine Triple.bind (Q := fun _ k => w.At k ∧ ∀ p ∈ dead, ∀ e, k.store.storage.get p.1 = some e →
        e.live w.ctx.clock.mono = false) ?_
        fun _ => ih fun q hq => hdead q (List.mem_cons_of_mem _ hq)
      rintro k ⟨hk, hold⟩
      have hat := hk.purge (hold p List.mem_cons_self)
      have hsame := sameStore_notify p.1 .expired w.ctx { k with store.storage := k.store.storage.erase p.1 }
      have hrest : ∀ q ∈ dead, ∀ e, (k.store.storage.erase p.1).get q.1 = some e → e.live w.ctx.clock.mono = false := by
        intro q hq e he
        rw [Dict.get_erase] at he
        split at he
        · cases he
        · exact hold q (List.mem_cons_of_mem _ hq) e he
      change Outcome _ _ (_notify p.1 .expired w.ctx { k with store.storage := k.store.storage.erase p.1 })
      revert hsame
      cases _notify p.1 .expired w.ctx { k with store.storage := k.store.storage.erase p.1 } with
      | mk out k' =>
        intro hsame
        have hstorage : k'.store.storage = k.store.storage.erase p.1 := congrArg Store.storage hsame
        cases out with
        | ok _ =>
          refine ⟨hat.congr hstorage, ?_⟩
          rw [hstorage]
          exact hrest
        | error _ => exact hat.congr hstorage
  refine hall (k.store.storage.entries.filter fun p => !p.2.live w.ctx.clock.mono) (fun p hp => ?_) k ⟨hk, fun p hp e he => ?_⟩
  · simpa using (List.mem_filter.1 hp).2
  · obtain ⟨hp, hdead⟩ := List.mem_filter.1 hp
    rw [(Dict.get_eq_some_iff ..).2 hp] at he
    cases he
    simpa using hdead

theorem reads_state {g : KState F → α} : w.Reads (fun _ k => (.ok (g k), k)) fun _ => True := fun _ hk => ⟨hk, trivial⟩

theorem reads_keys : w.Reads data_keys fun _ => True := reads_sweep.bind fun _ _ => reads_state

theorem reads_keyspace_stats : w.Reads keyspace_stats fun _ => True := reads_sweep.bind fun _ _ => reads_state

/-! ## Lists of reads and random choices -/

theorem reads_mapM {f : α → K F β} {xs : List α} {Q : β → Prop} (h : ∀ x ∈ xs, w.Reads (f x) Q) :
    w.Reads (mapM_ f xs) fun ys => ∀ y ∈ ys, Q y := by
  induction xs with
  | nil => exact .pure nofun
  | cons x xs ih =>
    refine (h x (by simp)).bind fun y hy => (ih fun z hz => h z (by simp [hz])).bind fun ys hys => .pure ?_
    exact List.forall_mem_cons.2 ⟨hy, hys⟩

theorem reads_filterM {p : α → K F Bool} {xs : List α} (h : ∀ x ∈ xs, w.Reads (p x) fun _ => True) :
    w.Reads (filterM_ p xs) fun _ => True := by
  induction xs with
  | nil => exact .pure trivial
  | cons x xs ih => exact (h x (by simp)).bind fun _ _ => (ih fun y hy => h y (by simp [hy])).bind fun _ _ => .pure trivial

theorem reads_of_returns (h : Returns w.ctx m Q) : w.Reads m Q := by
  intro k hk
  obtain ⟨a, k', hrun, hsame, ha⟩ := h k
  rw [hrun]
  exact ⟨hk.congr hsame, ha⟩

theorem commits_of_returns (h : Returns w.ctx m Q) : w.Commits m Q := by
  intro k hk
  obtain ⟨a, k', hrun, hsame, ha⟩ := h k
  rw [hrun]
  exact ⟨hk.congr hsame, ha⟩

/-- A program that leaves the store alone, and returns when the command is calm. -/
theorem commits_of_same (hsame : Respects SameStore m) (hcalm : w.calm → ∀ k, ∃ a, (m w.ctx k).1 = .ok a) :
    w.Commits m fun _ => True := by
  intro k hk
  have hdone : w.Done (m w.ctx k).2 := hk.congr (congrArg Store.storage (hsame w.ctx k))
  have hok := fun h => hcalm h k
  revert hdone hok
  cases m w.ctx k with
  | mk out k' =>
    cases out with
    | ok _ => exact fun hk _ => ⟨hk, trivial⟩
    | error e =>
      refine fun hk hok => ⟨hk, fun h => ?_⟩
      obtain ⟨a, ha⟩ := hok h
      cases ha

theorem commits_notify (hkey : w.calm → key.IsBytes) (event : Event) : w.Commits (_notify key event) fun _ => True := by
  refine commits_of_same (sameStore_notify key event) fun h k => ⟨(), ?_⟩
  obtain ⟨b, rfl⟩ := (Value.isBytes_iff key).1 (hkey h)
  obtain ⟨k', hrun, -⟩ := notify_run (w.events h event) b k
  exact congrArg Prod.fst hrun

theorem commits_after_write (hkey : w.calm → key.IsBytes) (event : Event) : w.Commits (_after_write key event) fun _ => True :=
  Commits.bind (Q := fun _ => True) (Triple.modify fun _ hk => ⟨hk.congr rfl, trivial⟩) fun _ _ => commits_notify hkey event

/-- What a program computes is computed without an exception when the command is calm. -/
theorem commits_of_computes (h : Computes m Q) (hcalm : w.calm → ∃ a, m = pure a) : w.Commits m Q := by
  intro k hk
  obtain ⟨out, hrun, hQ⟩ := h.run w.ctx
  have hok : w.calm → ∃ a, out = .ok a := fun hc => by
    obtain ⟨a, rfl⟩ := hcalm hc
    exact ⟨a, (Prod.mk.inj (hrun k)).1.symm⟩
  rw [hrun]
  cases out with
  | ok a => exact ⟨hk, hQ a rfl⟩
  | error e =>
    refine ⟨hk, fun hc => ?_⟩
    obtain ⟨a, ha⟩ := hok hc
    cases ha

theorem commits_orFail {a : Option α} (h : w.calm → a ≠ none) : w.Commits (orFail a) fun x => a = some x := by
  cases a with
  | none => exact .raise fun hc => h hc rfl
  | some x => exact .pure rfl

theorem commits_needHash {v : Value} (h : w.calm → v.IsBytes) : w.Commits (needHash v) fun _ => v.hashable = true := by
  refine commits_of_computes (computes_needHash v) fun hc => ⟨(), ?_⟩
  rw [needHash, if_pos (h hc).hashable]

theorem commits_clock : w.Commits clock (· = w.ctx.clock) := commits_of_returns fun k => ⟨_, k, rfl, rfl, rfl⟩

theorem commits_filterM {p : α → K F Bool} {xs : List α} (h : ∀ x ∈ xs, w.Commits (p x) fun _ => True) :
    w.Commits (filterM_ p xs) fun ys => ∀ y ∈ ys, y ∈ xs := by
  induction xs with
  | nil => exact .pure nofun
  | cons x xs ih =>
    refine (h x (by simp)).bind fun keep _ => (ih fun y hy => h y (by simp [hy])).bind fun rest hrest => .pure ?_
    split
    · exact List.forall_mem_cons.2 ⟨by simp, fun y hy => List.mem_cons_of_mem _ (hrest y hy)⟩
    · exact fun y hy => List.mem_cons_of_mem _ (hrest y hy)

/-! ## Writes -/

theorem commits_store_value {value : Obj F} (hobj : w.calm → value.InOrder) : w.Commits (store_value key value) fun _ => True :=
  Triple.modify fun _ hk => ⟨hk.store_value hobj, trivial⟩

theorem commits_put {e : Entry F} (hfits : w.Fits key e.expires_at) (hobj : w.calm → e.value.InOrder) :
    w.Commits (setStorage (·.set key e)) fun _ => True := Triple.modify fun _ hk => ⟨hk.set hfits hobj, trivial⟩

/-- A new entry is stored where there was no value, or where the deadline may change. -/
theorem commits_setitem {value : Obj F} (hkey : w.calm → key.IsBytes) (hfits : key ∈ w.free ∨ w.start.value key = none)
    (hobj : w.calm → value.InOrder) : w.Commits (setitem key value) fun _ => True :=
  (commits_needHash hkey).bind fun _ _ => commits_put (hfits.imp_right fun h => .inr ⟨h, rfl⟩) hobj

/-- A program that starts with the entry of a key. -/
theorem commits_entry {tail : Option (Entry F) → K F α} (hkey : w.calm → key.IsBytes)
    (h : ∀ o k, w.Done k → k.store.storage.get key = o → Outcome (fun a k => w.Done k ∧ Q a) (fun _ k => w.Done k ∧ ¬w.calm)
      (tail o w.ctx k)) :
    w.Commits (entry key >>= tail) Q := by
  intro k hk
  cases hhash : key.hashable with
  | false =>
    rw [bind_entry_unhashable hhash]
    refine ⟨hk, fun hc => ?_⟩
    rw [(hkey hc).hashable] at hhash
    cases hhash
  | true =>
    rw [bind_entry hhash]
    exact h _ k hk rfl

theorem commits_remove (hkey : w.calm → key.IsBytes) : w.Commits (data_remove key) fun _ => True := by
  refine commits_entry hkey ?_
  intro o k hk _
  cases o with
  | none => exact ⟨hk, trivial⟩
  | some e => exact ⟨hk.erase key, trivial⟩

theorem commits_is_live (hkey : w.calm → key.IsBytes) : w.Commits (is_live key) fun _ => True := by
  refine commits_entry hkey ?_
  intro o k hk _
  cases o with
  | none => exact ⟨hk, trivial⟩
  | some e => exact ⟨hk, trivial⟩

/-- What is stored under a key whose deadline may change. -/
theorem commits_data_set {value : Obj F} {deadline : Option Int} {keep_ttl : Bool} (hkey : w.calm → key.IsBytes)
    (hfree : key ∈ w.free)
    (hobj : w.calm → value.InOrder) : w.Commits (data_set key value deadline keep_ttl) fun _ => True := by
  refine commits_clock.bind ?_
  intro _ _
  refine commits_entry hkey ?_
  intro o k hk _
  exact commits_put (.inl hfree) hobj k hk

/-- What is stored with the deadline that is there. -/
theorem atomic_data_set {value : Obj F} (hobj : w.calm → value.InOrder) :
    w.Atomic (data_set key value none true) fun _ => True := by
  intro k hk
  have hclock : (clock : K F Clock) w.ctx k = (.ok w.ctx.clock, k) := rfl
  unfold data_set
  rw [bind_ok w.ctx k hclock]
  cases hkey : key.hashable with
  | false =>
    rw [bind_entry_unhashable hkey]
    exact ⟨hk.done, fun _ => hk⟩
  | true =>
    rw [bind_entry hkey]
    refine ⟨hk.done.set ?_ hobj, trivial⟩
    obtain ⟨hget, hm⟩ | ⟨e, hget, he, hm⟩ | ⟨e, hget, he, hm⟩ := k.store.lookup_cases w.ctx.clock.mono key
    all_goals rw [hk.1] at hm; simp only [hget]
    · exact .inr (.inr ⟨by rw [Content.value, hm]; rfl, rfl⟩)
    · refine .inr (.inr ⟨by rw [Content.value, hm]; rfl, ?_⟩)
      rw [he]
      rfl
    · refine .inr (.inl ⟨e, hm, ?_⟩)
      rw [he]
      rfl

theorem commits_purge (hkey : w.calm → key.IsBytes) : w.Commits (_purge_key key) fun _ => True :=
  Commits.bind (Q := fun _ => True) (Triple.modify fun _ hk => ⟨hk.erase key, trivial⟩) fun _ _ => commits_notify hkey .expired

/-- The entry of a key whose deadline may change, with another deadline. -/
theorem done_retime {k : KState F} (hk : w.Done k) (hfree : key ∈ w.free) {e : Entry F}
    (hget : k.store.storage.get key = some e) (t : Option Int) :
    w.Done { k with store.storage := k.store.storage.set key { e with expires_at := t } } :=
  hk.set (.inl hfree) fun hc => hk.2 hc (key, e) ((Dict.get_eq_some_iff ..).1 hget)

/-- EXPIRE and EXPIREAT, by their test for a deadline that has passed. -/
theorem commits_deadline {tail : Option (Entry F) → K F Bool} {t : Option Int} [Decidable c] (hkey : w.calm → key.IsBytes)
    (hfree : key ∈ w.free)
    (hnone : ∀ k, tail none w.ctx k = (.ok false, k))
    (hsome : ∀ e k, tail (some e) w.ctx k = (if !e.live w.ctx.clock.mono then _purge_key key >>= fun _ => pure false
      else if c then setStorage (·.erase key) >>= fun _ => pure true
      else setStorage (·.set key { e with expires_at := t }) >>= fun _ => pure true) w.ctx k) :
    w.Commits (entry key >>= tail) fun _ => True := by
  refine commits_entry hkey ?_
  intro o k hk hget
  cases o with
  | none =>
    rw [hnone]
    exact ⟨hk, trivial⟩
  | some e =>
    rw [hsome]
    split
    · exact ((commits_purge hkey).bind fun _ _ => .pure trivial) k hk
    split
    · exact ⟨hk.erase key, trivial⟩
    · exact ⟨done_retime hk hfree hget t, trivial⟩

theorem commits_expire (hkey : w.calm → key.IsBytes) (hfree : key ∈ w.free) (secs : Int) :
    w.Commits (data_expire key secs) fun _ => True :=
  commits_deadline (c := secs ≤ 0) (t := some (w.ctx.clock.mono + secs * 10 ^ 9)) hkey hfree (fun _ => rfl) fun _ _ => rfl

theorem commits_expire_at (hkey : w.calm → key.IsBytes) (hfree : key ∈ w.free) (wall_deadline_ns : Int) :
    w.Commits (data_expire_at key wall_deadline_ns) fun _ => True :=
  commits_deadline (c := w.ctx.clock.mono + (wall_deadline_ns - w.ctx.clock.wall) ≤ w.ctx.clock.mono)
    (t := some (w.ctx.clock.mono + (wall_deadline_ns - w.ctx.clock.wall))) hkey hfree (fun _ => rfl) fun _ _ => rfl

theorem commits_persist (hkey : w.calm → key.IsBytes) (hfree : key ∈ w.free) : w.Commits (persist key) fun _ => True := by
  refine commits_entry hkey ?_
  intro o k hk hget
  cases o with
  | none => exact ⟨hk, trivial⟩
  | some e =>
    change Outcome _ _ ((if !e.live w.ctx.clock.mono then (_ : K F Bool) else _) w.ctx k)
    split
    · exact ⟨hk.erase key, trivial⟩
    split
    · exact ⟨hk, trivial⟩
    · exact ⟨done_retime hk hfree hget none, trivial⟩

/-! ## What is under a key -/

theorem reads_expect_kind (key : Value) (kind : Kind) :
    w.Reads (expect_kind key kind) fun o => w.start.value key = o ∧ ∀ v, o = some v → kind_of v = some kind := by
  refine (reads_get key).bind ?_
  intro o ho
  cases o with
  | none => exact .pure ⟨ho.symm, nofun⟩
  | some obj => exact .ite (fun h => .pure ⟨ho.symm, fun v hv => Option.some.inj hv ▸ h⟩) fun _ => .raise

/-- A value of the kind that is asked for, taken out of its constructor. -/
theorem reads_kind {kind : Kind} {γ : Type} {f : Option (Obj F) → K F (Option γ)} {wrap : γ → Obj F} (key : Value)
    (hnone : f none = pure none)
    (hsome : ∀ v, kind_of v = some kind → ∃ b, v = wrap b ∧ f (some v) = pure (some b)) :
    w.Reads (expect_kind key kind >>= f) fun o => w.start.value key = o.map wrap := by
  refine (reads_expect_kind key kind).bind ?_
  intro o ho
  cases o with
  | none =>
    rw [hnone]
    exact .pure ho.1
  | some v =>
    obtain ⟨b, rfl, hf⟩ := hsome v (ho.2 v rfl)
    rw [hf]
    exact .pure ho.1

theorem reads_string (key : Value) : w.Reads (_string key) fun o => w.start.value key = o.map fun b => .raw (.bytes b) := by
  refine reads_kind key rfl ?_
  intro v hv
  cases v with
  | raw v =>
    cases v with
    | bytes b => exact ⟨b, rfl, rfl⟩
    | _ => cases hv
  | _ => cases hv

theorem reads_list (key : Value) : w.Reads (_list key) fun o => w.start.value key = o.map ListRef.obj := by
  refine reads_kind key rfl ?_
  intro v hv
  cases v with
  | raw v =>
    cases v with
    | array items => exact ⟨⟨false, items⟩, rfl, rfl⟩
    | _ => cases hv
  | deque items => exact ⟨⟨true, items⟩, rfl, rfl⟩
  | _ => cases hv

theorem reads_set (key : Value) : w.Reads (_set key) fun o => w.start.value key = o.map .set := by
  refine reads_kind key rfl ?_
  intro v hv
  cases v with
  | raw v => cases v <;> cases hv
  | set s => exact ⟨s, rfl, rfl⟩
  | _ => cases hv

theorem reads_hash (key : Value) : w.Reads (_hash key) fun o => w.start.value key = o.map .hash := by
  refine reads_kind key rfl ?_
  intro v hv
  cases v with
  | raw v => cases v <;> cases hv
  | hash fields => exact ⟨fields, rfl, rfl⟩
  | _ => cases hv

theorem reads_zset (key : Value) : w.Reads (_zset key) fun o => w.start.value key = o.map .zset := by
  refine reads_kind key rfl ?_
  intro v hv
  cases v with
  | raw v => cases v <;> cases hv
  | zset z => exact ⟨z, rfl, rfl⟩
  | _ => cases hv

theorem reads_bitmap (key : Value) : w.Reads (_bitmap key) fun o => w.start.value key = o.map .bitmap := by
  refine reads_kind key rfl ?_
  intro v hv
  cases v with
  | raw v => cases v <;> cases hv
  | bitmap b => exact ⟨b, rfl, rfl⟩
  | _ => cases hv

/-- A read in between writes, by a command that may raise there. -/
theorem commits_of_reads (hcalm : ¬w.calm) (h : ∀ w' : Watch F, w'.ctx = w.ctx → w'.Reads m fun _ => True) :
    w.Commits m fun _ => True := by
  intro k hk
  let w' : Watch F := ⟨w.ctx, k.store.content w.ctx.clock.mono, w.free, False, False.elim, False.elim, False.elim, False.elim⟩
  have hrun : Outcome (fun a k' => w'.At k' ∧ True) (fun _ => w'.At) (m w.ctx k) := h w' rfl k ⟨rfl, False.elim⟩
  have hdone : ∀ k', w'.At k' → w.Done k' := by
    intro k' hk'
    have hcontent : k'.store.content w.ctx.clock.mono = k.store.content w.ctx.clock.mono := hk'.1
    refine ⟨fun key e he => hk.1 key e ?_, fun hc => absurd hc hcalm⟩
    rwa [← hcontent]
  revert hrun
  cases m w.ctx k with
  | mk out k' =>
    cases out with
    | ok a => exact fun hk' => ⟨hdone k' hk'.1, trivial⟩
    | error e => exact fun hk' => ⟨hdone k' hk', hcalm⟩

/-- The end of a key that has been emptied. -/
theorem commits_drop [Decidable c] (hkey : w.calm → key.IsBytes) :
    w.Commits (if c then data_remove key >>= fun _ => pure () else pure () : K F Unit) fun _ => True :=
  .ite (fun _ => (commits_remove hkey).bind fun _ _ => .pure trivial) fun _ => .pure trivial

end Watch

/-! ## Programs that may be disturbed -/

/-- The watch over a program that may be disturbed: its events may raise, and anything may be stored. -/
def Watch.disturbed (ctx : Ctx) (start : Content F) (free : Set Value) : Watch F where
  ctx := ctx
  start := start
  free := free
  calm := False
  events := False.elim
  floats := False.elim
  typed := False.elim
  inOrder := False.elim

/-- What a program that reads leaves is the content it finds. -/
theorem content_of_reads {α : Type} {m : K F α} {Q : α → Prop} (h : ∀ w : Watch F, w.Reads m Q) (ctx : Ctx) (k : KState F) :
    (m ctx k).2.store.content ctx.clock.mono = k.store.content ctx.clock.mono := by
  have hend := h (.disturbed ctx (k.store.content ctx.clock.mono) ∅) k ⟨rfl, False.elim⟩
  revert hend
  change Outcome _ _ (m ctx k) → _
  cases m ctx k with
  | mk out k' =>
    cases out with
    | ok _ => exact fun hk => hk.1.1
    | error _ => exact fun hk => hk.1

end Kagni
