import Kagni.Content
import Kagni.Lemmas.Computes
import Kagni.Lemmas.Expiry

/-!
# The steps of the primitives

Each primitive of the keyspace takes one content to another, and so does a program that is put together of them.
-/

namespace Kagni

open Lib Lib.Prog

variable {F : Type} {ctx : Ctx} {ks : Set Bytes} {s s₁ s₂ : Content F} {α β : Type} {key : Bytes}

/-! ## States with a content -/

theorem Content.put_live (m : Content F) (key : Value) {e : Entry F} {now : Int} (h : e.live now = true) :
    m.put key e now = m.insert key e :=
  if_pos h

namespace Shows

variable {k k' : KState F}

/-- Nothing is asked of the keys. -/
theorem none (k : KState F) : Shows ctx ∅ (k.store.content ctx.clock.mono) k := ⟨rfl, fun _ hkey => hkey.elim⟩

/-- One key is open. -/
theorem one {key : Bytes} (h : ctx.Opens k key) : Shows ctx {key} (k.store.content ctx.clock.mono) k := ⟨rfl, fun _ hx => hx ▸ h⟩

/-- The storage is all that counts. -/
theorem of_storage (hk : Shows ctx ks s k) (h : k'.store.storage = k.store.storage) : Shows ctx ks s k' := by
  refine ⟨?_, fun key hkey e he => hk.opens key hkey e (h ▸ he)⟩
  rw [← hk.content, Store.content, Store.content, h]

/-- One entry is replaced, by one that is not waiting for its purge. -/
theorem set (hk : Shows ctx ks s k) (key : Value) {e : Entry F} (he : e.live ctx.clock.mono = true ∨ ctx.EventReturns .expired) :
    Shows ctx ks (s.put key e ctx.clock.mono) { k with store.storage := k.store.storage.set key e } := by
  refine ⟨(Store.content_set ..).trans (congrArg (Content.put · key e ctx.clock.mono) hk.content), fun x hx e' he' hdead => ?_⟩
  by_cases hkey : Value.bytes x = key
  · simp only [Dict.get_set, if_pos hkey, Option.some.injEq] at he'
    subst he'
    exact he.resolve_left (ne_true_of_eq_false hdead)
  · simp only [Dict.get_set, if_neg hkey] at he'
    exact hk.opens x hx e' he' hdead

theorem set_live (hk : Shows ctx ks s k) (key : Value) {e : Entry F} (he : e.live ctx.clock.mono = true) :
    Shows ctx ks (s.insert key e) { k with store.storage := k.store.storage.set key e } := by
  rw [← Content.put_live s key he]
  exact hk.set key (.inl he)

theorem erase (hk : Shows ctx ks s k) (key : Value) :
    Shows ctx ks (s.erase key) { k with store.storage := k.store.storage.erase key } := by
  refine ⟨(Store.content_erase ..).trans (congrArg (Finmap.erase key) hk.content), fun x hx e' he' hdead => ?_⟩
  by_cases hkey : Value.bytes x = key
  · simp only [Dict.get_erase, if_pos hkey] at he'
    cases he'
  · simp only [Dict.get_erase, if_neg hkey] at he'
    exact hk.opens x hx e' he' hdead

end Shows

/-! ## Rules -/

namespace Steps

variable {m : K F α} {f : α → K F β} {out : Except (Exc Errors) β}

theorem pure (a : α) : Steps ctx ks s (Pure.pure a : K F α) (.ok a) s := fun k hk => ⟨k, rfl, hk⟩

theorem raise (e : Exc Errors) : Steps ctx ks s (Prog.raise e : K F α) (.error e) s := fun k hk => ⟨k, rfl, hk⟩

theorem bind {a : α} (hm : Steps ctx ks s m (.ok a) s₁) (hf : Steps ctx ks s₁ (f a) out s₂) :
    Steps ctx ks s (m >>= f) out s₂ := by
  intro k hk
  obtain ⟨k₁, hrun, hk₁⟩ := hm k hk
  obtain ⟨k₂, hrest, hk₂⟩ := hf k₁ hk₁
  exact ⟨k₂, (bind_ok ctx k hrun).trans hrest, hk₂⟩

theorem bind_error {e : Exc Errors} (hm : Steps ctx ks s m (.error e) s₁) : Steps ctx ks s (m >>= f) (.error e) s₁ := by
  intro k hk
  obtain ⟨k₁, hrun, hk₁⟩ := hm k hk
  exact ⟨k₁, Prog.bind_error ctx k hrun, hk₁⟩

/-- A program that leaves the state alone. -/
theorem of_run {o : Except (Exc Errors) α} (h : ∀ k, m ctx k = (o, k)) : Steps ctx ks s m o s := fun k hk => ⟨k, h k, hk⟩

theorem ite {c : Prop} [Decidable c] {m m' : K F α} {o : Except (Exc Errors) α} (h : c → Steps ctx ks s m o s₁)
    (h' : ¬c → Steps ctx ks s m' o s₁) :
    Steps ctx ks s (if c then m else m') o s₁ := by
  split
  · exact h ‹_›
  · exact h' ‹_›

theorem if_pos {c : Prop} [Decidable c] {m m' : K F α} {o : Except (Exc Errors) α} (hc : c) (h : Steps ctx ks s m o s₁) :
    Steps ctx ks s (if c then m else m') o s₁ := ite (fun _ => h) fun hn => absurd hc hn

theorem if_neg {c : Prop} [Decidable c] {m m' : K F α} {o : Except (Exc Errors) α} (hc : ¬c) (h : Steps ctx ks s m' o s₁) :
    Steps ctx ks s (if c then m else m') o s₁ := ite (fun hp => absurd hp hc) fun _ => h

/-- A check that does not raise. -/
theorem check {c : Prop} [Decidable c] {e : Errors} {g : PUnit → K F α} {o : Except (Exc Errors) α} (hc : ¬c)
    (h : Steps ctx ks s (g PUnit.unit) o s₁) :
    Steps ctx ks s (if c then throw_ e >>= g else g PUnit.unit) o s₁ := if_neg hc h

/-- A check that raises. -/
theorem refuse {c : Prop} [Decidable c] {e : Errors} {g : PUnit → K F α} (hc : c) :
    Steps ctx ks s (if c then throw_ e >>= g else g PUnit.unit) (.error (.error e)) s := if_pos hc (bind_error (raise _))

theorem modify {f : KState F → KState F} (h : ∀ k, Shows ctx ks s k → Shows ctx ks s₁ (f k)) :
    Steps ctx ks s (Prog.modify f) (.ok ()) s₁ := fun k hk => ⟨f k, rfl, h k hk⟩

/-- The step says what the run says. -/
theorem outcome {o o' : Except (Exc Errors) α} {k k' : KState F} (h : Steps ctx ks s m o s₁) (hk : Shows ctx ks s k)
    (hrun : m ctx k = (o', k')) : o' = o ∧ Shows ctx ks s₁ k' := by
  obtain ⟨k₁, hrun', hk₁⟩ := h k hk
  rw [hrun] at hrun'
  cases hrun'
  exact ⟨rfl, hk₁⟩

/-- From a state with the content the program gives what it steps to. -/
theorem gives {o : Except (Exc Errors) α} {k : KState F} (h : Steps ctx ks s m o s₁) (hk : Shows ctx ks s k) :
    Gives m ctx k o s₁ := by
  obtain ⟨k', hrun, hk'⟩ := h k hk
  exact ⟨k', hrun, hk'.content⟩

end Steps

/-- A run gives one result. -/
theorem Gives.unique {m : K F α} {o o' : Except (Exc Errors) α} {k : KState F} (h : Gives m ctx k o s₁)
    (h' : Gives m ctx k o' s₂) :
    o = o' ∧ s₁ = s₂ := by
  obtain ⟨k₁, hrun, hk₁⟩ := h
  obtain ⟨k₂, hrun', hk₂⟩ := h'
  rw [hrun] at hrun'
  cases hrun'
  exact ⟨rfl, hk₁.symm.trans hk₂⟩

theorem Gives.bind_run {m : K F α} {f : α → K F β} {k k' : KState F} {a : α} {out : Except (Exc Errors) β}
    (hrun : m ctx k = (.ok a, k'))
    (h : Gives (f a) ctx k' out s) : Gives (m >>= f) ctx k out s := by
  obtain ⟨k₁, hrest, hs⟩ := h
  exact ⟨k₁, (bind_ok ctx k hrun).trans hrest, hs⟩

theorem Gives.bind_error {m : K F α} {k : KState F} {e : Exc Errors} (h : Gives m ctx k (.error e) s) (f : α → K F β) :
    Gives (m >>= f) ctx k (.error e) s := by
  obtain ⟨k', hrun, hs⟩ := h
  exact ⟨k', Prog.bind_error ctx k hrun, hs⟩

/-! ## Events -/

section Events

variable {event : Event}

theorem steps_notify (h : ctx.EventReturns event) : Steps ctx ks s (_notify (.bytes key) event) (.ok ()) s := by
  intro k hk
  obtain ⟨k', hrun, hsame⟩ := notify_run h key k
  exact ⟨k', hrun, hk.of_storage (congrArg Store.storage hsame)⟩

theorem steps_notify_error (h : ¬ctx.EventReturns event) : Steps ctx ks s (_notify (.bytes key) event) (.error .other) s := by
  intro k hk
  obtain ⟨k', hrun, hsame⟩ := notify_throws h key k
  exact ⟨k', hrun, hk.of_storage (congrArg Store.storage hsame)⟩

theorem steps_touch (key : Value) : Steps ctx ks s (touch key) (.ok ()) s := .modify fun _ hk => hk.of_storage rfl

theorem steps_after_write (h : ctx.EventReturns event) : Steps ctx ks s (_after_write (.bytes key) event) (.ok ()) s :=
  (steps_touch _).bind (steps_notify h)

theorem steps_after_write_error (h : ¬ctx.EventReturns event) :
    Steps ctx ks s (_after_write (.bytes key) event) (.error .other) s :=
  (steps_touch _).bind (steps_notify_error h)

/-- Either way: the event ends as it does. -/
theorem steps_emits (ctx : Ctx) (ks : Set Bytes) (s : Content F) (key : Bytes) (event : Event) :
    Steps ctx ks s (_after_write (.bytes key) event) (ctx.emits event) s := by
  by_cases h : ctx.EventReturns event
  · rw [ctx.emits_of_returns h]
    exact steps_after_write h
  · rw [ctx.emits_of_not h]
    exact steps_after_write_error h

end Events

/-! ## Reads -/

/-- A program that starts with the entry of a key: there is none, an expired one or a live one. -/
theorem steps_entry {tail : Option (Entry F) → K F α} {out : Except (Exc Errors) α}
    (hnone : s.lookup (.bytes key) = none → Steps ctx ks s (tail none) out s₁)
    (hdead : ∀ e k, Shows ctx ks s k → s.lookup (.bytes key) = none → k.store.storage.get (.bytes key) = some e →
      e.live ctx.clock.mono = false → ∃ k', tail (some e) ctx k = (out, k') ∧ Shows ctx ks s₁ k')
    (hlive : ∀ e k, Shows ctx ks s k → s.lookup (.bytes key) = some e → k.store.storage.get (.bytes key) = some e →
      e.live ctx.clock.mono = true → ∃ k', tail (some e) ctx k = (out, k') ∧ Shows ctx ks s₁ k') :
    Steps ctx ks s (entry (.bytes key) >>= tail) out s₁ := by
  intro k hk
  rw [bind_entry rfl]
  obtain ⟨hget, hm⟩ | ⟨e, hget, he, hm⟩ | ⟨e, hget, he, hm⟩ := k.store.lookup_cases ctx.clock.mono (.bytes key)
  all_goals rw [hget]; rw [hk.content] at hm
  · exact hnone hm k hk
  · exact hdead e k hk hm hget he
  · exact hlive e k hk hm hget he

/-- A key with a value has not expired. -/
theorem purges_of_value {v : Obj F} (h : s.value (.bytes key) = some v) : ctx.Purges ks s key := fun hnone => by
  rw [Content.value, hnone] at h
  cases h

/-- A look at one of the keys raises nothing. -/
theorem purges_of_mem (h : key ∈ ks) : ctx.Purges ks s key := fun _ => .inl h

theorem Content.erase_absent {m : Content F} {key : Value} (h : m.lookup key = none) : m.erase key = m := by
  refine Finmap.ext_lookup ?_
  intro x
  by_cases hx : x = key
  · rw [hx, Finmap.lookup_erase, h]
  · rw [Finmap.lookup_erase_ne hx]

/-- A look at a key finds its value. -/
theorem steps_get (hctx : ctx.Purges ks s key) : Steps ctx ks s (data_get (.bytes key)) (.ok (s.value (.bytes key))) s := by
  refine steps_entry (fun hm => ?_) (fun e k hk hm hget he => ?_) fun e k hk hm _ he => ?_
  · rw [Content.value, hm]
    exact .pure none
  · have hevent : ctx.EventReturns .expired := (hctx hm).elim (fun hkey => hk.opens key hkey e hget he) id
    have hgone := hk.erase (.bytes key)
    rw [Content.erase_absent hm] at hgone
    obtain ⟨k', hrun, hk'⟩ := steps_notify hevent _ hgone
    refine ⟨k', ?_, hk'⟩
    change (if e.live ctx.clock.mono then (_ : K F (Option (Obj F))) else _) ctx k = _
    rw [if_neg (by rw [he]; decide), Content.value, hm]
    exact bind_ok ctx k hrun
  · refine ⟨k, ?_, hk⟩
    change (if e.live ctx.clock.mono then (_ : K F (Option (Obj F))) else _) ctx k = _
    rw [if_pos he, Content.value, hm, Option.bind_some]
    cases e.value with
    | raw v => cases v <;> rfl
    | _ => rfl

/-- A look at a key whose expired entry cannot be purged raises. -/
theorem gives_get_error {k : KState F} (h : ¬ctx.Opens k key) :
    Gives (data_get (.bytes key)) ctx k (.error .other) (k.store.content ctx.clock.mono) := by
  unfold Ctx.Opens at h
  push Not at h
  obtain ⟨e, hget, he, hevent⟩ := h
  have hgone : k.store.content ctx.clock.mono = Store.content { k.store with storage := k.store.storage.erase (.bytes key) }
      ctx.clock.mono :=
    (Store.content_erase_dead fun e' he' => by rw [hget] at he'; cases he'; exact he).symm
  obtain ⟨k', hrun, hsame⟩ := notify_throws hevent key { k with store.storage := k.store.storage.erase (.bytes key) }
  refine ⟨k', ?_, ?_⟩
  · unfold data_get
    rw [bind_entry rfl, hget]
    change (if e.live ctx.clock.mono then (_ : K F (Option (Obj F))) else _) ctx k = _
    rw [if_neg (by rw [he]; decide)]
    exact bind_error ctx k hrun
  · rw [hsame, hgone]

/-- A key with a value has no entry that waits for its purge. -/
theorem opens_of_value {k : KState F} {v : Obj F} (h : (k.store.content ctx.clock.mono).value (.bytes key) = some v) :
    ctx.Opens k key := by
  intro e he hdead
  rw [Content.value, Store.content_lookup, he] at h
  simp [Option.filter, hdead] at h

/-- A look at a key that does not wait for its purge changes nothing at all. -/
theorem get_undue_run {k : KState F} (h : ∀ e, k.store.storage.get (.bytes key) = some e → e.live ctx.clock.mono = true) :
    data_get (.bytes key) ctx k = (.ok ((k.store.content ctx.clock.mono).value (.bytes key)), k) := by
  unfold data_get
  rw [bind_entry rfl, Content.value]
  obtain ⟨hget, hm⟩ | ⟨e, hget, he, -⟩ | ⟨e, hget, he, hm⟩ := k.store.lookup_cases ctx.clock.mono (.bytes key)
  · rw [hget, hm]
    rfl
  · rw [h e hget] at he
    cases he
  · rw [hget, hm, Option.bind_some]
    change (if e.live ctx.clock.mono then (_ : K F (Option (Obj F))) else _) ctx k = _
    rw [if_pos he]
    cases e.value with
    | raw v => cases v <;> rfl
    | _ => rfl

/-- So does a look at a key with a value. -/
theorem get_live_run {k : KState F} {v : Obj F} (h : (k.store.content ctx.clock.mono).value (.bytes key) = some v) :
    data_get (.bytes key) ctx k = (.ok (some v), k) := by
  rw [get_undue_run fun e he => ?_, h]
  by_contra hdead
  rw [Content.value, Store.content_lookup, he] at h
  simp [Option.filter, hdead] at h

/-- Where no purge can be published, neither does a look at an open key. -/
theorem get_open_run {k : KState F} (hopens : ctx.Opens k key) (hevent : ¬ctx.EventReturns .expired) :
    data_get (.bytes key) ctx k = (.ok ((k.store.content ctx.clock.mono).value (.bytes key)), k) := by
  refine get_undue_run ?_
  intro e he
  by_contra hdead
  exact hevent (hopens e he (Bool.not_eq_true _ ▸ hdead))

/-- A shut key shows that no purge can be published. -/
theorem not_returns_of_shut {k : KState F} (h : ¬ctx.Opens k key) : ¬ctx.EventReturns .expired := fun hevent =>
  h fun _ _ _ => hevent

theorem steps_clock : Steps ctx ks s clock (.ok ctx.clock) s := .of_run fun _ => rfl

theorem steps_needHash {v : Value} (h : v.hashable = true) : Steps ctx ks s (needHash v) (.ok ()) s := by
  rw [needHash, if_pos h]
  exact .pure ()

theorem steps_expect_kind (hctx : ctx.Purges ks s key) {kind : Kind}
    (h : ∀ v, s.value (.bytes key) = some v → kind_of v = some kind) :
    Steps ctx ks s (expect_kind (.bytes key) kind) (.ok (s.value (.bytes key))) s := by
  refine (steps_get hctx).bind ?_
  cases hv : s.value (.bytes key) with
  | none => exact .pure none
  | some v => exact .if_pos (h v hv) (.pure (some v))

/-- A value of another kind is refused. -/
theorem steps_wrong_kind (hctx : ctx.Purges ks s key) {kind : Kind} {v : Obj F} (hv : s.value (.bytes key) = some v)
    (h : kind_of v ≠ some kind) :
    Steps ctx ks s (expect_kind (.bytes key) kind) (.error (.error .WRONGTYPE)) s := by
  refine (steps_get hctx).bind ?_
  rw [hv]
  exact .if_neg h (.raise _)

/-- A value of the kind that is asked for, taken out of its constructor. -/
theorem steps_found (hctx : ctx.Purges ks s key) {kind : Kind} {γ : Type} {wrap : γ → Obj F} {f : Option (Obj F) → K F (Option γ)}
    (hkind : ∀ b, kind_of (wrap b) = some kind) (hf : ∀ o : Option γ, f (o.map wrap) = pure o) {o : Option γ}
    (h : s.value (.bytes key) = o.map wrap) : Steps ctx ks s (expect_kind (.bytes key) kind >>= f) (.ok o) s := by
  refine (steps_expect_kind hctx fun v hv => ?_).bind ?_
  · rw [h] at hv
    obtain ⟨b, -, rfl⟩ := Option.map_eq_some_iff.1 hv
    exact hkind b
  · rw [h, hf]
    exact .pure o

theorem steps_string (hctx : ctx.Purges ks s key) {o : Option Bytes} (h : s.value (.bytes key) = o.map fun b => .raw (.bytes b)) :
    Steps ctx ks s (_string (.bytes key)) (.ok o) s := steps_found hctx (fun _ => rfl) (fun o => by cases o <;> rfl) h

theorem steps_bitmap (hctx : ctx.Purges ks s key) {o : Option (Finset Nat)} (h : s.value (.bytes key) = o.map .bitmap) :
    Steps ctx ks s (_bitmap (.bytes key)) (.ok o) s := steps_found hctx (fun _ => rfl) (fun o => by cases o <;> rfl) h

/-- Where no purge can be published, a look at an open bitmap changes nothing at all. -/
theorem bitmap_open_run {k : KState F} {o : Option (Finset Nat)} (hopens : ctx.Opens k key) (hevent : ¬ctx.EventReturns .expired)
    (h : (k.store.content ctx.clock.mono).value (.bytes key) = o.map .bitmap) : _bitmap (.bytes key) ctx k = (.ok o, k) := by
  have hget := get_open_run hopens hevent
  rw [h] at hget
  have hkind : expect_kind (.bytes key) .bitmap ctx k = (.ok (o.map .bitmap), k) := by
    unfold expect_kind
    rw [bind_ok ctx k hget]
    cases o <;> rfl
  unfold _bitmap
  rw [bind_ok ctx k hkind]
  cases o <;> rfl

theorem gives_bitmap_error {k : KState F} (h : ¬ctx.Opens k key) :
    Gives (_bitmap (.bytes key)) ctx k (.error .other) (k.store.content ctx.clock.mono) :=
  Gives.bind_error (Gives.bind_error (gives_get_error h) _) _

theorem steps_hash (hctx : ctx.Purges ks s key) {o : Option Fields} (h : s.value (.bytes key) = o.map .hash) :
    Steps ctx ks s (_hash (.bytes key)) (.ok o) s := steps_found hctx (fun _ => rfl) (fun o => by cases o <;> rfl) h

theorem steps_set (hctx : ctx.Purges ks s key) {o : Option (OrdSet Value)} (h : s.value (.bytes key) = o.map .set) :
    Steps ctx ks s (_set (.bytes key)) (.ok o) s := steps_found hctx (fun _ => rfl) (fun o => by cases o <;> rfl) h

theorem steps_zset (hctx : ctx.Purges ks s key) {o : Option (ZSet F)} (h : s.value (.bytes key) = o.map .zset) :
    Steps ctx ks s (_zset (.bytes key)) (.ok o) s := steps_found hctx (fun _ => rfl) (fun o => by cases o <;> rfl) h

theorem steps_is_live (key : Bytes) : Steps ctx ks s (is_live (.bytes key)) (.ok (s.lookup (.bytes key)).isSome) s := by
  refine steps_entry (fun hm => ?_) (fun e k hk hm _ he => ⟨k, ?_, hk⟩) fun e k hk hm _ he => ⟨k, ?_, hk⟩
  · rw [hm]
    exact .pure false
  · rw [hm]
    change (Except.ok (e.live ctx.clock.mono), k) = _
    rw [he]
    rfl
  · rw [hm]
    change (Except.ok (e.live ctx.clock.mono), k) = _
    rw [he]
    rfl

/-- A loop over the keys of a request. -/
theorem steps_mapM {γ : Type} {f : α → K F β} {h : γ → α} {g : γ → β} {xs : List γ}
    (hf : ∀ x ∈ xs, Steps ctx ks s (f (h x)) (.ok (g x)) s) :
    Steps ctx ks s (mapM_ f (xs.map h)) (.ok (xs.map g)) s := by
  induction xs with
  | nil => exact .pure []
  | cons x xs ih => exact (hf x List.mem_cons_self).bind ((ih fun y hy => hf y (List.mem_cons_of_mem _ hy)).bind (.pure _))

/-! ## The content under one key -/

namespace Content

theorem exists_of_value {v : Obj F} {key : Value} (h : s.value key = some v) : ∃ e, s.lookup key = some e ∧ e.value = v := by
  unfold value at h
  obtain ⟨e, he, hv⟩ := Option.bind_eq_some_iff.1 h
  refine ⟨e, he, ?_⟩
  split at hv
  · cases hv
  · exact Option.some.inj hv

/-- A value that is there can be taken away. -/
theorem erase_ne {v : Obj F} {key : Value} (h : s.value key = some v) : s.erase key ≠ s := by
  obtain ⟨e, he, -⟩ := exists_of_value h
  intro hsame
  rw [← hsame, Finmap.lookup_erase] at he
  cases he

/-- The value that is there can be stored again. -/
theorem change_value {v : Obj F} {key : Value} (h : s.value key = some v) : s.change key v = s := by
  obtain ⟨e, he, rfl⟩ := exists_of_value h
  unfold change
  rw [he]
  refine Finmap.ext_lookup ?_
  intro x
  by_cases hx : x = key
  · rw [hx, Finmap.lookup_insert, he]
  · rw [Finmap.lookup_insert_of_ne _ hx]

/-- The value that was stored is found, unless it is a null. -/
theorem value_change {v : Obj F} {key : Value} (h : s.value key = some v) (v' : Obj F) (hnull : v' ≠ .raw .null) :
    (s.change key v').value key = some v' := by
  obtain ⟨e, he, -⟩ := exists_of_value h
  unfold change value
  rw [he, Finmap.lookup_insert, Option.bind_some]
  split
  · exact absurd ‹_› hnull
  · rfl

theorem change_change (s : Content F) (key : Value) (v v' : Obj F) : (s.change key v).change key v' = s.change key v' := by
  unfold change
  cases h : s.lookup key with
  | none => rw [h]
  | some e => rw [Finmap.lookup_insert]; exact Finmap.insert_insert ..

theorem erase_change (s : Content F) (key : Value) (v : Obj F) : (s.change key v).erase key = s.erase key := by
  unfold change
  cases s.lookup key with
  | none => rfl
  | some e =>
    refine Finmap.ext_lookup ?_
    intro x
    by_cases hx : x = key
    · rw [hx, Finmap.lookup_erase, Finmap.lookup_erase]
    · rw [Finmap.lookup_erase_ne hx, Finmap.lookup_erase_ne hx, Finmap.lookup_insert_of_ne _ hx]

theorem change_assign (s : Content F) (key : Value) (v v' : Obj F) : (s.assign key v).change key v' = s.assign key v' := by
  unfold change assign
  rw [Finmap.lookup_insert]
  exact Finmap.insert_insert ..

theorem write_of_none {key : Value} (h : s.value key = none) (v : Obj F) : s.write key v = s.assign key v :=
  if_neg (by rw [h]; simp)

theorem write_of_some {v : Obj F} {key : Value} (h : s.value key = some v) (v' : Obj F) : s.write key v' = s.change key v' :=
  if_pos (by rw [h]; rfl)

theorem write_value {v : Obj F} {key : Value} (h : s.value key = some v) : s.write key v = s :=
  (write_of_some h v).trans (change_value h)

theorem value_assign (s : Content F) (key : Value) {v : Obj F} (hnull : v ≠ .raw .null) :
    (s.assign key v).value key = some v := by
  rw [value, assign, Finmap.lookup_insert, Option.bind_some]
  split
  · exact absurd ‹_› hnull
  · rfl

theorem value_write (s : Content F) (key : Value) {v : Obj F} (hnull : v ≠ .raw .null) : (s.write key v).value key = some v := by
  cases h : s.value key with
  | none => rw [write_of_none h, value_assign s key hnull]
  | some old =>
    rw [write_of_some h]
    exact value_change h v hnull

/-! ### Other keys -/

theorem lookup_change_of_ne {key x : Value} (h : x ≠ key) (s : Content F) (v : Obj F) :
    (s.change key v).lookup x = s.lookup x := by
  unfold change
  cases s.lookup key with
  | none => rfl
  | some e => exact Finmap.lookup_insert_of_ne _ h

theorem lookup_assign_of_ne {key x : Value} (h : x ≠ key) (s : Content F) (v : Obj F) : (s.assign key v).lookup x = s.lookup x :=
  Finmap.lookup_insert_of_ne _ h

theorem value_congr {key : Value} (h : s₁.lookup key = s₂.lookup key) : s₁.value key = s₂.value key := by
  unfold value
  rw [h]

theorem value_change_of_ne {key x : Value} (h : x ≠ key) (s : Content F) (v : Obj F) : (s.change key v).value x = s.value x :=
  value_congr (lookup_change_of_ne h s v)

theorem value_erase_of_ne {key x : Value} (h : x ≠ key) (s : Content F) : value (s.erase key) x = s.value x :=
  value_congr (Finmap.lookup_erase_ne h)

theorem lookup_of_value {v : Obj F} {key : Value} (h : s.value key = some v) : s.lookup key ≠ none := by
  obtain ⟨e, he, -⟩ := exists_of_value h
  rw [he]
  exact nofun

theorem lookup_write_of_ne {key x : Value} (h : x ≠ key) (s : Content F) (v : Obj F) : (s.write key v).lookup x = s.lookup x := by
  unfold write
  split_ifs
  · exact lookup_change_of_ne h s v
  · exact lookup_assign_of_ne h s v

/-- The last container that is stored is the one that is left. -/
theorem change_write (s : Content F) (key : Value) (v v' : Obj F) : (s.write key v).change key v' = s.write key v' := by
  cases h : s.value key with
  | none => rw [write_of_none h, write_of_none h, change_assign]
  | some old => rw [write_of_some h, write_of_some h, change_change]

theorem write_write (s : Content F) (key : Value) {v : Obj F} (hnull : v ≠ .raw .null) (v' : Obj F) :
    (s.write key v).write key v' = s.write key v' :=
  (write_of_some (value_write s key hnull) v').trans (change_write s key v v')

end Content

/-! ## Writes -/

theorem steps_setitem (key : Bytes) (v : Obj F) : Steps ctx ks s (setitem (.bytes key) v) (.ok ()) (s.assign (.bytes key) v) :=
  (steps_needHash rfl).bind (.modify fun _ hk => hk.set_live (.bytes key) rfl)

theorem steps_store_value (key : Value) (v : Obj F) : Steps ctx ks s (store_value key v) (.ok ()) (s.change key v) := by
  refine .modify ?_
  intro k hk
  obtain ⟨hget, hm⟩ | ⟨e, hget, he, hm⟩ | ⟨e, hget, he, hm⟩ := k.store.lookup_cases ctx.clock.mono key
  all_goals unfold Content.change; rw [hk.content] at hm; rw [hm]; dsimp only; rw [hget]
  · exact hk
  · refine ⟨?_, fun x hx e' he' hdead => ?_⟩
    · refine (Store.content_set k.store ctx.clock.mono key { e with value := v }).trans ?_
      rw [Content.put, if_neg (show ¬Entry.live { e with value := v } ctx.clock.mono = true from ne_true_of_eq_false he),
        hk.content,
        Content.erase_absent hm]
    · by_cases hkey : Value.bytes x = key
      · exact hk.opens x hx e (hkey ▸ hget) he
      · simp only [Dict.get_set, if_neg hkey] at he'
        exact hk.opens x hx e' he' hdead
  · exact hk.set_live key (show Entry.live { e with value := v } ctx.clock.mono = true from he)

/-- A value is replaced, and its deadline stays. -/
theorem steps_data_set (key : Bytes) (v : Obj F) :
    Steps ctx ks s (data_set (.bytes key) v none true) (.ok ()) (s.update (.bytes key) v) := by
  refine steps_clock.bind ?_
  have hput : ∀ k : KState F, Shows ctx ks s k → ∀ t, t = (s.lookup (.bytes key)).bind Entry.expires_at →
      Entry.live ⟨v, t⟩ ctx.clock.mono = true →
      Shows ctx ks (s.update (.bytes key) v) { k with store.storage := k.store.storage.set (.bytes key) ⟨v, t⟩ } := by
    rintro k hk t rfl hlive
    exact hk.set_live (.bytes key) hlive
  refine steps_entry (fun hm => ?_) (fun e k hk hm _ he => ⟨_, rfl, ?_⟩) fun e k hk hm _ he => ⟨_, rfl, ?_⟩
  · refine .modify fun k hk => hput k hk none ?_ rfl
    rw [hm]
    rfl
  · refine hput k hk _ ?_ ?_
    all_goals dsimp only; rw [if_neg (by rw [he]; simp)]
    · rw [hm]
      rfl
    · rfl
  · refine hput k hk _ ?_ ?_
    all_goals dsimp only; rw [if_pos ⟨rfl, he⟩]
    · rw [hm]
      rfl
    · exact he

theorem steps_remove (key : Bytes) :
    Steps ctx ks s (data_remove (.bytes key)) (.ok (s.lookup (.bytes key)).isSome) (s.erase (.bytes key)) := by
  refine steps_entry (fun hm => ?_) (fun e k hk hm _ he => ⟨_, ?_, hk.erase (.bytes key)⟩)
    fun e k hk hm _ he => ⟨_, ?_, hk.erase (.bytes key)⟩
  · rw [hm, Content.erase_absent hm]
    exact .pure false
  all_goals
    rw [hm]
    change (Except.ok (e.live ctx.clock.mono), _) = _
    rw [he]
    rfl

end Kagni
