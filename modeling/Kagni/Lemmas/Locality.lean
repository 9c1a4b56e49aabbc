import Kagni.Content
import Kagni.Lemmas.Discipline
import Kagni.Lemmas.Footprint

/-!
# Programs that work on some keys

Without notifications a method of `Data` on one key is a function of the entry under it, and takes an expired entry for a
missing one. So a program that works on some keys leaves the others as they are, and moves in step from any two states that
agree on its keys.
-/

namespace Kagni

open Lib Lib.Prog

variable {F : Type} {α β : Type}

/-! ## One key -/

/-- The state with another entry under the key, or with none. -/
def KState.withEntry (k : KState F) (key : Value) : Option (Entry F) → KState F
  | some e => { k with store.storage := k.store.storage.set key e }
  | none => { k with store.storage := k.store.storage.erase key }

/-- What a method makes of the entry under its key. -/
abbrev KeyOp (F : Type) (α : Type) := Option (Entry F) → Except (Exc Errors) α × Option (Entry F)

/-- The entry as far as it is live. -/
def alive (now : Int) (o : Option (Entry F)) : Option (Entry F) := o.filter fun e => e.live now

/-- An expired entry is as good as none. -/
def KeyOp.Lazy (now : Int) (f : KeyOp F α) : Prop :=
  ∀ o, (f o).1 = (f (alive now o)).1 ∧ alive now (f o).2 = alive now (f (alive now o)).2

/-- Without notifications the program does `f` to the entry under the key, and nothing else. -/
def Acts (clock : Clock) (key : Value) (m : K F α) (f : KeyOp F α) : Prop :=
  ∀ (ctx : Ctx) (k : KState F), ctx.flags = [] → ctx.clock = clock →
    m ctx k = ((f (k.store.storage.get key)).1, k.withEntry key (f (k.store.storage.get key)).2)

/-- The program works on one key, and takes an expired entry for a missing one. -/
def WorksOn (clock : Clock) (key : Value) (m : K F α) : Prop := ∃ f : KeyOp F α, Acts clock key m f ∧ f.Lazy clock.mono

namespace KState

variable (k : KState F) (key : Value) (o : Option (Entry F))

@[simp] theorem withEntry_draws : (k.withEntry key o).draws = k.draws := by cases o <;> rfl

@[simp] theorem withEntry_pushed : (k.withEntry key o).pushed = k.pushed := by cases o <;> rfl

@[simp] theorem withEntry_generations : (k.withEntry key o).store.generations = k.store.generations := by cases o <;> rfl

theorem withEntry_get (other : Value) :
    (k.withEntry key o).store.storage.get other = if other = key then o else k.store.storage.get other := by
  cases o with
  | none => exact Dict.get_erase ..
  | some e => exact Dict.get_set ..

theorem withEntry_self : k.withEntry key (k.store.storage.get key) = k := by
  cases h : k.store.storage.get key with
  | some e =>
    change { k with store.storage := k.store.storage.set key e } = k
    rw [Dict.set_of_get h]
  | none =>
    change { k with store.storage := k.store.storage.erase key } = k
    rw [Dict.erase_of_get h]

end KState

theorem KState.withEntry_of_get {k : KState F} {key : Value} {o : Option (Entry F)} (h : k.store.storage.get key = o) :
    k.withEntry key o = k :=
  h ▸ k.withEntry_self key

theorem alive_alive (now : Int) (o : Option (Entry F)) : alive now (alive now o) = alive now o := by
  cases o with
  | none => rfl
  | some e => cases he : e.live now <;> simp [alive, Option.filter, he]

theorem alive_of_live {now : Int} {e : Entry F} (h : e.live now = true) :
    alive now (some e) = some e := by simp [alive, Option.filter, h]

theorem alive_of_dead {now : Int} {e : Entry F} (h : e.live now = false) :
    alive now (some e) = none := by simp [alive, Option.filter, h]

/-- Only expired entries are in question. -/
theorem KeyOp.lazy_of_dead {now : Int} {f : KeyOp F α}
    (h : ∀ e : Entry F, e.live now = false → (f (some e)).1 = (f none).1 ∧ alive now (f (some e)).2 = alive now (f none).2) :
    f.Lazy now := by
  intro o
  cases o with
  | none => exact ⟨rfl, rfl⟩
  | some e =>
    cases he : e.live now with
    | true => rw [alive_of_live he]; exact ⟨rfl, rfl⟩
    | false => rw [alive_of_dead he]; exact h e he

/-! ## The methods on one key -/

theorem notify_off {ctx : Ctx} (h : ctx.flags = []) (key : Value) (event : Event) (k : KState F) :
    _notify key event ctx k = (.ok (), k) := by
  change (if ctx.flags = [] ∨ _ then _ else _ : K F Unit) ctx k = _
  rw [if_pos (.inl h)]
  rfl

theorem purge_off {ctx : Ctx} (h : ctx.flags = []) (key : Value) (k : KState F) :
    _purge_key key ctx k = (.ok (), k.withEntry key none) := by
  have herase : setStorage (·.erase key) ctx k = (.ok (), k.withEntry key none) := rfl
  exact (bind_ok ctx k herase).trans (notify_off h key .expired _)

section Methods

variable {clock : Clock} {key : Value}

/-- A method that starts with the entry of its key; a key without a hash is refused. -/
theorem acts_entry {tail : Option (Entry F) → K F α} (f : KeyOp F α) (hlazy : f.Lazy clock.mono)
    (hrun : ∀ (ctx : Ctx) (k : KState F) o, ctx.flags = [] → ctx.clock = clock → k.store.storage.get key = o →
      tail o ctx k = ((f o).1, k.withEntry key (f o).2)) :
    ∃ f' : KeyOp F α, Acts clock key (entry key >>= tail) f' ∧ f'.Lazy clock.mono ∧ ∀ o a, (f' o).1 = .ok a → f' o = f o := by
  cases hkey : key.hashable with
  | true =>
    refine ⟨f, fun ctx k hoff hclock => ?_, hlazy, fun _ _ _ => rfl⟩
    rw [bind_entry hkey]
    exact hrun ctx k _ hoff hclock rfl
  | false =>
    refine ⟨fun o => (.error .other, o), fun ctx k _ _ => ?_, fun o => ⟨rfl, (alive_alive clock.mono o).symm⟩,
      fun _ _ h => by cases h⟩
    rw [bind_entry_unhashable hkey, k.withEntry_self]

theorem worksOn_entry {tail : Option (Entry F) → K F α} (f : KeyOp F α) (hlazy : f.Lazy clock.mono)
    (hrun : ∀ (ctx : Ctx) (k : KState F) o, ctx.flags = [] → ctx.clock = clock → k.store.storage.get key = o →
      tail o ctx k = ((f o).1, k.withEntry key (f o).2)) : WorksOn clock key (entry key >>= tail) := by
  obtain ⟨f', hacts, hlazy', -⟩ := acts_entry f hlazy hrun
  exact ⟨f', hacts, hlazy'⟩

theorem WorksOn.map {m : K F α} (h : WorksOn clock key m) (g : α → β) : WorksOn clock key (do return g (← m)) := by
  obtain ⟨f, hacts, hlazy⟩ := h
  refine ⟨fun o => ((f o).1.map g, (f o).2), fun ctx k hoff hclock => ?_,
    fun o => ⟨congrArg (Except.map g) (hlazy o).1, (hlazy o).2⟩⟩
  rw [bind_run, hacts ctx k hoff hclock]
  dsimp only
  generalize f (k.store.storage.get key) = p
  obtain ⟨out, o⟩ := p
  cases out <;> rfl

/-- The value of an entry; a stored null is none. -/
def Entry.held (e : Entry F) : Option (Obj F) :=
  match e.value with
  | .raw .null => none
  | obj => some obj

/-- A look at a key leaves no expired entry behind. -/
theorem acts_get (clock : Clock) (key : Value) :
    ∃ f : KeyOp F (Option (Obj F)), Acts clock key (data_get key) f ∧ f.Lazy clock.mono ∧
    ∀ o v, (f o).1 = .ok v → (f o).2 = alive clock.mono o := by
  let f : KeyOp F (Option (Obj F)) := fun o =>
    o.elim (.ok none, none) fun e => if e.live clock.mono then (.ok e.held, some e) else (.ok none, none)
  have hlazy : f.Lazy clock.mono := KeyOp.lazy_of_dead fun e he => by simp [f, he]
  have hsettles : ∀ o, (f o).2 = alive clock.mono o := fun o => by
    cases o with
    | none => rfl
    | some e => cases he : e.live clock.mono <;> simp [f, he, alive, Option.filter]
  refine (acts_entry f hlazy fun ctx k o hoff hclock hget => ?_).imp fun f' h => ⟨h.1, h.2.1, fun o v hv => ?_⟩
  · cases o with
    | none => exact congrArg (Prod.mk _) (KState.withEntry_of_get hget).symm
    | some e =>
      change (if e.live ctx.clock.mono then _ else _ : K F _) ctx k = _
      rw [hclock]
      dsimp only [f, Option.elim]
      split
      · rw [KState.withEntry_of_get hget]
        unfold Entry.held
        cases e.value with
        | raw v => cases v <;> rfl
        | _ => rfl
      · exact bind_ok ctx k (purge_off hoff key k)
  · rw [h.2.2 o v hv]
    exact hsettles o

theorem worksOn_is_live : WorksOn clock key (is_live key : K F _) := by
  refine worksOn_entry (fun o => o.elim (.ok false, none) fun e => (.ok (e.live clock.mono), some e))
    (KeyOp.lazy_of_dead fun e he => by simp [he, alive]) fun ctx k o hoff hclock hget => ?_
  cases o with
  | none => exact congrArg (Prod.mk _) (KState.withEntry_of_get hget).symm
  | some e =>
    change (Except.ok (e.live ctx.clock.mono), k) = _
    rw [hclock]
    exact congrArg (Prod.mk _) (KState.withEntry_of_get hget).symm

theorem worksOn_data_set (value : Obj F) (deadline : Option Int) (keep_ttl : Bool) :
    WorksOn clock key (data_set key value deadline keep_ttl) := by
  let d := deadline.map fun d => clock.mono + (d - clock.wall)
  let put := fun o : Option (Entry F) =>
    (⟨value, o.elim d fun e => if keep_ttl ∧ e.live clock.mono then e.expires_at else d⟩ : Entry F)
  have hentry : WorksOn clock key (entry key >>= fun old => setStorage (·.set key (put old)) : K F Unit) :=
    worksOn_entry (fun o => (.ok (), some (put o))) (KeyOp.lazy_of_dead fun e he => by simp [put, he]) fun _ _ _ _ _ _ => rfl
  obtain ⟨f, hacts, hlazy⟩ := hentry
  refine ⟨f, fun ctx k hoff hclock => ?_, hlazy⟩
  have htail : (entry key >>= fun old => setStorage (·.set key (put old)) : K F Unit) ctx k =
      data_set key value deadline keep_ttl ctx k := by
    subst hclock
    unfold data_set
    rw [bind_ok ctx k (show (Kagni.clock : K F Clock) ctx k = (.ok ctx.clock, k) from rfl)]
    refine congrArg (fun tail : Option (Entry F) → K F Unit => (entry key >>= tail) ctx k) (funext fun old => ?_)
    cases old <;> rfl
  rw [← hacts ctx k hoff hclock, htail]

theorem worksOn_setitem (value : Obj F) : WorksOn clock key (setitem key value) := by
  cases hkey : key.hashable with
  | true =>
    refine ⟨fun _ => (.ok (), some ⟨value, none⟩), fun ctx k _ _ => ?_, KeyOp.lazy_of_dead fun _ _ => ⟨rfl, rfl⟩⟩
    unfold setitem needHash
    rw [if_pos hkey]
    rfl
  | false =>
    refine ⟨fun o => (.error .other, o), fun ctx k _ _ => ?_, fun o => ⟨rfl, (alive_alive clock.mono o).symm⟩⟩
    unfold setitem needHash
    rw [hkey, k.withEntry_self]
    rfl

theorem worksOn_remove : WorksOn clock key (data_remove key : K F _) := by
  refine worksOn_entry (fun o => o.elim (.ok false, none) fun e => (.ok (e.live clock.mono), none))
    (KeyOp.lazy_of_dead fun e he => by simp [he]) fun ctx k o hoff hclock hget => ?_
  cases o with
  | none => exact congrArg (Prod.mk _) (KState.withEntry_of_get hget).symm
  | some e =>
    change (Except.ok (e.live ctx.clock.mono), _) = _
    rw [hclock]
    rfl

/-- EXPIRE and EXPIREAT, by their test for a deadline that has passed. -/
theorem worksOn_deadline {tail : Option (Entry F) → K F Bool} {c : Prop} [Decidable c] {t : Int}
    (hnone : tail none = pure false)
    (hsome : ∀ (ctx : Ctx) k e, ctx.clock = clock →
      tail (some e) ctx k = (if !e.live clock.mono then _purge_key key >>= fun _ => pure false
      else if c then setStorage (·.erase key) >>= fun _ => pure true
      else setStorage (·.set key { e with expires_at := some t }) >>= fun _ => pure true) ctx k) :
        WorksOn clock key (entry key >>= tail) := by
  refine worksOn_entry (fun o => o.elim (.ok false, none) fun e => if !e.live clock.mono then (.ok false, none)
      else if c then (.ok true, none) else (.ok true, some { e with expires_at := some t }))
    (KeyOp.lazy_of_dead fun e he => by simp [he]) fun ctx k o hoff hclock hget => ?_
  cases o with
  | none =>
    rw [hnone]
    exact congrArg (Prod.mk _) (KState.withEntry_of_get hget).symm
  | some e =>
    rw [hsome ctx k e hclock]
    dsimp only [Option.elim]
    split
    · exact bind_ok ctx k (purge_off hoff key k)
    · split <;> rfl

theorem worksOn_expire (secs : Int) : WorksOn clock key (data_expire key secs : K F _) :=
  worksOn_deadline (c := secs ≤ 0) (t := clock.mono + secs * 10 ^ 9) rfl fun _ _ _ hclock => hclock ▸ rfl

theorem worksOn_expire_at (wall_deadline_ns : Int) : WorksOn clock key (data_expire_at key wall_deadline_ns : K F _) :=
  worksOn_deadline (c := clock.mono + (wall_deadline_ns - clock.wall) ≤ clock.mono)
    (t := clock.mono + (wall_deadline_ns - clock.wall)) rfl
    fun _ _ _ hclock => hclock ▸ rfl

/-- The questions about the remaining time of a key differ in what they make of the deadline. -/
theorem worksOn_remaining {tail : Option (Entry F) → K F Int} (g : Int → Int) (hnone : tail none = pure (-2))
    (hforever : ∀ (ctx : Ctx) k e, e.expires_at = none → tail (some e) ctx k = (.ok (-1), k))
    (htimed : ∀ (ctx : Ctx) k e t, ctx.clock = clock → e.expires_at = some t → tail (some e) ctx k =
      (if t ≤ clock.mono then _purge_key key >>= fun _ => pure (-2) else pure (g t)) ctx k) :
        WorksOn clock key (entry key >>= tail) := by
  refine worksOn_entry (fun o => o.elim (.ok (-2), none) fun e => e.expires_at.elim (.ok (-1), some e) fun t =>
      if t ≤ clock.mono then (.ok (-2), none) else (.ok (g t), some e))
        (KeyOp.lazy_of_dead fun e he => ?_) fun ctx k o hoff hclock hget => ?_
  · cases ht : e.expires_at with
    | none =>
      rw [Entry.live_of_none ht] at he
      cases he
    | some t =>
      rw [Entry.live_of_some ht] at he
      simp [ht, not_lt.1 (of_decide_eq_false he)]
  cases o with
  | none =>
    rw [hnone]
    exact congrArg (Prod.mk _) (KState.withEntry_of_get hget).symm
  | some e =>
    dsimp only [Option.elim]
    cases ht : e.expires_at with
    | none =>
      rw [hforever ctx k e ht]
      exact congrArg (Prod.mk _) (KState.withEntry_of_get hget).symm
    | some t =>
      rw [htimed ctx k e t hclock ht]
      dsimp only
      split
      · exact bind_ok ctx k (purge_off hoff key k)
      · exact congrArg (Prod.mk _) (KState.withEntry_of_get hget).symm

theorem worksOn_wall_expiry : WorksOn clock key (wall_expiry key : K F _) := by
  refine worksOn_remaining (fun t => clock.wall + (t - clock.mono)) rfl (fun ctx k e ht => ?_) fun ctx k e t hclock ht => ?_
  · refine (bind_ok ctx k (show (Kagni.clock : K F Clock) ctx k = (.ok ctx.clock, k) from rfl)).trans ?_
    rw [ht]
    rfl
  · refine (bind_ok ctx k (show (Kagni.clock : K F Clock) ctx k = (.ok ctx.clock, k) from rfl)).trans ?_
    rw [ht, hclock]

theorem worksOn_ttl_ms : WorksOn clock key (ttl_ms key : K F _) := by
  refine worksOn_remaining (fun t => -((clock.mono - t) / 1000000)) rfl (fun ctx k e ht => ?_) fun ctx k e t hclock ht => ?_
  · dsimp only
    rw [ht]
    rfl
  · dsimp only
    rw [ht, ← hclock]
    rfl

theorem worksOn_persist : WorksOn clock key (persist key : K F _) := by
  refine worksOn_entry (fun o => o.elim (.ok false, none) fun e => if !e.live clock.mono then (.ok false, none)
      else if e.expires_at = none then (.ok false, some e) else (.ok true, some { e with expires_at := none }))
    (KeyOp.lazy_of_dead fun e he => by simp [he]) fun ctx k o hoff hclock hget => ?_
  cases o with
  | none => exact congrArg (Prod.mk _) (KState.withEntry_of_get hget).symm
  | some e =>
    change (if !e.live ctx.clock.mono then _ else if e.expires_at = none then _ else _ : K F Bool) ctx k = _
    rw [hclock]
    dsimp only [Option.elim]
    split
    · rfl
    · split
      · exact congrArg (Prod.mk _) (KState.withEntry_of_get hget).symm
      · rfl

end Methods

/-! ## Two states that agree on some keys -/

/-- Two contexts in which nothing is published and everything else but the subscribers is the same. -/
structure Ctx.Beside (clock : Clock) (ctx ctx' : Ctx) : Prop where
  off : ctx.flags = []
  off' : ctx'.flags = []
  now : ctx.clock = clock
  now' : ctx'.clock = clock
  env : ctx.env = ctx'.env
  port : ctx.tcp_port = ctx'.tcp_port

/-- Two states agree on the keys `A`, count the same writes under the keys `B`, and have the same entry under every key that
was looked up. -/
structure InStep (A B : Set Value) (now : Int) (S : Set Value) (k k' : KState F) : Prop where
  content : ∀ key ∈ A, (k.store.content now).lookup key = (k'.store.content now).lookup key
  generation : ∀ key ∈ B, k.store.generation key = k'.store.generation key
  seen : ∀ key ∈ S, k.store.storage.get key = k'.store.storage.get key
  subset : S ⊆ A
  draws : k.draws = k'.draws
  pushed : k.pushed = k'.pushed

/-- The discipline of a program that works on the keys `A`. -/
def Discipline.within (A : Set Value) (clock : Clock) : Discipline where
  permits
    | .look key | .fields key | .replace key | .create key => key ∈ A
    | .scan => False
    | _ => True
  nonempty := False
  clock
  store_bytes _ := trivial
  value_bytes _ := trivial
  value_array _ _ := ⟨fun _ _ => trivial, fun _ _ => trivial⟩
  look_of_scan h := h.elim

section Within

variable {A B S : Set Value} {clock : Clock} {key : Value} {ctx ctx' : Ctx} {k k' : KState F} {m : K F α}

theorem Store.content_alive (s : Store F) (now : Int) (key : Value) :
    (s.content now).lookup key = alive now (s.storage.get key) :=
  Store.content_lookup ..

/-- What is done to the entry of one key is done to it in both states. -/
theorem InStep.acts (hk : InStep A B clock.mono S k k') (hkey : key ∈ A) {f : KeyOp F α} (hlazy : f.Lazy clock.mono) :
    (f (k.store.storage.get key)).1 = (f (k'.store.storage.get key)).1 ∧
      InStep A B clock.mono S (k.withEntry key (f (k.store.storage.get key)).2)
        (k'.withEntry key (f (k'.store.storage.get key)).2) := by
  have hsame := hk.content key hkey
  rw [Store.content_alive, Store.content_alive] at hsame
  obtain ⟨hout, hend⟩ := hlazy (k.store.storage.get key)
  obtain ⟨hout', hend'⟩ := hlazy (k'.store.storage.get key)
  rw [hsame] at hout hend
  refine ⟨hout.trans hout'.symm, fun other hother => ?_, fun other hother => ?_, fun other hother => ?_, hk.subset, ?_, ?_⟩
  · rw [Store.content_alive, Store.content_alive, KState.withEntry_get, KState.withEntry_get]
    split
    · exact hend.trans hend'.symm
    · have hcontent := hk.content other hother
      rwa [Store.content_alive, Store.content_alive] at hcontent
  · have hgeneration := hk.generation other hother
    unfold Store.generation at hgeneration ⊢
    rwa [KState.withEntry_generations, KState.withEntry_generations]
  · rw [KState.withEntry_get, KState.withEntry_get]
    split
    · rename_i heq
      subst heq
      rw [hk.seen other hother]
    · exact hk.seen other hother
  · simp [hk.draws]
  · simp [hk.pushed]

/-- A program on one of the keys moves in step. -/
theorem WorksOn.inStep (h : WorksOn clock key m) (hctx : ctx.Beside clock ctx') (hkey : key ∈ A)
    (hk : InStep A B clock.mono S k k') :
    (m ctx k).1 = (m ctx' k').1 ∧ InStep A B clock.mono S (m ctx k).2 (m ctx' k').2 := by
  obtain ⟨f, hacts, hlazy⟩ := h
  rw [hacts ctx k hctx.off hctx.now, hacts ctx' k' hctx.off' hctx.now']
  exact hk.acts hkey hlazy

/-- Without notifications a sweep removes the expired entries, and does nothing else. -/
theorem sweep_off (hoff : ctx.flags = []) (k : KState F) :
    ∃ k', _sweep ctx k = (.ok (), k') ∧
      k'.store = { k.store with storage := k.store.storage.filter fun p => p.2.live ctx.clock.mono } ∧
      k'.draws = k.draws ∧ k'.pushed = k.pushed := by
  obtain ⟨k', hrun, hstore⟩ := sweep_run (Ctx.purgeReturns_of_off hoff) k
  have hrest : Keeps ctx (fun k₁ : KState F => k₁.draws = k.draws ∧ k₁.pushed = k.pushed) _sweep fun _ => True := by
    refine Keeps.ask.bind ?_
    intro _ _
    refine Keeps.get.bind ?_
    intro _ _
    refine .each ?_
    intro p _ k₁ hk₁
    rw [purge_off hoff]
    exact ⟨⟨(k₁.withEntry_draws _ _).trans hk₁.1, (k₁.withEntry_pushed _ _).trans hk₁.2⟩, trivial⟩
  have hend := hrest k ⟨rfl, rfl⟩
  rw [hrun] at hend
  exact ⟨k', hrun, hstore, hend.1⟩

theorem inStep_sweep (hctx : ctx.Beside clock ctx') (hk : InStep A B clock.mono S k k') :
    (_sweep ctx k).1 = (_sweep ctx' k').1 ∧ InStep A B clock.mono S (_sweep ctx k).2 (_sweep ctx' k').2 := by
  obtain ⟨k₁, hrun, hstore, hdraws, hpushed⟩ := sweep_off hctx.off k
  obtain ⟨k₁', hrun', hstore', hdraws', hpushed'⟩ := sweep_off hctx.off' k'
  rw [hctx.now] at hstore
  rw [hctx.now'] at hstore'
  have halive : ∀ (s : Store F) key, (s.storage.filter fun p => p.2.live clock.mono).get key = alive clock.mono
      (s.storage.get key) := by
    intro s key
    rw [Dict.get_filter, alive]
    cases s.storage.get key with
    | none => rfl
    | some e => cases he : e.live clock.mono <;> simp [Option.filter, he]
  rw [hrun, hrun']
  refine ⟨rfl, fun key hkey => ?_, fun key hkey => ?_, fun key hkey => ?_, hk.subset, ?_, ?_⟩
  · have hcontent := hk.content key hkey
    rw [Store.content_alive, Store.content_alive] at hcontent
    rw [Store.content_alive, Store.content_alive, hstore, hstore', halive, halive, hcontent]
  · rw [hstore, hstore']
    exact hk.generation key hkey
  · rw [hstore, hstore', halive, halive, hk.seen key hkey]
  · rw [hdraws, hdraws', hk.draws]
  · rw [hpushed, hpushed', hk.pushed]

theorem obj_within (v : Obj F) : (Discipline.within A clock).obj v := by
  refine ⟨?_, False.elim⟩
  cases v with
  | raw v => trivial
  | bitmap b => trivial
  | hash fields => exact fun _ _ => ⟨trivial, trivial⟩
  | set members => exact fun _ _ => trivial
  | deque items => exact fun _ _ => trivial
  | zset z => exact ⟨fun _ _ => trivial, fun _ _ => trivial⟩

/-- What is promised of a program whose store need not be looked at. -/
theorem holds_within (s : Store F) : (Discipline.within Set.univ clock).Holds s := fun _ _ => ⟨trivial, obj_within _⟩

theorem returns_of_keeps {I : KState F → Prop} {Q : α → Prop} (h : Keeps ctx I m Q) (hk : I k) {a : α}
    (ha : (m ctx k).1 = .ok a) : Q a := by
  have hend := h k hk
  revert hend ha
  cases m ctx k with
  | mk out k' =>
    rintro rfl hend
    exact hend.2

/-- A look at a key moves in step, and the entry under it is the same in both states afterwards. -/
theorem inStep_get (hctx : ctx.Beside clock ctx') (hkey : key ∈ A) (hk : InStep A B clock.mono S k k') (f : Option (Obj F) → α) :
    ((do return f (← data_get key) : K F α) ctx k).1 = ((do return f (← data_get key) : K F α) ctx' k').1 ∧
      InStep A B clock.mono S ((do return f (← data_get key) : K F α) ctx k).2
        ((do return f (← data_get key) : K F α) ctx' k').2 ∧
      ∀ a, ((do return f (← data_get key) : K F α) ctx k).1 = .ok a → (∃ o, a = f o) ∧
        InStep A B clock.mono (insert key S) ((do return f (← data_get key) : K F α) ctx k).2
          ((do return f (← data_get key) : K F α) ctx' k').2 := by
  obtain ⟨g, hacts, hlazy, hsettles⟩ := acts_get (F := F) clock key
  have hrun := hacts ctx k hctx.off hctx.now
  have hrun' := hacts ctx' k' hctx.off' hctx.now'
  obtain ⟨hout, hend⟩ := hk.acts hkey hlazy
  rw [← hout] at hrun'
  cases hg : (g (k.store.storage.get key)).1 with
  | error e =>
    rw [hg] at hrun hrun'
    rw [bind_error ctx k hrun, bind_error ctx' k' hrun']
    exact ⟨rfl, hend, fun _ ha => by cases ha⟩
  | ok v =>
    have hsettled := hsettles _ _ hg
    have hsettled' := hsettles _ _ (hout.symm.trans hg)
    have hsame := hk.content key hkey
    rw [Store.content_alive, Store.content_alive] at hsame
    rw [hg] at hrun hrun'
    rw [bind_ok ctx k hrun, bind_ok ctx' k' hrun']
    refine ⟨rfl, hend, fun a ha => ⟨⟨v, (Except.ok.inj ha).symm⟩, { hend with
      subset := Set.insert_subset hkey hk.subset
      seen := fun other hother => ?_ }⟩⟩
    rcases Set.mem_insert_iff.1 hother with rfl | hother
    · change (k.withEntry other _).store.storage.get other = (k'.withEntry other _).store.storage.get other
      rw [KState.withEntry_get, KState.withEntry_get, if_pos rfl, if_pos rfl, hsettled, hsettled', hsame]
    · exact hend.seen other hother

/-- A value is changed in place under a key that was looked up. -/
theorem inStep_store_value (ctx ctx' : Ctx) (hseen : key ∈ S) (value : Obj F) (hk : InStep A B clock.mono S k k') :
    InStep A B clock.mono S (store_value key value ctx k).2 (store_value key value ctx' k').2 := by
  let f : KeyOp F Unit := fun o => (.ok (), o.map fun e => { e with value := value })
  have hrun : ∀ (ctx : Ctx) (k : KState F), (store_value key value ctx k).2 = k.withEntry key
      (f (k.store.storage.get key)).2 := by
    intro ctx k
    unfold store_value setStorage Prog.modify
    dsimp only
    cases h : k.store.storage.get key with
    | none => exact (KState.withEntry_of_get h).symm
    | some e => rfl
  rw [hrun, hrun, hk.seen key hseen]
  refine ⟨fun other hother => ?_, fun other hother => ?_, fun other hother => ?_, hk.subset, ?_, ?_⟩
  · rw [Store.content_alive, Store.content_alive, KState.withEntry_get, KState.withEntry_get]
    split
    · rfl
    · have hcontent := hk.content other hother
      rwa [Store.content_alive, Store.content_alive] at hcontent
  · have hgeneration := hk.generation other hother
    unfold Store.generation at hgeneration ⊢
    rwa [KState.withEntry_generations, KState.withEntry_generations]
  · rw [KState.withEntry_get, KState.withEntry_get]
    split
    · rfl
    · exact hk.seen other hother
  · simp [hk.draws]
  · simp [hk.pushed]

theorem inStep_touch (ctx ctx' : Ctx) (key : Value) (hk : InStep A B clock.mono S k k') :
    InStep A B clock.mono S (touch key ctx k).2 (touch key ctx' k').2 := by
  refine { hk with generation := fun other hother => ?_ }
  have hgeneration := hk.generation other hother
  change ((k.store.generations.set key (k.store.generation key + 1)).get other).getD 0 =
    ((k'.store.generations.set key (k'.store.generation key + 1)).get other).getD 0
  rw [Dict.get_set, Dict.get_set]
  split
  · rename_i heq
    subst heq
    exact congrArg (· + 1) hgeneration
  · exact hgeneration

theorem ok_of_map {f : β → α} {m : K F β} {a : α} (h : ((do return f (← m) : K F α) ctx k).1 = .ok a) : ∃ b, a = f b := by
  rw [bind_run] at h
  revert h
  cases m ctx k with
  | mk out k' =>
    cases out with
    | error e => exact fun h => by cases h
    | ok b => exact fun h => ⟨b, (Except.ok.inj h).symm⟩

/-- Every access moves in step. -/
theorem Access.inStep {Q : α → Prop} {S' : Set Value} (h : Access (.within A clock) S α m Q S') (hctx : ctx.Beside clock ctx')
    (hk : InStep A B clock.mono S k k') : (m ctx k).1 = (m ctx' k').1 ∧ InStep A B clock.mono S (m ctx k).2 (m ctx' k').2 ∧
      ∀ a, (m ctx k).1 = .ok a → Q a ∧ InStep A B clock.mono S' (m ctx k).2 (m ctx' k').2 := by
  have hstep : ∀ {α : Type} {key : Value} {m : K F α} {Q : α → Prop}, WorksOn clock key m → key ∈ A →
    (∀ a, (m ctx k).1 = .ok a → Q a) →
      (m ctx k).1 = (m ctx' k').1 ∧ InStep A B clock.mono S (m ctx k).2 (m ctx' k').2 ∧
        ∀ a, (m ctx k).1 = .ok a → Q a ∧ InStep A B clock.mono S (m ctx k).2 (m ctx' k').2 := fun hm hkey hQ =>
    have hend := hm.inStep hctx hkey hk
    ⟨hend.1, hend.2, fun a ha => ⟨hQ a ha, hend.2⟩⟩
  have hmem : ∀ {key}, (Discipline.within A clock).Seen S key → key ∈ A := fun h => h.elim (fun h => hk.subset h) id
  cases h with
  | ask f =>
    refine ⟨?_, hk, fun a ha => ⟨⟨ctx.env, ctx.tcp_port, ?_⟩, hk⟩⟩
    · dsimp only
      rw [hctx.env, hctx.port, hctx.now, hctx.now']
    · rw [← Except.ok.inj ha, hctx.now]
      rfl
  | draw n =>
    have hend : InStep A B clock.mono S { k with draws := k.draws + 1 } { k' with draws := k'.draws + 1 } :=
      { hk with draws := congrArg (· + 1) hk.draws }
    refine ⟨?_, hend, fun a ha => ⟨fun hn => ?_, hend⟩⟩
    · change Except.ok (ctx.env.draw k.draws % n) = .ok (ctx'.env.draw k'.draws % n)
      rw [hctx.env, hk.draws]
    · cases ha
      exact Nat.mod_lt _ hn
  | get f hlook hf =>
    obtain ⟨hout, hend, hok⟩ := inStep_get hctx hlook hk f
    refine ⟨hout, hend, fun a ha => ⟨?_, (hok a ha).2⟩⟩
    obtain ⟨o, rfl⟩ := (hok a ha).1
    exact ⟨o, fun v _ => ⟨hlook, obj_within v⟩, rfl⟩
  | is_live hlook => exact hstep worksOn_is_live hlook fun _ _ _ => hlook
  | sweep =>
    have hend := inStep_sweep hctx hk
    exact ⟨hend.1, hend.2, fun a _ => ⟨trivial, hend.2⟩⟩
  | index f hscan => exact hscan.elim
  | @data_set key value deadline keep_ttl _ _ hseen _ _ =>
    have hQ : Keeping (.within Set.univ clock) ctx (Kagni.data_set key value deadline keep_ttl) fun _ => key.hashable = true :=
      keeping_data_set (fun _ => trivial) (obj_within value) deadline keep_ttl
    exact hstep (worksOn_data_set value deadline keep_ttl) (hmem hseen) fun _ ha => returns_of_keeps hQ (holds_within _) ha
  | @setitem key value _ _ hseen =>
    have hQ : Keeping (.within Set.univ clock) ctx (Kagni.setitem key value) fun _ => key.hashable = true :=
      keeping_setitem (fun _ => trivial) (obj_within value)
    exact hstep (worksOn_setitem value) (hmem hseen) fun _ ha => returns_of_keeps hQ (holds_within _) ha
  | @store_value key value _ _ hseen =>
    have hend := inStep_store_value ctx ctx' hseen value hk
    exact ⟨rfl, hend, fun _ _ => ⟨trivial, hend⟩⟩
  | remove f hf hseen =>
    refine hstep (worksOn_remove.map f) (hmem hseen) ?_
    intro a ha
    obtain ⟨b, rfl⟩ := ok_of_map ha
    exact ⟨b, fun _ => hmem hseen, rfl⟩
  | expire secs hlook => exact hstep (worksOn_expire secs) hlook fun _ _ _ => hlook
  | expire_at wall_deadline_ns hlook => exact hstep (worksOn_expire_at wall_deadline_ns) hlook fun _ _ _ => hlook
  | wall_expiry hlook => exact hstep worksOn_wall_expiry hlook fun _ _ => trivial
  | ttl_ms hlook => exact hstep worksOn_ttl_ms hlook fun _ _ => trivial
  | persist hlook _ => exact hstep worksOn_persist hlook fun _ _ _ => hlook
  | touch key =>
    have hend := inStep_touch ctx ctx' key hk
    exact ⟨rfl, hend, fun _ _ => ⟨trivial, hend⟩⟩
  | notify event hkey =>
    rw [notify_off hctx.off, notify_off hctx.off']
    exact ⟨rfl, hk, fun _ _ => ⟨trivial, hk⟩⟩

/-- A program that works on the keys `A` ends alike from two states that agree on them, and leaves them agreeing. -/
theorem Disciplined.inStep {Q : α → Prop} (h : Disciplined (.within A clock) S m Q) (hctx : ctx.Beside clock ctx')
    (hk : InStep A B clock.mono S k k') : (m ctx k).1 = (m ctx' k').1 ∧ InStep A B clock.mono S (m ctx k).2 (m ctx' k').2 := by
  have hend := Built.lockstep (R := fun S k k' => InStep A B clock.mono S k k')
    (fun hle s s' hs => { hs with
      subset := hle.trans hs.subset
      seen := fun key hkey => hs.seen key (Set.mem_of_subset_of_mem hle hkey) })
    (fun hleaf _ s s' hs => hleaf.inStep hctx hs) h hk
  exact ⟨hend.1, hend.2.1⟩

end Within

/-! ## Nobody listens -/

/-- Everything is permitted. -/
def Discipline.free (clock : Clock) : Discipline where
  permits _ := True
  nonempty := False
  clock
  store_bytes _ := trivial
  value_bytes _ := trivial
  value_array _ _ := ⟨fun _ _ => trivial, fun _ _ => trivial⟩
  look_of_scan _ _ := trivial

theorem holds_free (clock : Clock) (s : Store F) : (Discipline.free clock).Holds s := by
  refine fun p _ => ⟨trivial, ?_, False.elim⟩
  cases p.2.value with
  | raw v => trivial
  | bitmap b => trivial
  | hash fields => exact fun _ _ => ⟨trivial, trivial⟩
  | set members => exact fun _ _ => trivial
  | deque items => exact fun _ _ => trivial
  | zset z => exact ⟨fun _ _ => trivial, fun _ _ => trivial⟩

section Unheard

variable {ctx ctx' : Ctx} {m : K F α}

/-- The program does the same whoever is subscribed to what, and publishes nothing. -/
def Unheard (ctx ctx' : Ctx) (m : K F α) : Prop := ∀ k, m ctx k = m ctx' k ∧ (m ctx k).2.pushed = k.pushed

theorem WorksOn.unheard {key : Value} (h : WorksOn ctx.clock key m) (hctx : ctx.Beside ctx.clock ctx') : Unheard ctx ctx' m := by
  obtain ⟨f, hacts, -⟩ := h
  intro k
  rw [hacts ctx k hctx.off rfl, hacts ctx' k hctx.off' hctx.now']
  exact ⟨rfl, k.withEntry_pushed key _⟩

theorem unheard_sweep (hctx : ctx.Beside ctx.clock ctx') : Unheard ctx ctx' (_sweep : K F Unit) := by
  intro k
  obtain ⟨k₁, hrun, hstore, hdraws, hpushed⟩ := sweep_off hctx.off k
  obtain ⟨k₂, hrun', hstore', hdraws', hpushed'⟩ := sweep_off hctx.off' k
  rw [hctx.now'] at hstore'
  have hsame : k₁ = k₂ := by
    cases k₁
    cases k₂
    simp_all
  rw [hrun, hrun', hsame]
  exact ⟨rfl, hpushed'⟩

theorem Access.unheard {d : Discipline} {S S' : Set Value} {Q : α → Prop} (h : Access d S α m Q S')
    (hctx : ctx.Beside ctx.clock ctx') :
    Unheard ctx ctx' m := by
  cases h with
  | ask f =>
    refine fun k => ⟨?_, rfl⟩
    dsimp only
    rw [hctx.env, hctx.port, hctx.now']
  | draw n =>
    refine fun k => ⟨?_, rfl⟩
    change (Except.ok (ctx.env.draw k.draws % n), _) = (Except.ok (ctx'.env.draw k.draws % n), _)
    rw [hctx.env]
  | get f _ _ =>
    obtain ⟨g, hacts, hlazy, -⟩ := acts_get (F := F) ctx.clock _
    exact (WorksOn.map ⟨g, hacts, hlazy⟩ f).unheard hctx
  | is_live _ => exact worksOn_is_live.unheard hctx
  | sweep => exact unheard_sweep hctx
  | index f _ => exact fun _ => ⟨rfl, rfl⟩
  | data_set _ _ _ _ _ => exact (worksOn_data_set _ _ _).unheard hctx
  | setitem _ _ _ => exact (worksOn_setitem _).unheard hctx
  | @store_value key value _ _ _ => exact fun k => ⟨rfl, rfl⟩
  | remove f _ _ => exact (worksOn_remove.map f).unheard hctx
  | expire secs _ => exact (worksOn_expire secs).unheard hctx
  | expire_at wall_deadline_ns _ => exact (worksOn_expire_at wall_deadline_ns).unheard hctx
  | wall_expiry _ => exact worksOn_wall_expiry.unheard hctx
  | ttl_ms _ => exact worksOn_ttl_ms.unheard hctx
  | persist _ _ => exact worksOn_persist.unheard hctx
  | touch key => exact fun _ => ⟨rfl, rfl⟩
  | notify event _ =>
    intro k
    rw [notify_off hctx.off, notify_off hctx.off']
    exact ⟨rfl, rfl⟩

/-- A keyspace program does the same whoever is subscribed to what, and publishes nothing. -/
theorem Disciplined.unheard {Q : α → Prop} (h : Disciplined (.free ctx.clock) ∅ m Q) (hctx : ctx.Beside ctx.clock ctx') :
    Unheard ctx ctx' m := by
  intro k
  have hleaf : ∀ {S S' : Set Value} {α : Type} {m : K F α} {Q : α → Prop}, Access (.free ctx.clock) S α m Q S' →
    ∀ s s' : KState F,
      s = s' ∧ s.pushed = k.pushed → (m ctx s).1 = (m ctx' s').1 ∧ ((m ctx s).2 = (m ctx' s').2 ∧ (m ctx s).2.pushed = k.pushed) ∧
        ∀ a, (m ctx s).1 = .ok a → Q a ∧ (m ctx s).2 = (m ctx' s').2 ∧ (m ctx s).2.pushed = k.pushed := by
    rintro S S' α m Q hleaf s s' ⟨rfl, hs⟩
    obtain ⟨hsame, hpushed⟩ := hleaf.unheard hctx s
    have hkeeps : Keeping (.free ctx.clock) ctx m Q := hleaf.keeps rfl
    rw [← hsame]
    exact ⟨rfl, ⟨rfl, hpushed.trans hs⟩, fun a ha => ⟨returns_of_keeps hkeeps (holds_free _ _) ha, rfl, hpushed.trans hs⟩⟩
  have hend : Built.Lockstep (fun s s' => s = s' ∧ s.pushed = k.pushed) Q (m ctx k) (m ctx' k) :=
    Built.lockstep (R := fun _ s s' => s = s' ∧ s.pushed = k.pushed) (fun _ _ _ => id) (fun h _ => hleaf h) h ⟨rfl, rfl⟩
  exact ⟨Prod.ext hend.1 hend.2.1.1, hend.2.1.2⟩

end Unheard

end Kagni
