import Kagni.Lemmas.Fields
import Kagni.Lemmas.Numbers

/-!
# Counters

The commands that count check a stored counter by a regular expression and an argument by `string2ll`, and the two do not
accept the same strings.
-/

namespace Kagni

open Lib Lib.Prog

variable {F : Type} {ctx : Ctx} {ks : Set Bytes} {s : Content F} {key : Bytes} {old : Option Bytes} {i : Int}

/-! ## The rule -/

/-- The sum by the rule of `string2ll`: the old counter is one it accepts, 0 where there is none, and the sum has 64 bits. -/
def counterSum (old : Option Bytes) (i : Int) : Option Int := do
  let n ← old.elim (some 0) string2ll
  if INT64_MIN ≤ n + i ∧ n + i ≤ INT64_MAX then some (n + i) else none

/-- The outcome of a command that counts by the rule: it stores the sum and replies it, or it refuses and changes nothing. -/
def CounterRule (notInt : Errors) (old : Option Bytes) (i : Int) (stored : Bytes → Content F) (s : Content F)
    (out : Except (Exc Errors) Reply) (s' : Content F) : Prop :=
  (∀ n, counterSum old i = some n → out = .ok (.int n) ∧ s' = stored (decimal n)) ∧
    (counterSum old i = none → (out = .error (.error notInt) ∨ out = .error (.error .OVERFLOW)) ∧ s' = s)

/-- When the code counts by the rule: what is stored is no string of digits, or `string2ll` accepts it, or it is one that
`int` converts and that makes the sum overflow. -/
def CounterFits (old : Option Bytes) (i : Int) : Prop :=
  ∀ b ∈ old, RE_NUMERIC b = true → (string2ll b).isSome ∨ ∃ n, pyInt b = some n ∧ (n + i < INT64_MIN ∨ INT64_MAX < n + i)

/-! ## What the commands do -/

/-- The counter the code reads. -/
def storedCounter (notInt : Errors) : Option Bytes → Except (Exc Errors) Int
  | none => .ok 0
  | some b => if RE_NUMERIC b then (pyInt b).elim (.error .other) .ok else .error (.error notInt)

/-- The sum the code makes. -/
def codeSum (notInt : Errors) (old : Option Bytes) (i : Int) : Except (Exc Errors) Int := do
  let n ← storedCounter notInt old
  if n + i < INT64_MIN ∨ INT64_MAX < n + i then .error (.error .OVERFLOW) else .ok (n + i)

/-- The stored counter is refused, or the sum overflows, or it is stored. -/
theorem codeSum_cases (notInt : Errors) (old : Option Bytes) (i : Int) :
    (∃ e, storedCounter notInt old = .error e ∧ codeSum notInt old i = .error e) ∨
      ∃ n, storedCounter notInt old = .ok n ∧
        ((n + i < INT64_MIN ∨ INT64_MAX < n + i) ∧ codeSum notInt old i = .error (.error .OVERFLOW) ∨
          ¬(n + i < INT64_MIN ∨ INT64_MAX < n + i) ∧ codeSum notInt old i = .ok (n + i)) := by
  unfold codeSum
  cases storedCounter notInt old with
  | error e => exact .inl ⟨e, rfl, rfl⟩
  | ok n =>
    refine .inr ⟨n, rfl, ?_⟩
    by_cases h : n + i < INT64_MIN ∨ INT64_MAX < n + i
    · exact .inl ⟨h, if_pos h⟩
    · exact .inr ⟨h, if_neg h⟩

/-- The hash after a counter is stored: the deadline of a live field stays. -/
def storeField (now : Int) (cur : Fields) (field : Value) (b : Bytes) : Fields :=
  _put (Fields.purge now cur field) field (.bytes b) ((Fields.live now cur field).bind Prod.snd)

/-- The content after a counter is stored in a hash, which is created where there is none. -/
def Content.storeField (s : Content F) (now : Int) (key field : Value) : Option Fields → Bytes → Content F
  | none, b => s.assign key (.hash (Kagni.storeField now ∅ field b))
  | some cur, b => s.change key (.hash (Kagni.storeField now cur field b))

theorem steps_counterOf (notInt : Errors) (b : Bytes) :
    Steps ctx ks s (counterOf notInt b) (storedCounter notInt (some b)) s := by
  unfold counterOf storedCounter
  dsimp only
  split
  · cases pyInt b with
    | none => exact .raise _
    | some n => exact .pure n
  · exact .raise _

/-- The reply of a command that has stored its sum, and then published the event. -/
def replied (sum : Except (Exc Errors) Int) (event : Except (Exc Errors) Unit) : Except (Exc Errors) Reply := do
  let n ← sum
  event
  return .int n

/-- The end of a command: the event, and the sum as the reply. -/
theorem steps_reply (ctx : Ctx) (ks : Set Bytes) (s : Content F) (key : Bytes) (event : Event) (n : Int) :
    Steps ctx ks s (_after_write (.bytes key) event >>= fun _ => pure (Reply.int n)) (replied (.ok n) (ctx.emits event)) s := by
  have hevent := steps_emits ctx ks s key event
  revert hevent
  cases ctx.emits event with
  | ok _ => exact fun hevent => hevent.bind (.pure _)
  | error e => exact Steps.bind_error

/-- What follows the read of the old counter. -/
theorem steps_bump_rest {m : K F Int} (hread : Steps ctx ks s m (storedCounter .NOT_INT old) s) :
    Steps ctx ks s (m >>= fun current => do
        checkCounter (current + i)
        data_set (.bytes key) (.raw (.bytes (decimal (current + i)))) none true
        _after_write (.bytes key) .incrby
        return Reply.int (current + i)) (replied (codeSum .NOT_INT old i) (ctx.emits .incrby))
      ((codeSum .NOT_INT old i).toOption.elim s fun n => s.update (.bytes key) (.raw (.bytes (decimal n)))) := by
  rcases codeSum_cases .NOT_INT old i with ⟨e, hstored, hsum⟩ | ⟨n, hstored, ⟨hover, hsum⟩ | ⟨hover, hsum⟩⟩ <;> rw [hsum] <;>
    rw [hstored] at hread
  · exact .bind_error hread
  · exact .bind hread (.bind_error (.if_pos hover (.raise _)))
  · exact .bind hread (.bind (.if_neg hover (.pure ())) ((steps_data_set key _).bind (steps_reply ctx ks _ key .incrby _)))

/-- The counters of strings. -/
theorem steps_bump (hctx : ctx.Purges ks s key) (h : s.value (.bytes key) = old.map fun b => .raw (.bytes b)) :
    Steps ctx ks s (_bump (.bytes key) i) (replied (codeSum .NOT_INT old i) (ctx.emits .incrby))
      ((codeSum .NOT_INT old i).toOption.elim s fun n => s.update (.bytes key) (.raw (.bytes (decimal n)))) := by
  refine (steps_get hctx).bind ?_
  rw [h]
  cases old with
  | none => exact steps_bump_rest (.pure 0)
  | some b => exact steps_bump_rest (steps_counterOf _ b)

theorem steps_storeHash (key : Value) (cur : Fields) :
    Steps ctx ks s (storeHash key cur) (.ok ()) (s.change key (.hash cur)) := steps_store_value key _

/-- The end of HINCRBY, on the hash a look at the field has left. -/
theorem steps_HINCRBY_store {cur : Fields} {field : Value} {deadline : Option Int} {n : Int} {s' : Content F}
    (hs' : s.change (.bytes key) (.hash (_put cur field (.bytes (decimal n)) deadline)) = s') :
    Steps ctx ks s (do
      storeHash (.bytes key) (_put cur field (.bytes (decimal n)) deadline)
      _after_write (.bytes key) .hincrby
      return Reply.int n) (replied (.ok n) (ctx.emits .hincrby)) s' := by
  subst hs'
  exact (steps_storeHash _ _).bind (steps_reply ctx ks _ key .hincrby n)

theorem steps_fieldCounter (ctx : Ctx) (ks : Set Bytes) (s : Content F) (b : Bytes) :
    Steps ctx ks s (fieldCounter (.bytes b)) (storedCounter .HASH_NOT_INT (some b)) s :=
  .bind (.pure b) (steps_counterOf _ b)

/-- The counters of hashes. A field is live when the sum of its counter is refused, so nothing was purged by then. -/
theorem steps_HINCRBY {o : Option Fields} {field : Bytes} {deadline : Option Int} (hctx : ctx.Purges ks s key)
    (h : s.value (.bytes key) = o.map .hash)
    (hold : o.bind (Fields.live ctx.clock.wall · (.bytes field)) = old.map fun b => (.bytes b, deadline))
    (hi : INT64_MIN ≤ i ∧ i ≤ INT64_MAX) :
    Steps ctx ks s (HINCRBY (.bytes key) (.bytes field) i) (replied (codeSum .HASH_NOT_INT old i) (ctx.emits .hincrby))
      ((codeSum .HASH_NOT_INT old i).toOption.elim s fun n => s.storeField ctx.clock.wall (.bytes key) (.bytes field) o
        (decimal n)) := by
  refine (steps_hashOrNew hctx h).bind ?_
  cases o with
  | none =>
    cases old with
    | some b => cases hold
    | none =>
      have hvalue : (s.assign (.bytes key) (.hash ∅)).value (.bytes key) = some (.hash ∅) := by
        rw [Content.value, Content.assign, Finmap.lookup_insert]
        rfl
      have hsum : codeSum .HASH_NOT_INT none i = .ok i := by
        change ite _ _ _ = _
        rw [Int.zero_add]
        exact if_neg (by omega)
      rw [hsum]
      refine (steps_field hvalue field).bind ?_
      change Steps ctx ks _ (if 0 + i < _ ∨ _ < 0 + i then _ else _) _ _
      rw [Int.zero_add]
      refine .check (by omega) (steps_HINCRBY_store ?_)
      rw [Content.change_change, Content.change_assign]
      rfl
  | some cur =>
    refine (steps_field h field).bind ?_
    change Fields.live ctx.clock.wall cur (.bytes field) = _ at hold
    cases old with
    | none =>
      have hsum : codeSum .HASH_NOT_INT none i = .ok i := by
        change ite _ _ _ = _
        rw [Int.zero_add]
        exact if_neg (by omega)
      rw [hsum, hold]
      change Steps ctx ks _ (if 0 + i < _ ∨ _ < 0 + i then _ else _) _ _
      rw [Int.zero_add]
      refine .check (by omega) (steps_HINCRBY_store ?_)
      rw [Content.change_change]
      change _ = s.change _ (.hash (_put _ _ _ ((Fields.live ctx.clock.wall cur (.bytes field)).bind Prod.snd)))
      rw [hold]
      rfl
    | some b =>
      have hpurge := Fields.purge_of_live hold
      rw [hpurge, Content.change_value h, hold]
      have hread := steps_fieldCounter ctx ks s b
      rcases codeSum_cases .HASH_NOT_INT (some b) i with ⟨e, hstored, hsum⟩ | ⟨n, hstored, ⟨hover, hsum⟩ | ⟨hover, hsum⟩⟩
        <;> rw [hsum] <;>
        rw [hstored] at hread
      · exact .bind_error (.bind_error hread)
      · exact .bind (.bind hread (.pure (n, deadline))) (.refuse hover)
      · refine .bind (.bind hread (.pure (n, deadline))) (.check hover (steps_HINCRBY_store ?_))
        change _ = s.change _ (.hash (_put (Fields.purge ctx.clock.wall cur (.bytes field)) _ _
          ((Fields.live ctx.clock.wall cur (.bytes field)).bind Prod.snd)))
        rw [hpurge, hold]
        rfl

/-! ## Where the two checks agree -/

/-- Where both read the old counter as one number, the code counts by the rule. -/
theorem rule_of_agree {notInt : Errors} {n : Int} (stored : Bytes → Content F) (hcode : storedCounter notInt old = .ok n)
    (hrule : old.elim (some 0) string2ll = some n) :
    CounterRule notInt old i stored s ((codeSum notInt old i).map .int)
      ((codeSum notInt old i).toOption.elim s fun n => stored (decimal n)) := by
  have hsum : counterSum old i = if INT64_MIN ≤ n + i ∧ n + i ≤ INT64_MAX then some (n + i) else none := by
    unfold counterSum
    rw [hrule]
    rfl
  unfold CounterRule
  rw [hsum]
  rcases codeSum_cases notInt old i with ⟨e, hstored, -⟩ | ⟨n', hstored, hcase⟩
  · rw [hcode] at hstored
    cases hstored
  · rw [hcode] at hstored
    cases hstored
    rcases hcase with ⟨hover, hcodeSum⟩ | ⟨hover, hcodeSum⟩
    · rw [if_neg (by omega), hcodeSum]
      exact ⟨nofun, fun _ => ⟨.inr rfl, rfl⟩⟩
    · rw [if_pos (by omega), hcodeSum]
      refine ⟨fun m hm => ?_, nofun⟩
      cases hm
      exact ⟨rfl, rfl⟩

/-- What `string2ll` refuses is refused exactly where it fits. -/
theorem refused_iff {b : Bytes} (notInt : Errors) (hrule : string2ll b = none) :
    codeSum notInt (some b) i = .error (.error notInt) ∨ codeSum notInt (some b) i = .error (.error .OVERFLOW) ↔
      CounterFits (some b) i := by
  have hfits : CounterFits (some b) i ↔
      (RE_NUMERIC b = true → ∃ n, pyInt b = some n ∧ (n + i < INT64_MIN ∨ INT64_MAX < n + i)) := by
    simp [CounterFits, hrule]
  rw [hfits]
  unfold codeSum storedCounter
  dsimp only
  by_cases hnumeric : RE_NUMERIC b = true
  · simp only [hnumeric, true_implies, if_true]
    cases hint : pyInt b with
    | none =>
      constructor
      · rintro (h | h)
        · cases h
        · cases h
      · rintro ⟨n, hn, -⟩
        cases hn
    | some n =>
      change (ite _ _ _ = _ ∨ ite _ _ _ = _) ↔ _
      by_cases hover : n + i < INT64_MIN ∨ INT64_MAX < n + i
      · simp [hover]
      · simp [hover]
  · simp [hnumeric]
    exact .inl rfl

theorem error_of_map {α β ε : Type} {r : Except ε α} {f : α → β} {e : ε} (h : r.map f = .error e) : r = .error e := by
  cases r with
  | error _ =>
    cases h
    rfl
  | ok _ => cases h

/-- The code counts by the rule exactly where it fits. -/
theorem rule_iff (notInt : Errors) (old : Option Bytes) (i : Int) (stored : Bytes → Content F) :
    CounterRule notInt old i stored s ((codeSum notInt old i).map .int)
      ((codeSum notInt old i).toOption.elim s fun n => stored (decimal n)) ↔
      CounterFits old i := by
  cases old with
  | none => exact ⟨fun _ b hb => absurd hb (Option.not_mem_none b), fun _ => rule_of_agree stored rfl rfl⟩
  | some b =>
    cases hrule : string2ll b with
    | some n =>
      obtain ⟨hnumeric, hint⟩ := numeric_of_string2ll hrule
      have hcode : storedCounter notInt (some b) = .ok n := by
        unfold storedCounter
        dsimp only
        rw [if_pos hnumeric, hint]
        rfl
      refine ⟨fun _ b' hb' _ => .inl ?_, fun _ => rule_of_agree stored hcode hrule⟩
      cases hb'
      rw [hrule]
      rfl
    | none =>
      have hnone : counterSum (some b) i = none := by
        unfold counterSum
        rw [Option.elim_some, hrule]
        rfl
      rw [← refused_iff notInt hrule]
      constructor
      · intro h
        exact (h.2 hnone).1.imp error_of_map error_of_map
      · intro h
        refine ⟨fun n hn => absurd (hnone ▸ hn) nofun, fun _ => ?_⟩
        rcases h with h | h <;> rw [h]
        · exact ⟨.inl rfl, rfl⟩
        · exact ⟨.inr rfl, rfl⟩

/-- The commands on hashes count as the ones on strings do; only the refusal of what is stored is worded otherwise. -/
theorem codeSum_agree (old : Option Bytes) (i : Int) :
    codeSum .HASH_NOT_INT old i = codeSum .NOT_INT old i ∨
      codeSum .NOT_INT old i = .error (.error .NOT_INT) ∧ codeSum .HASH_NOT_INT old i = .error (.error .HASH_NOT_INT) := by
  unfold codeSum storedCounter
  cases old with
  | none => exact .inl rfl
  | some b =>
    dsimp only
    by_cases hnumeric : RE_NUMERIC b = true
    · rw [if_pos hnumeric, if_pos hnumeric]
      exact .inl rfl
    · rw [if_neg hnumeric, if_neg hnumeric]
      exact .inr ⟨rfl, rfl⟩

/-! ## Runs -/

/-- The counter that the code reads, if it can. -/
def codeCounter : Option Bytes → Option Int
  | none => some 0
  | some b => if RE_NUMERIC b then pyInt b else none

/-- The code makes a sum: it can read the old counter, and the sum has 64 bits. -/
def Sums (old : Option Bytes) (i : Int) : Prop := ∃ n ∈ codeCounter old, INT64_MIN ≤ n + i ∧ n + i ≤ INT64_MAX

/-- A command that counts can be told: a look at the key raises nothing, nor does the event of a sum. -/
def CounterTold (ctx : Ctx) (k : KState F) (key : Bytes) (event : Event) (old : Option Bytes) (i : Int) : Prop :=
  ctx.Opens k key ∧ (Sums old i → ctx.EventReturns event)

theorem storedCounter_iff (notInt : Errors) (old : Option Bytes) (n : Int) :
    storedCounter notInt old = .ok n ↔ n ∈ codeCounter old := by
  unfold storedCounter codeCounter
  cases old with
  | none => simp
  | some b =>
    dsimp only
    split_ifs
    · cases pyInt b <;> simp
    · simp

theorem sums_iff (notInt : Errors) (old : Option Bytes) (i : Int) : Sums old i ↔ ∃ n, codeSum notInt old i = .ok n := by
  constructor
  · rintro ⟨n, hn, hrange⟩
    refine ⟨n + i, ?_⟩
    unfold codeSum
    rw [(storedCounter_iff notInt old n).2 hn]
    exact if_neg (by omega)
  · rintro ⟨m, hm⟩
    rcases codeSum_cases notInt old i with ⟨e, -, hsum⟩ | ⟨n, hstored, ⟨-, hsum⟩ | ⟨hover, -⟩⟩
    · rw [hm] at hsum
      cases hsum
    · rw [hm] at hsum
      cases hsum
    · exact ⟨n, (storedCounter_iff notInt old n).1 hstored, by omega⟩

/-- A run of a command that counts: with the sum as its reply if it can be told, and an exception if not. -/
structure CounterRun (ctx : Ctx) (k : KState F) (key : Bytes) (event : Event) (notInt : Errors) (old : Option Bytes) (i : Int)
    (stored : Bytes → Content F) (m : K F Reply) : Prop where
  told : CounterTold ctx k key event old i → Gives m ctx k ((codeSum notInt old i).map .int)
    ((codeSum notInt old i).toOption.elim (k.store.content ctx.clock.mono) fun n => stored (decimal n))
  untold : ¬CounterTold ctx k key event old i → (m ctx k).1 = .error .other

/-- A run is one of the two when it ends as its event does, and raises where a look at the key does. -/
theorem CounterRun.of_gives {k : KState F} {event : Event} {notInt : Errors} {stored : Bytes → Content F} {m : K F Reply}
    (hopen : ctx.Opens k key → Gives m ctx k (replied (codeSum notInt old i) (ctx.emits event))
      ((codeSum notInt old i).toOption.elim (k.store.content ctx.clock.mono) fun n => stored (decimal n)))
    (hshut : ¬ctx.Opens k key → (m ctx k).1 = .error .other) : CounterRun ctx k key event notInt old i stored m := by
  refine ⟨fun htold => ?_, fun huntold => ?_⟩
  · have hgives := hopen htold.1
    cases hsum : codeSum notInt old i with
    | error e =>
      rw [hsum] at hgives
      exact hgives
    | ok n =>
      rw [hsum, ctx.emits_of_returns (htold.2 ((sums_iff ..).2 ⟨n, hsum⟩))] at hgives
      exact hgives
  · by_cases hopens : ctx.Opens k key
    · obtain ⟨hsums, hevent⟩ := Classical.not_imp.1 fun h => huntold ⟨hopens, h⟩
      obtain ⟨n, hsum⟩ := (sums_iff notInt ..).1 hsums
      obtain ⟨k', hrun, -⟩ := hopen hopens
      rw [hsum, ctx.emits_of_not hevent] at hrun
      exact congrArg Prod.fst hrun
    · exact hshut hopens

/-- A run keeps to the rule exactly where it fits and can be told. -/
theorem CounterRun.rule_iff {k : KState F} {event : Event} {notInt : Errors} {stored : Bytes → Content F} {m : K F Reply}
    (h : CounterRun ctx k key event notInt old i stored m) :
    CounterRule notInt old i stored (k.store.content ctx.clock.mono) (m ctx k).1 ((m ctx k).2.store.content ctx.clock.mono) ↔
      CounterFits old i ∧ CounterTold ctx k key event old i := by
  by_cases htold : CounterTold ctx k key event old i
  · obtain ⟨k', hrun, hk'⟩ := h.told htold
    rw [hrun, hk', Kagni.rule_iff notInt old i stored]
    exact (and_iff_left htold).symm
  · refine iff_of_false (fun hrule => ?_) fun hboth => htold hboth.2
    rw [h.untold htold] at hrule
    cases hsum : counterSum old i with
    | none =>
      obtain ⟨hout | hout, -⟩ := hrule.2 hsum
      · cases hout
      · cases hout
    | some n => cases (hrule.1 n hsum).1

/-- A key that a look at raises has no value. -/
theorem value_of_not_opens {k : KState F} (h : ¬ctx.Opens k key) : (k.store.content ctx.clock.mono).value (.bytes key) = none :=
  Option.eq_none_iff_forall_not_mem.2 fun _ hv => h (opens_of_value hv)

theorem bump_run {k : KState F}
    (hold : (k.store.content ctx.clock.mono).value (.bytes key) = old.map fun b => .raw (.bytes b)) (i : Int) :
    CounterRun ctx k key .incrby .NOT_INT old i (fun b => (k.store.content ctx.clock.mono).update (.bytes key) (.raw (.bytes b)))
      (_bump (.bytes key) i) := by
  refine .of_gives (fun hopens => (steps_bump (purges_of_mem (Set.mem_singleton _)) hold).gives (.one hopens)) ?_
  intro hshut
  obtain ⟨k', hrun, -⟩ := gives_get_error hshut
  exact congrArg Prod.fst (bind_error ctx k hrun)

theorem HINCRBY_run {k : KState F} {field : Bytes} {o : Option Fields} {deadline : Option Int}
    (hhash : (k.store.content ctx.clock.mono).value (.bytes key) = o.map .hash)
    (hfield : o.bind (Fields.live ctx.clock.wall · (.bytes field)) = old.map fun b => (.bytes b, deadline))
    (hi : INT64_MIN ≤ i ∧ i ≤ INT64_MAX) :
    CounterRun ctx k key .hincrby .HASH_NOT_INT old i
      ((k.store.content ctx.clock.mono).storeField ctx.clock.wall (.bytes key) (.bytes field) o)
      (HINCRBY (.bytes key) (.bytes field) i) := by
  refine .of_gives (fun hopens => (steps_HINCRBY (purges_of_mem (Set.mem_singleton _)) hhash hfield hi).gives (.one hopens)) ?_
  intro hshut
  obtain ⟨k', hrun, -⟩ := gives_get_error hshut
  exact congrArg Prod.fst (bind_error ctx k (bind_error ctx k (bind_error ctx k (bind_error ctx k hrun))))

/-- What cannot be told would have been a sum. -/
theorem sums_of_untold {k : KState F} {event : Event} (hnone : ¬ctx.Opens k key → old = none) (hi : INT64_MIN ≤ i ∧ i ≤ INT64_MAX)
    (h : ¬CounterTold ctx k key event old i) : Sums old i := by
  by_cases hopens : ctx.Opens k key
  · exact (Classical.not_imp.1 fun hevent => h ⟨hopens, hevent⟩).1
  · rw [hnone hopens]
    exact ⟨0, rfl, by omega⟩

/-! ## The commands -/

/-- A run of a command that counts in a string keeps to the rule. -/
def StringCounts (ctx : Ctx) (k : KState F) (key : Bytes) (old : Option Bytes) (i : Int) (m : K F Reply) : Prop :=
  CounterRule .NOT_INT old i (fun b => (k.store.content ctx.clock.mono).update (.bytes key) (.raw (.bytes b)))
    (k.store.content ctx.clock.mono)
    (m ctx k).1 ((m ctx k).2.store.content ctx.clock.mono)

/-- A run of a command that counts in a field keeps to the rule. -/
def FieldCounts (ctx : Ctx) (k : KState F) (key field : Bytes) (o : Option Fields) (old : Option Bytes) (i : Int)
    (m : K F Reply) : Prop :=
  CounterRule .HASH_NOT_INT old i ((k.store.content ctx.clock.mono).storeField ctx.clock.wall (.bytes key) (.bytes field) o)
    (k.store.content ctx.clock.mono) (m ctx k).1 ((m ctx k).2.store.content ctx.clock.mono)

/-- The outcome on a string and the one on a field: the same, or both refuse what is stored. -/
def SameCount (out out' : Except (Exc Errors) Reply) : Prop :=
  out' = out ∨ out = .error (.error .NOT_INT) ∧ out' = .error (.error .HASH_NOT_INT)

/-- A store with one counter, in a string and in a field of a hash. -/
def counterStore (b : Bytes) : KState Int :=
  ⟨⟨Dict.set (Dict.set ∅ (.bytes (bs "k")) ⟨.raw (.bytes b), none⟩) (.bytes (bs "h"))
    ⟨.hash (Dict.set ∅ (.bytes (bs "f")) (.plain (.bytes b))), none⟩, ∅⟩, [], 0⟩

end Kagni
