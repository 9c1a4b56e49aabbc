import Kagni.Footprints.Basic
import Kagni.Lemmas.Lists
import Kagni.Lemmas.Numbers
import Kagni.Theorems.Expiry
import Mathlib.Data.List.Induction

/-!
# The options of SET and GETEX

The parser decides token by token from what it has seen so far. It accepts the lists of options that are split, from left to
right, into groups that do not exclude each other, in whichever order the groups stand.
-/

namespace Kagni

open Lib Lib.Prog

variable {F : Type} {ctx : Ctx} {ks : Set Bytes} {is_set : Bool}

/-! ## The grammar -/

/-- The options that take no value. -/
inductive OptionFlag where
  | NX | XX | GET | KEEPTTL | PERSIST
  deriving DecidableEq

/-- The flag a name stands for. -/
def OptionFlag.ofName (opt : Bytes) : Option OptionFlag :=
  if opt = bs "NX" then some .NX
  else if opt = bs "XX" then some .XX
  else if opt = bs "GET" then some .GET
  else if opt = bs "KEEPTTL" then some .KEEPTTL
  else if opt = bs "PERSIST" then some .PERSIST
  else none

/-- An option with its value, if it takes one. -/
inductive OptionGroup where
  | flag (f : OptionFlag)
  | ttl (unit : TtlUnit) (raw : Value)

/-- The tokens are split into groups from left to right. A token after a unit is its value, whatever it looks like. -/
inductive Splits : List Value → List OptionGroup → Prop
  | nil : Splits [] []
  | flag {opt : Bytes} {f : OptionFlag} {rest : List Value} {gs : List OptionGroup} :
    OptionFlag.ofName (upper opt) = some f → Splits rest gs → Splits (.bytes opt :: rest) (.flag f :: gs)
  | ttl {opt : Bytes} {unit : TtlUnit} {raw : Value} {rest : List Value} {gs : List OptionGroup} :
    TtlUnit.ofName (upper opt) = some unit → Splits rest gs → Splits (.bytes opt :: raw :: rest) (.ttl unit raw :: gs)

/-- SET takes all options but PERSIST, GETEX takes PERSIST and the units. -/
def OptionGroup.Allowed (is_set : Bool) : OptionGroup → Prop
  | .flag .PERSIST => is_set = false
  | .flag _ => is_set = true
  | .ttl _ _ => True

/-- The groups do not exclude each other. -/
structure Accepts (is_set : Bool) (gs : List OptionGroup) : Prop where
  allowed : ∀ g ∈ gs, g.Allowed is_set
  exclusive : .flag .NX ∈ gs → .flag .XX ∉ gs
  oneUnit : ∀ unit raw unit' raw', .ttl unit raw ∈ gs → .ttl unit' raw' ∈ gs → unit = unit'
  noUnit : .flag .KEEPTTL ∈ gs ∨ .flag .PERSIST ∈ gs → ∀ unit raw, .ttl unit raw ∉ gs

/-- The units of the groups, with their values. -/
def units (gs : List OptionGroup) : List (TtlUnit × Value) :=
  gs.filterMap fun
    | .ttl unit raw => some (unit, raw)
    | .flag _ => none

/-- There is a flag among the groups. -/
def hasFlag (f : OptionFlag) (gs : List OptionGroup) : Bool :=
  gs.any fun
    | .flag f' => decide (f' = f)
    | .ttl _ _ => false

/-- What the groups ask for: their flags, and the last unit with its value. -/
def summary (gs : List OptionGroup) : ExtendedOptions :=
  ⟨hasFlag .NX gs, hasFlag .XX gs, hasFlag .GET gs, hasFlag .KEEPTTL gs, hasFlag .PERSIST gs, (units gs).getLast?⟩

theorem hasFlag_iff (f : OptionFlag) (gs : List OptionGroup) : hasFlag f gs = true ↔ .flag f ∈ gs := by
  unfold hasFlag
  rw [List.any_eq_true]
  constructor
  · rintro ⟨g, hg, hf⟩
    cases g with
    | flag f' => rwa [← of_decide_eq_true hf]
    | ttl unit raw => cases hf
  · exact fun h => ⟨_, h, decide_eq_true rfl⟩

theorem mem_units {gs : List OptionGroup} {unit : TtlUnit} {raw : Value} : (unit, raw) ∈ units gs ↔ .ttl unit raw ∈ gs := by
  unfold units
  rw [List.mem_filterMap]
  constructor
  · rintro ⟨g, hg, h⟩
    cases g with
    | flag f => cases h
    | ttl unit' raw' =>
      cases h
      exact hg
  · exact fun h => ⟨_, h, rfl⟩

/-! ## One group -/

/-- What the parser makes of a group when it has read `o`. -/
def stepOption (is_set : Bool) (o : ExtendedOptions) : OptionGroup → Option ExtendedOptions
  | .flag .NX => if is_set ∧ !o.xx then some { o with nx := true } else none
  | .flag .XX => if is_set ∧ !o.nx then some { o with xx := true } else none
  | .flag .GET => if is_set then some { o with get := true } else none
  | .flag .KEEPTTL => if is_set ∧ !o.persist ∧ o.ttl.isNone then some { o with keepttl := true } else none
  | .flag .PERSIST => if !is_set ∧ !o.keepttl ∧ o.ttl.isNone then some { o with persist := true } else none
  | .ttl unit raw =>
    if !o.keepttl ∧ !o.persist ∧ o.ttl.all (fun t => t.1 = unit) then some { o with ttl := some (unit, raw) } else none

/-- The groups that may follow. -/
def Follows (is_set : Bool) (gs : List OptionGroup) : OptionGroup → Prop
  | .flag .NX => is_set = true ∧ .flag .XX ∉ gs
  | .flag .XX => is_set = true ∧ .flag .NX ∉ gs
  | .flag .GET => is_set = true
  | .flag .KEEPTTL => is_set = true ∧ ∀ unit raw, .ttl unit raw ∉ gs
  | .flag .PERSIST => is_set = false ∧ ∀ unit raw, .ttl unit raw ∉ gs
  | .ttl unit _ => .flag .KEEPTTL ∉ gs ∧ .flag .PERSIST ∉ gs ∧ ∀ unit' raw', .ttl unit' raw' ∈ gs → unit' = unit

/-- A group may follow if it is allowed and none before it excludes it. -/
theorem accepts_concat_iff {gs : List OptionGroup} {g : OptionGroup} :
    Accepts is_set (gs ++ [g]) ↔ Accepts is_set gs ∧ Follows is_set gs g := by
  have hold : ∀ {g'}, g' ∈ gs → g' ∈ gs ++ [g] := fun h => List.mem_append_left _ h
  have hnew : g ∈ gs ++ [g] := List.mem_append_right _ (List.mem_singleton_self g)
  constructor
  · rintro ⟨hallowed, hexclusive, hone, hno⟩
    have hg := hallowed g hnew
    refine ⟨⟨fun g' h => hallowed g' (hold h), fun h h' => hexclusive (hold h) (hold h'),
      fun _ _ _ _ h h' => hone _ _ _ _ (hold h) (hold h'),
      fun h _ _ h' => hno (h.imp hold hold) _ _ (hold h')⟩, ?_⟩
    cases g with
    | flag f =>
      cases f with
      | NX => exact ⟨hg, fun h => hexclusive hnew (hold h)⟩
      | XX => exact ⟨hg, fun h => hexclusive (hold h) hnew⟩
      | GET => exact hg
      | KEEPTTL => exact ⟨hg, fun _ _ h => hno (.inl hnew) _ _ (hold h)⟩
      | PERSIST => exact ⟨hg, fun _ _ h => hno (.inr hnew) _ _ (hold h)⟩
    | ttl unit raw =>
      exact ⟨fun h => hno (.inl (hold h)) _ _ hnew, fun h => hno (.inr (hold h)) _ _ hnew,
        fun _ _ h => hone _ _ _ _ (hold h) hnew⟩
  · rintro ⟨⟨hallowed, hexclusive, hone, hno⟩, hfollows⟩
    constructor
    all_goals rcases g with (_ | _ | _ | _ | _) | _ <;> grind [Follows, OptionGroup.Allowed]

theorem units_concat (gs : List OptionGroup) (g : OptionGroup) : units (gs ++ [g]) = units gs ++ units [g] :=
  List.filterMap_append

theorem hasFlag_concat (f : OptionFlag) (gs : List OptionGroup) (g : OptionGroup) :
    hasFlag f (gs ++ [g]) = (hasFlag f gs || hasFlag f [g]) := List.any_append

@[simp] theorem hasFlag_flag (f f' : OptionFlag) : hasFlag f [.flag f'] = decide (f' = f) := Bool.or_false _

@[simp] theorem hasFlag_ttl (f : OptionFlag) (unit : TtlUnit) (raw : Value) : hasFlag f [.ttl unit raw] = false := rfl

@[simp] theorem units_flag (f : OptionFlag) : units [.flag f] = [] := rfl

@[simp] theorem units_ttl (unit : TtlUnit) (raw : Value) : units [.ttl unit raw] = [(unit, raw)] := rfl

theorem not_hasFlag_iff (f : OptionFlag) (gs : List OptionGroup) : ((!hasFlag f gs) = true) ↔ .flag f ∉ gs := by
  rw [Bool.not_eq_true', ← Bool.not_eq_true, hasFlag_iff]

theorem getLast_units_none_iff {gs : List OptionGroup} :
    ((units gs).getLast?.isNone = true) ↔ ∀ unit raw, .ttl unit raw ∉ gs := by
  rw [Option.isNone_iff_eq_none, List.getLast?_eq_none_iff, List.eq_nil_iff_forall_not_mem]
  constructor
  · exact fun h unit raw hmem => h (unit, raw) (mem_units.2 hmem)
  · exact fun h x hx => h x.1 x.2 (mem_units.1 hx)

/-- The last unit stands for all of them. -/
theorem getLast_units_all_iff {gs : List OptionGroup} (h : Accepts is_set gs) (unit : TtlUnit) :
    ((units gs).getLast?.all (fun t => decide (t.1 = unit)) = true) ↔ ∀ unit' raw', .ttl unit' raw' ∈ gs → unit' = unit := by
  cases hlast : (units gs).getLast? with
  | none =>
    have hnone := getLast_units_none_iff.1 (by rw [hlast]; rfl : (units gs).getLast?.isNone = true)
    exact iff_of_true rfl fun unit' raw' hmem => absurd hmem (hnone unit' raw')
  | some t =>
    have hmem : .ttl t.1 t.2 ∈ gs := mem_units.1 (List.mem_of_getLast? hlast)
    rw [Option.all_some, decide_eq_true_iff]
    constructor
    · exact fun ht unit' raw' hmem' => (h.oneUnit _ _ _ _ hmem' hmem).trans ht
    · exact fun hall => hall _ _ hmem

/-- The parser takes a group exactly if it may follow. -/
theorem stepOption_eq_some_iff {gs : List OptionGroup} (h : Accepts is_set gs) (g : OptionGroup) (o : ExtendedOptions) :
    stepOption is_set (summary gs) g = some o ↔ Accepts is_set (gs ++ [g]) ∧ o = summary (gs ++ [g]) := by
  have hguard : ∀ {c : Prop} [Decidable c] {o' : ExtendedOptions}, (c ↔ Follows is_set gs g) → o' = summary (gs ++ [g]) →
      ((if c then some o' else none) = some o ↔ Accepts is_set (gs ++ [g]) ∧ o = summary (gs ++ [g])) := by
    rintro c _ o' hc rfl
    rw [accepts_concat_iff, ← hc, Option.ite_none_right_eq_some, Option.some.injEq, eq_comm (a := o)]
    exact ⟨fun hboth => ⟨⟨h, hboth.1⟩, hboth.2⟩, fun hboth => ⟨hboth.1.2, hboth.2⟩⟩
  cases g with
  | flag f =>
    have hnone : (units gs).getLast?.isNone = true ↔ ∀ unit raw, .ttl unit raw ∉ gs := getLast_units_none_iff
    cases f with
    | NX => exact hguard (and_congr_right fun _ => not_hasFlag_iff .XX gs) (by simp [summary, hasFlag_concat, units_concat])
    | XX => exact hguard (and_congr_right fun _ => not_hasFlag_iff .NX gs) (by simp [summary, hasFlag_concat, units_concat])
    | GET => exact hguard Iff.rfl (by simp [summary, hasFlag_concat, units_concat])
    | KEEPTTL =>
      refine hguard (and_congr_right fun hset => ?_) (by simp [summary, hasFlag_concat, units_concat])
      have hpersist : .flag .PERSIST ∉ gs := fun hmem => by cases hset.symm.trans (h.allowed _ hmem)
      exact (and_iff_right ((not_hasFlag_iff .PERSIST gs).2 hpersist)).trans hnone
    | PERSIST =>
      refine hguard ?_ (by simp [summary, hasFlag_concat, units_concat])
      rw [Bool.not_eq_true']
      refine and_congr_right ?_
      intro hgetex
      have hkeepttl : .flag .KEEPTTL ∉ gs := fun hmem => by cases hgetex.symm.trans (h.allowed _ hmem)
      exact (and_iff_right ((not_hasFlag_iff .KEEPTTL gs).2 hkeepttl)).trans hnone
  | ttl unit raw =>
    refine hguard ?_ (by simp [summary, hasFlag_concat, units_concat])
    exact and_congr (not_hasFlag_iff .KEEPTTL gs) (and_congr (not_hasFlag_iff .PERSIST gs) (getLast_units_all_iff h unit))

theorem accepts_nil : Accepts is_set [] := ⟨nofun, nofun, nofun, fun _ _ _ => nofun⟩

/-- What was accepted can be cut short. -/
theorem Accepts.of_append {gs gs' : List OptionGroup} (h : Accepts is_set (gs ++ gs')) : Accepts is_set gs := by
  induction gs' using List.reverseRecOn with
  | nil => rwa [List.append_nil] at h
  | append_singleton gs' g ih =>
    rw [← List.append_assoc] at h
    exact ih (accepts_concat_iff.1 h).1

/-- From what it has read the parser takes the groups that are left exactly if all are accepted. -/
theorem foldlM_stepOption_iff {gs : List OptionGroup} (h : Accepts is_set gs) (rest : List OptionGroup) (o : ExtendedOptions) :
    rest.foldlM (stepOption is_set) (summary gs) = some o ↔ Accepts is_set (gs ++ rest) ∧ o = summary (gs ++ rest) := by
  induction rest generalizing gs with
  | nil =>
    rw [List.foldlM_nil, List.append_nil]
    exact ⟨fun ho => ⟨h, (Option.some.inj ho).symm⟩, fun ho => congrArg some ho.2.symm⟩
  | cons g rest ih =>
    have happend : gs ++ g :: rest = gs ++ [g] ++ rest := by simp
    rw [List.foldlM_cons, happend]
    constructor
    · intro hrun
      obtain ⟨o', ho', hrest⟩ := Option.bind_eq_some_iff.1 hrun
      obtain ⟨hg, rfl⟩ := (stepOption_eq_some_iff h g o').1 ho'
      exact (ih hg).1 hrest
    · rintro ⟨hall, rfl⟩
      have hg : Accepts is_set (gs ++ [g]) := hall.of_append
      exact Option.bind_eq_some_iff.2 ⟨_, (stepOption_eq_some_iff h g _).2 ⟨hg, rfl⟩, (ih hg).2 ⟨hall, rfl⟩⟩

/-! ## The parser -/

/-- The name of a flag. -/
def OptionFlag.name : OptionFlag → Bytes
  | .NX => bs "NX"
  | .XX => bs "XX"
  | .GET => bs "GET"
  | .KEEPTTL => bs "KEEPTTL"
  | .PERSIST => bs "PERSIST"

theorem ofName_eq_some_iff {opt : Bytes} {f : OptionFlag} : OptionFlag.ofName opt = some f ↔ opt = f.name := by
  constructor
  · intro h
    unfold OptionFlag.ofName at h
    split_ifs at h
    all_goals cases h; assumption
  · rintro rfl
    cases f <;> rfl

/-- The parser goes on, or it raises a syntax error. -/
def proceed (is_set : Bool) (o : Option ExtendedOptions) (rest : List Value) : K F ExtendedOptions :=
  match o with
  | some o => _parse_extended_options is_set o rest
  | none => throw_ .SYNTAX

theorem proceed_ite {c : Prop} [Decidable c] (o : ExtendedOptions) (rest : List Value) :
    (proceed is_set (if c then some o else none) rest : K F _) = if c then _parse_extended_options is_set o rest
      else throw_ .SYNTAX := by
  split_ifs <;> rfl

/-- The tests for a name tell the flags apart. -/
theorem name_tests (f : OptionFlag) :
    (f.name = bs "NX" ↔ f = .NX) ∧ (f.name = bs "XX" ↔ f = .XX) ∧ (f.name = bs "GET" ↔ f = .GET) ∧
    (f.name = bs "KEEPTTL" ↔ f = .KEEPTTL) ∧ (f.name = bs "PERSIST" ↔ f = .PERSIST) := by
  cases f <;> decide

/-- A flag is taken as one group. -/
theorem parse_flag {opt : Bytes} {f : OptionFlag} (h : OptionFlag.ofName (upper opt) = some f) (o : ExtendedOptions)
    (rest : List Value) :
    (_parse_extended_options is_set o (.bytes opt :: rest) : K F _) = proceed is_set (stepOption is_set o (.flag f)) rest := by
  have hread : (upperArg (.bytes opt) : K F Bytes) = pure f.name := by
    rw [← ofName_eq_some_iff.1 h]
    rfl
  have hunit : TtlUnit.ofName f.name = none := by cases f <;> rfl
  obtain ⟨hNX, hXX, hGET, hKEEPTTL, hPERSIST⟩ := name_tests f
  rw [parse_extended_options_cons, hread]
  change (if f.name = bs "NX" ∧ _ then (_ : K F ExtendedOptions) else _) = _
  simp only [hNX, hXX, hGET, hKEEPTTL, hPERSIST, hunit]
  cases f <;> simp [stepOption, proceed_ite]

/-- A name that is no flag fails all tests for one. -/
theorem ne_name_of_none {opt : Bytes} (h : OptionFlag.ofName opt = none) (f : OptionFlag) : opt ≠ f.name := by
  rintro rfl
  rw [ofName_eq_some_iff.2 rfl] at h
  cases h

theorem parse_no_flag {opt : Bytes} (h : OptionFlag.ofName (upper opt) = none) (o : ExtendedOptions) (rest : List Value) :
    (_parse_extended_options is_set o (.bytes opt :: rest) : K F _) =
      match TtlUnit.ofName (upper opt), rest with
      | some unit, raw :: rest => proceed is_set (stepOption is_set o (.ttl unit raw)) rest
      | _, _ => throw_ .SYNTAX := by
  have hNX : ¬upper opt = bs "NX" := ne_name_of_none h .NX
  have hXX : ¬upper opt = bs "XX" := ne_name_of_none h .XX
  have hGET : ¬upper opt = bs "GET" := ne_name_of_none h .GET
  have hKEEPTTL : ¬upper opt = bs "KEEPTTL" := ne_name_of_none h .KEEPTTL
  have hPERSIST : ¬upper opt = bs "PERSIST" := ne_name_of_none h .PERSIST
  rw [parse_extended_options_cons]
  change (if upper opt = bs "NX" ∧ _ then (_ : K F ExtendedOptions) else _) = _
  simp only [hNX, hXX, hGET, hKEEPTTL, hPERSIST, false_and, if_false]
  cases TtlUnit.ofName (upper opt) with
  | none => cases rest <;> rfl
  | some unit =>
    cases rest with
    | nil => rfl
    | cons raw rest => exact (proceed_ite _ rest).symm

/-! ## What is accepted -/

theorem Yields.of_proceed {o : Option ExtendedOptions} {rest : List Value} {o' : ExtendedOptions}
    (h : Yields ctx (proceed is_set o rest : K F _) o') :
    ∃ o₁, o = some o₁ ∧ Yields ctx (_parse_extended_options is_set o₁ rest : K F _) o' := by
  cases o with
  | none => exact absurd h Yields.not_raise
  | some o₁ => exact ⟨o₁, rfl, h⟩

/-- What the parser accepts is split into groups, which it takes one by one. -/
theorem splits_of_yields {options : List Value} {o o' : ExtendedOptions}
    (h : Yields ctx (_parse_extended_options is_set o options : K F _) o') :
    ∃ gs, Splits options gs ∧ gs.foldlM (stepOption is_set) o = some o' := by
  -- a unit takes two tokens, so the induction goes by the number of tokens
  induction hn : options.length using Nat.strong_induction_on generalizing options o with
  | _ n ih =>
    cases options with
    | nil => exact ⟨[], .nil, congrArg some (Yields.eq (Yields.pure o) h)⟩
    | cons opt rest =>
      cases opt with
      | bytes opt =>
        cases hflag : OptionFlag.ofName (upper opt) with
        | some f =>
          rw [parse_flag hflag] at h
          obtain ⟨o₁, ho₁, hrest⟩ := h.of_proceed
          obtain ⟨gs, hsplit, hfold⟩ := ih rest.length (hn ▸ Nat.lt_succ_self _) hrest rfl
          exact ⟨.flag f :: gs, .flag hflag hsplit, Option.bind_eq_some_iff.2 ⟨o₁, ho₁, hfold⟩⟩
        | none =>
          rw [parse_no_flag hflag] at h
          cases hunit : TtlUnit.ofName (upper opt) with
          | none =>
            rw [hunit] at h
            exact absurd h Yields.not_raise
          | some unit =>
            rw [hunit] at h
            cases rest with
            | nil => exact absurd h Yields.not_raise
            | cons raw rest =>
              obtain ⟨o₁, ho₁, hrest⟩ := h.of_proceed
              have hlength : rest.length < n := by
                rw [← hn, List.length_cons, List.length_cons]
                omega
              obtain ⟨gs, hsplit, hfold⟩ := ih rest.length hlength hrest rfl
              exact ⟨.ttl unit raw :: gs, .ttl hunit hsplit, Option.bind_eq_some_iff.2 ⟨o₁, ho₁, hfold⟩⟩
      | _ =>
        rw [parse_extended_options_cons] at h
        exact absurd h Yields.not_raise

theorem flag_none_of_unit {opt : Bytes} {unit : TtlUnit} (h : TtlUnit.ofName opt = some unit) : OptionFlag.ofName opt = none := by
  rw [TtlUnit.ofName_eq_some h]
  cases unit <;> rfl

/-- The groups of a split are taken one by one. -/
theorem yields_of_splits {options : List Value} {gs : List OptionGroup} (hsplit : Splits options gs) {o o' : ExtendedOptions}
    (h : gs.foldlM (stepOption is_set) o = some o') : Yields ctx (_parse_extended_options is_set o options : K F _) o' := by
  induction hsplit generalizing o with
  | nil =>
    rw [← Option.some.inj h]
    exact .pure o
  | flag hflag _ ih =>
    obtain ⟨o₁, ho₁, hrest⟩ := Option.bind_eq_some_iff.1 h
    rw [parse_flag hflag, ho₁]
    exact ih hrest
  | ttl hunit _ ih =>
    obtain ⟨o₁, ho₁, hrest⟩ := Option.bind_eq_some_iff.1 h
    rw [parse_no_flag (flag_none_of_unit hunit), hunit]
    dsimp only
    rw [ho₁]
    exact ih hrest

/-- The parser accepts exactly the options that are split into groups that do not exclude each other, and returns what they
ask for. -/
theorem yields_parse_iff {options : List Value} {o : ExtendedOptions} :
    Yields ctx (_parse_extended_options is_set .none options : K F _) o ↔ ∃ gs, Splits options gs ∧ Accepts is_set gs ∧
      o = summary gs := by
  have hfold : ∀ gs : List OptionGroup, gs.foldlM (stepOption is_set) .none = some o ↔ Accepts is_set gs ∧ o = summary gs :=
    fun gs =>
    foldlM_stepOption_iff accepts_nil gs o
  constructor
  · intro h
    obtain ⟨gs, hsplit, ho⟩ := splits_of_yields h
    exact ⟨gs, hsplit, (hfold gs).1 ho⟩
  · rintro ⟨gs, hsplit, ho⟩
    exact yields_of_splits hsplit ((hfold gs).2 ho)

/-- The order of the groups does not matter, but for that of the units. -/
theorem accepts_perm {gs gs' : List OptionGroup} (hperm : gs.Perm gs') (h : Accepts is_set gs) : Accepts is_set gs' where
  allowed g hg := h.allowed g (hperm.mem_iff.2 hg)
  exclusive hnx hxx := h.exclusive (hperm.mem_iff.2 hnx) (hperm.mem_iff.2 hxx)
  oneUnit _ _ _ _ hu hu' := h.oneUnit _ _ _ _ (hperm.mem_iff.2 hu) (hperm.mem_iff.2 hu')
  noUnit hf _ _ hu := h.noUnit (hf.imp hperm.mem_iff.2 hperm.mem_iff.2) _ _ (hperm.mem_iff.2 hu)

theorem summary_perm {gs gs' : List OptionGroup} (hperm : gs.Perm gs') (hunits : units gs = units gs') :
    summary gs = summary gs' := by
  have hflag : ∀ f, hasFlag f gs = hasFlag f gs' := fun f => hperm.any_eq
  unfold summary
  rw [hflag, hflag, hflag, hflag, hflag, hunits]

/-! ## SET -/

variable {s : Content F} {key : Bytes} {old : Option Bytes}

/-- The key holds this string, or it is missing or has expired. -/
def HoldsString (s : Content F) (key : Value) (old : Option Bytes) : Prop :=
  match old with
  | none => s.lookup key = none
  | some b => s.value key = some (.raw (.bytes b))

theorem HoldsString.value (h : HoldsString s (.bytes key) old) : s.value (.bytes key) = old.map fun b => .raw (.bytes b) := by
  cases old with
  | none =>
    rw [Content.value, show s.lookup (.bytes key) = none from h]
    rfl
  | some b => exact h

theorem HoldsString.live (h : HoldsString s (.bytes key) old) : (s.lookup (.bytes key)).isSome = old.isSome := by
  cases old with
  | none => rw [show s.lookup (.bytes key) = none from h]; rfl
  | some b => exact Option.isSome_iff_ne_none.2 (Content.lookup_of_value h)

/-- The length of a value, if it has one. -/
def lengthOf : Value → Option Nat
  | .bytes b => some b.length
  | .array items => some items.length
  | _ => none

theorem steps_checkSize {val : Value} {n : Nat} (hn : lengthOf val = some n) (hle : n ≤ MAX_STRING_SIZE) :
    Steps ctx ks s (checkSize val) (.ok ()) s := by
  refine .of_run ?_
  intro k
  cases val with
  | bytes b =>
    cases hn
    exact congrArg (fun m : K F Unit => m ctx k) (if_neg (not_lt.2 hle))
  | array items =>
    cases hn
    exact congrArg (fun m : K F Unit => m ctx k) (if_neg (not_lt.2 hle))
  | _ => cases hn

theorem steps_checkSize_long {val : Value} {n : Nat} (hn : lengthOf val = some n) (hlong : MAX_STRING_SIZE < n) :
    Steps ctx ks s (checkSize val) (.error (.error .STRING_OVERFLOW)) s := by
  cases val with
  | bytes b =>
    cases hn
    exact (Steps.pure b.length).bind (.if_pos hlong (.raise _))
  | array items =>
    cases hn
    exact (Steps.pure items.length).bind (.if_pos hlong (.raise _))
  | _ => cases hn

/-! ### The expiry -/

/-- The instant that a unit and its number ask for, in nanoseconds of the wall clock. -/
def TtlUnit.instant (unit : TtlUnit) (n wall : Int) : Int :=
  match unit with
  | .EX => (wall / 10 ^ 6 + n * 1000) * 10 ^ 6
  | .PX => (wall / 10 ^ 6 + n) * 10 ^ 6
  | .EXAT => n * 10 ^ 9
  | .PXAT => n * 10 ^ 6

/-- The numbers that a unit takes: positive ones, whose milliseconds have 64 bits. -/
def TtlUnit.Takes (unit : TtlUnit) (n : Int) : Prop :=
  0 < n ∧ n ≤ INT64_MAX ∧ (unit = .EX ∨ unit = .EXAT → n ≤ INT64_MAX / 1000)

/-- The options ask for no expiry, or for a valid one. -/
def AsksFor (o : ExtendedOptions) : Option (TtlUnit × Int) → Prop
  | none => o.ttl = none
  | some (unit, n) => o.ttl = some (unit, .bytes (decimal n)) ∧ unit.Takes n

/-- The deadline of what SET writes: the one that is there under KEEPTTL, the one that is asked for, or none. -/
def setDeadline (o : ExtendedOptions) (expiry : Option (TtlUnit × Int)) (current : Option Int) (now : Clock) : Option Int :=
  if o.keepttl then current else expiry.map fun e => now.mono + (e.1.instant e.2 now.wall - now.wall)

theorem yields_deadline (ctx : Ctx) {unit : TtlUnit} {n : Int} (h : unit.Takes n) :
    Yields ctx (_expire_wall_deadline .SET unit (.bytes (decimal n)) : K F Int) (unit.instant n ctx.clock.wall) := by
  obtain ⟨hpos, hmax, hseconds⟩ := h
  have hint : Yields ctx (orThrow .NOT_INT (toLL (.bytes (decimal n))) : K F Int) n := by
    rw [toLL, string2ll_decimal ⟨by unfold INT64_MIN; omega, hmax⟩]
    exact .pure n
  have hlimit : ¬((unit = .EX ∨ unit = .EXAT) ∧ n > (2 ^ 63 - 1) / 1000) := fun ⟨hunit, hlarge⟩ =>
    absurd (hseconds hunit) (not_le.2 hlarge)
  unfold _expire_wall_deadline
  refine hint.bind ?_
  rw [if_neg (by omega), if_neg hlimit]
  refine Yields.bind (a := ctx.clock) (fun _ => rfl) ?_
  have hpure : ∀ m : Int, m = unit.instant n ctx.clock.wall → Yields ctx (pure m : K F Int) (unit.instant n ctx.clock.wall) := by
    rintro _ rfl
    exact .pure _
  refine hpure _ ?_
  cases unit with
  | _ =>
    unfold TtlUnit.instant
    dsimp only
    omega

/-! ### The command -/

/-- SET is to write: NX asks for a key that was not there, XX for one that was. -/
def Writes (o : ExtendedOptions) (old : Option Bytes) : Prop := (o.nx = true → old = none) ∧ (o.xx = true → old ≠ none)

/-- What SET does when it has its options and the deadline. -/
def setRest (key val : Value) (o : ExtendedOptions) (deadline : Option Int) : K F Reply := do
  let old ← (if o.get then _string key else pure none : K F (Option Bytes))
  let found ← is_live key
  if (o.nx ∧ found) ∨ (o.xx ∧ !found) then return bytesOrNil old
  checkSize val
  data_set key (.raw val) deadline o.keepttl
  _after_write key .set
  if deadline.isSome then _notify key .expire
  return (old.map Reply.bytes).getD (if o.get then .NIL else .OK)

/-- SET reads its options and the deadline, and then does the rest. -/
theorem gives_SET_of_rest {k : KState F} {options : List Value} {o : ExtendedOptions} {expiry : Option (TtlUnit × Int)}
    (hparse : Yields ctx (_parse_extended_options true .none options : K F _) o) (hasks : AsksFor o expiry) {key val : Value}
    {out : Except (Exc Errors) Reply} {s' : Content F}
    (hrest : Gives (setRest key val o (expiry.map fun e => e.1.instant e.2 ctx.clock.wall)) ctx k out s') :
    Gives (SET key val options) ctx k out s' := by
  refine Gives.bind_run (hparse k) ?_
  cases expiry with
  | none =>
    rw [show o.ttl = none from hasks]
    exact hrest
  | some e =>
    obtain ⟨unit, n⟩ := e
    rw [hasks.1]
    exact Gives.bind_run ((yields_deadline ctx hasks.2).bind (.pure (some _)) k) hrest

/-- The deadline that is stored. -/
theorem deadline_eq {o : ExtendedOptions} {expiry : Option (TtlUnit × Int)} (hkeep : o.keepttl = true → expiry = none)
    (s : Content F) (key : Value)
    (now : Clock) : s.deadline key (expiry.map fun e => e.1.instant e.2 now.wall) o.keepttl now =
      setDeadline o expiry ((s.lookup key).bind Entry.expires_at) now := by
  unfold Content.deadline setDeadline
  cases hlookup : s.lookup key with
  | none =>
    by_cases hk : o.keepttl = true
    · rw [if_pos hk, hkeep hk]
      rfl
    · rw [if_neg hk, Option.map_map]
      rfl
  | some e =>
    dsimp only
    split_ifs
    · rfl
    · rw [Option.map_map]
      rfl

/-- The write, when nothing keeps it: whatever has to be purged was purged before. -/
theorem steps_write {o : ExtendedOptions} {expiry : Option (TtlUnit × Int)} (hkeep : o.keepttl = true → expiry = none)
    (htold : ctx.EventReturns .set) (hexpire : expiry ≠ none → ctx.EventReturns .expire) (key : Bytes)
    (val : Value) (reply : Reply) :
    Steps ctx ∅ s (do
      data_set (.bytes key) (.raw val) (expiry.map fun e => e.1.instant e.2 ctx.clock.wall) o.keepttl
      _after_write (.bytes key) .set
      if (expiry.map fun e => e.1.instant e.2 ctx.clock.wall).isSome then _notify (.bytes key) .expire
      return reply) (.ok reply)
      (s.put (.bytes key) ⟨.raw val, setDeadline o expiry ((s.lookup (.bytes key)).bind Entry.expires_at) ctx.clock⟩
        ctx.clock.mono) := by
  rintro k ⟨rfl, -⟩
  rw [← deadline_eq hkeep]
  have hset : Gives (data_set (.bytes key) (.raw val) (expiry.map fun e => e.1.instant e.2 ctx.clock.wall) o.keepttl) ctx k
      (.ok ()) _ :=
    gives_set rfl ..
  obtain ⟨k₁, hrun, hk₁⟩ := hset
  rw [← hk₁]
  have htail : Steps ctx ∅ (k₁.store.content ctx.clock.mono) (_after_write (.bytes key) .set >>= fun _ =>
      if (expiry.map fun e => e.1.instant e.2 ctx.clock.wall).isSome then _notify (.bytes key) .expire >>= fun _ => pure reply
        else pure reply)
      (.ok reply) (k₁.store.content ctx.clock.mono) := by
    refine (steps_after_write htold).bind ?_
    refine .ite (fun hsome => ?_) fun _ => .pure _
    have hne : expiry ≠ none := by
      rintro rfl
      cases hsome
    exact (steps_notify (hexpire hne)).bind (.pure _)
  obtain ⟨k₂, hrest, hk₂⟩ := htail k₁ (.none k₁)
  exact ⟨k₂, (bind_ok ctx k hrun).trans hrest, hk₂⟩

section Command

variable {k : KState F} {options : List Value} {o : ExtendedOptions} {expiry : Option (TtlUnit × Int)} {val : Value}

/-- SET up to NX and XX, of a key that opens. -/
theorem gives_setRest {d : Option Int} (hopens : ctx.Opens k key)
    (hold : HoldsString (k.store.content ctx.clock.mono) (.bytes key) old)
    {out : Except (Exc Errors) Reply} {s' : Content F}
    (hblocked : ¬Writes o old → out = .ok (if o.get then bytesOrNil old else .NIL) ∧ s' = k.store.content ctx.clock.mono)
    (hwrites : Writes o old → Steps ctx ∅ (k.store.content ctx.clock.mono) (do
      checkSize val
      data_set (.bytes key) (.raw val) d o.keepttl
      _after_write (.bytes key) .set
      if d.isSome then _notify (.bytes key) .expire
      return if o.get then bytesOrNil old else .OK) out s') : Gives (setRest (.bytes key) val o d) ctx k out s' := by
  have hget : Steps ctx {key} (k.store.content ctx.clock.mono)
    (if o.get then _string (.bytes key) else pure none : K F (Option Bytes))
      (.ok (if o.get then old else none)) (k.store.content ctx.clock.mono) := by
    split_ifs
    · exact steps_string (purges_of_mem (Set.mem_singleton key)) hold.value
    · exact .pure none
  obtain ⟨k₁, hrun, hk₁⟩ := hget k (.one hopens)
  refine Gives.bind_run hrun ?_
  have hlive : Steps ctx ∅ (k.store.content ctx.clock.mono) (is_live (.bytes key) : K F Bool) (.ok old.isSome) _ :=
    hold.live ▸ steps_is_live key
  have hcond : ((o.nx = true ∧ old.isSome = true) ∨ o.xx = true ∧ (!old.isSome) = true) ↔ ¬Writes o old := by
    unfold Writes
    cases old <;> simp
  refine (hlive.bind (.ite (fun hno => ?_) fun hyes => ?_)).gives ⟨hk₁.content, nofun⟩
  · obtain ⟨rfl, rfl⟩ := hblocked (hcond.1 hno)
    cases o.get
    · exact .pure _
    · exact .pure _
  · have hreply : ((if o.get then old else none).map Reply.bytes).getD (if o.get then .NIL else .OK) =
        if o.get then bytesOrNil old else .OK := by
      cases o.get <;> rfl
    rw [hreply]
    exact hwrites (not_not.1 (mt hcond.2 hyes))

/-- What SET needs of its events: a look at the key raises nothing, and what it tells can be published. -/
structure WriteTold (ctx : Ctx) (k : KState F) (key : Bytes) (expiry : Option (TtlUnit × Int)) : Prop where
  opens : ctx.Opens k key
  set : ctx.EventReturns .set
  expire : expiry ≠ none → ctx.EventReturns .expire

/-- SET, with its options read. -/
theorem gives_SET (hparse : Yields ctx (_parse_extended_options true .none options : K F _) o) (hasks : AsksFor o expiry)
    (hkeep : o.keepttl = true → expiry = none) (hold : HoldsString (k.store.content ctx.clock.mono) (.bytes key) old)
    (htold : WriteTold ctx k key expiry) {n : Nat} (hn : lengthOf val = some n) :
    (¬Writes o old → Gives (SET (.bytes key) val options) ctx k (.ok (if o.get then bytesOrNil old else .NIL))
      (k.store.content ctx.clock.mono)) ∧
      (Writes o old → MAX_STRING_SIZE < n →
        Gives (SET (.bytes key) val options) ctx k (.error (.error .STRING_OVERFLOW)) (k.store.content ctx.clock.mono)) ∧
      (Writes o old → n ≤ MAX_STRING_SIZE →
        Gives (SET (.bytes key) val options) ctx k (.ok (if o.get then bytesOrNil old else .OK))
          ((k.store.content ctx.clock.mono).put (.bytes key)
            ⟨.raw val, setDeadline o expiry (((k.store.content ctx.clock.mono).lookup (.bytes key)).bind Entry.expires_at)
              ctx.clock⟩
            ctx.clock.mono)) := by
  refine ⟨fun hno => gives_SET_of_rest hparse hasks ?_, fun hyes hlong => gives_SET_of_rest hparse hasks ?_,
    fun hyes hle => gives_SET_of_rest hparse hasks ?_⟩
  · exact gives_setRest htold.opens hold (fun _ => ⟨rfl, rfl⟩) fun hyes => absurd hyes hno
  · exact gives_setRest htold.opens hold (absurd hyes) fun _ => Steps.bind_error (steps_checkSize_long hn hlong)
  · refine gives_setRest htold.opens hold (absurd hyes) ?_
    intro _
    exact (steps_checkSize hn hle).bind (steps_write hkeep htold.set htold.expire key val _)

end Command

/-- Under KEEPTTL no expiry is asked for. -/
theorem keepttl_summary {gs : List OptionGroup} (haccepts : Accepts true gs) {expiry : Option (TtlUnit × Int)}
    (hasks : AsksFor (summary gs) expiry)
    (hkeep : (summary gs).keepttl = true) : expiry = none := by
  cases expiry with
  | none => rfl
  | some e =>
    obtain ⟨unit, n⟩ := e
    have hmem : (unit, Value.bytes (decimal n)) ∈ units gs := List.mem_of_getLast? hasks.1
    exact absurd (mem_units.1 hmem) (haccepts.noUnit (.inl ((hasFlag_iff _ _).1 hkeep)) _ _)

/-- SET and GETEX accept exactly their options, in any order of the groups that keeps the order of the units. With a valid
expiry SET writes exactly if NX and XX allow it and the value is not too long, with the deadline that is kept or asked for,
and replies what it should. -/
theorem set_options_exact (is_set : Bool) (options : List Value) {k : KState F}
    (hold : HoldsString (k.store.content ctx.clock.mono) (.bytes key) old) {val : Value} {n : Nat} (hn : lengthOf val = some n) :
    (∀ o, Yields ctx (_parse_extended_options is_set .none options : K F _) o ↔
      ∃ gs, Splits options gs ∧ Accepts is_set gs ∧ o = summary gs) ∧
    (∀ gs gs', Splits options gs → Accepts is_set gs → gs.Perm gs' → units gs = units gs' → ∀ options', Splits options' gs' →
      Yields ctx (_parse_extended_options is_set .none options' : K F _) (summary gs)) ∧
    ∀ gs expiry, Splits options gs → Accepts true gs → AsksFor (summary gs) expiry → WriteTold ctx k key expiry →
      (¬Writes (summary gs) old →
        Gives (SET (.bytes key) val options) ctx k (.ok (if (summary gs).get then bytesOrNil old else .NIL))
        (k.store.content ctx.clock.mono)) ∧
      (Writes (summary gs) old → MAX_STRING_SIZE < n →
        Gives (SET (.bytes key) val options) ctx k (.error (.error .STRING_OVERFLOW)) (k.store.content ctx.clock.mono)) ∧
      (Writes (summary gs) old → n ≤ MAX_STRING_SIZE →
        Gives (SET (.bytes key) val options) ctx k (.ok (if (summary gs).get then bytesOrNil old else .OK))
          ((k.store.content ctx.clock.mono).put (.bytes key)
            ⟨.raw val, setDeadline (summary gs) expiry
              (((k.store.content ctx.clock.mono).lookup (.bytes key)).bind Entry.expires_at) ctx.clock⟩
            ctx.clock.mono)) := by
  refine ⟨fun o => yields_parse_iff, fun gs gs' _ haccepts hperm hunits options' hsplit' => ?_,
    fun gs expiry hsplit haccepts hasks htold => ?_⟩
  · exact yields_parse_iff.2 ⟨gs', hsplit', accepts_perm hperm haccepts, summary_perm hperm hunits⟩
  · have hparse : Yields ctx (_parse_extended_options true .none options : K F _) (summary gs) :=
      yields_parse_iff.2 ⟨gs, hsplit, haccepts, rfl⟩
    exact gives_SET hparse hasks (keepttl_summary haccepts hasks) hold htold hn

/-- `nx EX 10 GET ex 20`. -/
def setTokens : List Value := ["nx", "EX", "10", "GET", "ex", "20"].map fun name => .bytes (bs name)

/-- Its groups. -/
def setGroups : List OptionGroup :=
  [.flag .NX, .ttl .EX (.bytes (bs "10")), .flag .GET, .ttl .EX (.bytes (bs "20"))]

/-- A store without keys. -/
def noKeys : KState Int := ⟨⟨∅, ∅⟩, [], 0⟩

/-- With them SET writes a key that is missing, with a deadline in 20 seconds, and replies nil. -/
theorem set_options_exact_new : Gives (SET (.bytes (bs "k")) (.bytes (bs "v")) setTokens) Ctx.plain noKeys (.ok .NIL)
    ((noKeys.store.content 0).put (.bytes (bs "k")) ⟨.raw (.bytes (bs "v")), some (20 * 10 ^ 9)⟩ 0) := by
  have hold : HoldsString (noKeys.store.content Ctx.plain.clock.mono) (.bytes (bs "k")) none := rfl
  have hsplit : Splits setTokens setGroups := .flag rfl (.ttl rfl (.flag rfl (.ttl rfl .nil)))
  have haccepts : Accepts true setGroups := by
    constructor <;> simp [setGroups, OptionGroup.Allowed]
    rintro unit _ unit' _ (⟨rfl, -⟩ | ⟨rfl, -⟩) (⟨rfl, -⟩ | ⟨rfl, -⟩) <;> rfl
  have hasks : AsksFor (summary setGroups) (some (.EX, 20)) := ⟨rfl, by decide, by decide, fun _ => by decide⟩
  have hquiet : Ctx.plain.Quiet := Ctx.quiet_of_off rfl
  have htold : WriteTold Ctx.plain noKeys (bs "k") (some (.EX, 20)) := ⟨fun _ _ _ => hquiet _, hquiet _, fun _ => hquiet _⟩
  have hexact := (set_options_exact true setTokens hold (show lengthOf (.bytes (bs "v")) = some 1 from rfl)).2.2 setGroups _
    hsplit haccepts hasks htold
  exact hexact.2.2 ⟨fun _ => rfl, nofun⟩ (by decide)

/-- A value of more than 512 MB. -/
def tooLong : Value := .bytes (List.replicate (MAX_STRING_SIZE + 1) 0)

/-- SET without options is to write it, and does not. -/
theorem set_too_long : Writes (summary []) none ∧
    ¬∃ r s', Gives (SET (F := Int) (.bytes (bs "k")) tooLong []) Ctx.plain noKeys (.ok r) s' := by
  have hwrites : Writes (summary []) none := ⟨nofun, nofun⟩
  have hlength : lengthOf tooLong = some (MAX_STRING_SIZE + 1) := congrArg some List.length_replicate
  have hold : HoldsString (noKeys.store.content Ctx.plain.clock.mono) (.bytes (bs "k")) none := rfl
  have hparse : Yields Ctx.plain (_parse_extended_options true .none [] : K Int _) (summary []) := .pure _
  have hquiet : Ctx.plain.Quiet := Ctx.quiet_of_off rfl
  have htold : WriteTold Ctx.plain noKeys (bs "k") none := ⟨fun _ _ _ => hquiet _, hquiet _, fun _ => hquiet _⟩
  have herror := (gives_SET hparse (show AsksFor (summary []) none from rfl) (fun _ => rfl) hold htold hlength).2.1 hwrites
    (Nat.lt_succ_self _)
  refine ⟨hwrites, ?_⟩
  rintro ⟨r, s', hgives⟩
  cases (hgives.unique herror).1

end Kagni
