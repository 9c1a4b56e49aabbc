import Kagni.Lemmas.Computes
import Kagni.Lemmas.Fields
import Kagni.Lemmas.Numbers
import Mathlib.Data.Int.ConditionallyCompleteOrder

/-!
# Conditions on the deadlines of fields

HEXPIRE and its family set the deadline of a field under a condition on the one it has. A field without a deadline lives for
ever, so no deadline is later than its own and every deadline is earlier; the code has it the other way round. A hash without
a live field should be gone; the code looks at what is stored, and keeps it for the sake of a field that has expired and that
nobody has looked at.
-/

namespace Kagni

open Lib Lib.Prog

variable {F : Type} {ctx : Ctx} {ks : Set Bytes} {s : Content F} {key : Bytes}

/-! ## The rule -/

/-- How long a field lives: without a deadline, for ever. -/
def lifetime (deadline : Option Int) : WithTop Int := deadline.elim ⊤ fun d => (d : WithTop Int)

/-- Whether a flag allows a new deadline in place of the one a field has. -/
def TtlFlag.Allows (flag : Option TtlFlag) (deadline : Option Int) (new_deadline : Int) : Prop :=
  match flag with
  | none => True
  | some .NX => deadline = none
  | some .XX => deadline ≠ none
  | some .GT => lifetime deadline < new_deadline
  | some .LT => (new_deadline : WithTop Int) < lifetime deadline

instance (flag : Option TtlFlag) (deadline : Option Int) (new_deadline : Int) :
    Decidable (TtlFlag.Allows flag deadline new_deadline) :=
  match flag, deadline with
  | none, _ => isTrue trivial
  | some .NX, deadline => inferInstanceAs (Decidable (deadline = none))
  | some .XX, deadline => inferInstanceAs (Decidable (deadline ≠ none))
  | some .GT, none => isFalse not_top_lt
  | some .GT, some d => decidable_of_iff (d < new_deadline) WithTop.coe_lt_coe.symm
  | some .LT, none => isTrue (WithTop.coe_lt_top new_deadline)
  | some .LT, some d => decidable_of_iff (new_deadline < d) WithTop.coe_lt_coe.symm

/-- The fields of a hash that live, with their values and deadlines. -/
abbrev Lives := Value → Option (Value × Option Int)

/-- One field of a request by the rule: the reply, and the fields that live after it. -/
def ruleField (now new_deadline : Int) (flag : Option TtlFlag) (life : Lives) (field : Value) : Int × Lives :=
  match life field with
  | none => (-2, life)
  | some (value, deadline) =>
    if ¬TtlFlag.Allows flag deadline new_deadline then (0, life)
    else if new_deadline ≤ now then (2, Function.update life field none)
    else (1, Function.update life field (some (value, some new_deadline)))

/-- The fields of a request by the rule, from left to right. -/
def expireByRule (now new_deadline : Int) (flag : Option TtlFlag) : List Value → Lives → List Int × Lives
  | [], life => ([], life)
  | field :: rest, life =>
    let first := ruleField now new_deadline flag life field
    let later := expireByRule now new_deadline flag rest first.2
    (first.1 :: later.1, later.2)

/-- The deadline that a request asks for, in nanoseconds. -/
def newDeadline (command : Cmd) (time now : Int) : Int :=
  match command with
  | .HEXPIRE => now + time * 10 ^ 9
  | .HPEXPIRE => now + time * 10 ^ 6
  | .HEXPIREAT => time * 10 ^ 9
  | _ => time * 10 ^ 6

/-- The members of the family. -/
def ExpiresFields (command : Cmd) : Prop :=
  command = .HEXPIRE ∨ command = .HPEXPIRE ∨ command = .HEXPIREAT ∨ command = .HPEXPIREAT

/-- Every field that is live in one hash lives in the other, at least as long and with its value. -/
def LivesOn (life life' : Lives) : Prop :=
  ∀ field value deadline, life field = some (value, deadline) →
    ∃ deadline', life' field = some (value, deadline') ∧ lifetime deadline ≤ lifetime deadline'

/-- The life of a field of a stored hash. -/
def Content.fieldLife (s : Content F) (now : Int) (key : Value) : Lives := fun field =>
  match s.value key with
  | some (.hash cur) => Fields.live now cur field
  | _ => none

/-- What a request does to the content: the fields live on as by the rule, the key is there exactly if one of them does, and
no other key is touched. -/
structure ExpiryDone (now : Int) (key : Value) (life' : Lives) (s s' : Content F) : Prop where
  fields : s'.fieldLife now key = life'
  exists_iff : (s'.lookup key).isSome ↔ ∃ field, (life' field).isSome
  others : ∀ other ≠ key, s'.lookup other = s.lookup other

/-! ## Requests -/

/-- The name of a flag. -/
def TtlFlag.name : TtlFlag → Bytes
  | .NX => bs "NX"
  | .XX => bs "XX"
  | .GT => bs "GT"
  | .LT => bs "LT"

/-- The arguments of a request: the time, a flag or none, and the fields behind their number. Words are in any case. -/
inductive ExpireArgs (time : Int) (fields : List Bytes) : Option TtlFlag → List Value → Prop where
  | plain {word : Bytes} (h : upper word = bs "FIELDS") :
      ExpireArgs time fields none (.bytes (decimal time) :: .bytes word :: .bytes (decimal fields.length) :: fields.map .bytes)
  | flagged {flag : TtlFlag} {name word : Bytes} (hflag : upper name = flag.name) (h : upper word = bs "FIELDS") :
      ExpireArgs time fields (some flag)
        (.bytes (decimal time) :: .bytes name :: .bytes word :: .bytes (decimal fields.length) :: fields.map .bytes)

/-- A time that is accepted: neither negative nor, in milliseconds, past the last deadline there is. -/
def TimeAccepted (command : Cmd) (time now : Int) : Prop :=
  0 ≤ time ∧ time ≤ INT64_MAX ∧
    time * (if hexpireSeconds command then 1000 else 1) ≤ _FIELD_TTL_MAX_MS - if hexpireAbsolute command then 0 else now / 10 ^ 6

/-- A number of fields that can be announced. -/
def Announced (fields : List Bytes) : Prop := fields ≠ [] ∧ (fields.length : Int) ≤ INT64_MAX

/-! ## When the code goes by the rule -/

/-- No field of the request that is live without a deadline meets GT or LT. -/
def ExpiryFits (flag : Option TtlFlag) (fields : List Value) (life : Lives) : Prop :=
  flag = some .GT ∨ flag = some .LT → ∀ field ∈ fields, ∀ value, life field ≠ some (value, none)

/-- Some field is left, or all that is stored is looked at: every stored field is listed, and none of them holds a null. -/
def ExpirySwept (fields : List Value) (cur : Fields) (life' : Lives) : Prop :=
  (∃ field, (life' field).isSome) ∨ ∀ field e, cur.get field = some e → field ∈ fields ∧ e ≠ .plain .null

/-- The change, if there is one, can be told. -/
def ExpiryTold (ctx : Ctx) (replies : List Int) (life' : Lives) : Prop :=
  (∃ r ∈ replies, r = 1 ∨ r = 2) → ctx.Tells .hexpire (∀ field, life' field = none)

/-! ## One field after the other -/

/-- One field of a request: the reply, and the hash after it. -/
def expireField (now new_deadline : Int) (allowed : Option Int → Bool) (cur : Fields) (field : Value) : Int × Fields :=
  match Fields.live now cur field with
  | none => (-2, Fields.purge now cur field)
  | some (value, deadline) =>
    if !allowed deadline then (0, cur)
    else if new_deadline ≤ now then (2, cur.erase field)
    else (1, _put cur field value (some new_deadline))

/-- The fields of a request, from left to right. -/
def expireFields (now new_deadline : Int) (allowed : Option Int → Bool) : List Value → Fields → List Int × Fields
  | [], cur => ([], cur)
  | field :: rest, cur =>
    let first := expireField now new_deadline allowed cur field
    let later := expireFields now new_deadline allowed rest first.2
    (first.1 :: later.1, later.2)

/-- The hash by the rule. -/
def expireStored (now new_deadline : Int) (flag : Option TtlFlag) (fields : List Value) (cur : Fields) : List Int × Fields :=
  expireFields now new_deadline (fun deadline => TtlFlag.Allows flag deadline new_deadline) fields cur

/-! ## The code against the rule -/

/-- Where there is a deadline the code goes by the rule. -/
theorem allowed_of_deadline (flag : Option TtlFlag) (d new_deadline : Int) :
    ttlAllowed flag (some d) new_deadline = decide (TtlFlag.Allows flag (some d) new_deadline) := by
  cases flag with
  | none => rfl
  | some f =>
    cases f with
    | NX => rfl
    | XX => rfl
    | GT =>
      rw [ttlAllowed, ← decide_not]
      exact decide_eq_decide.2 (not_le.trans WithTop.coe_lt_coe.symm)
    | LT =>
      rw [ttlAllowed, ← decide_not]
      exact decide_eq_decide.2 (not_le.trans WithTop.coe_lt_coe.symm)

/-- Without a deadline it does too, but for GT and LT. -/
theorem allowed_of_none {flag : Option TtlFlag} (h : ¬(flag = some .GT ∨ flag = some .LT)) (new_deadline : Int) :
    ttlAllowed flag none new_deadline = decide (TtlFlag.Allows flag none new_deadline) := by
  cases flag with
  | none => rfl
  | some f =>
    cases f with
    | NX => rfl
    | XX => rfl
    | GT => exact absurd (.inl rfl) h
    | LT => exact absurd (.inr rfl) h

theorem allowed_differs {flag : Option TtlFlag} (h : flag = some .GT ∨ flag = some .LT) (new_deadline : Int) :
    ttlAllowed flag none new_deadline = !decide (TtlFlag.Allows flag none new_deadline) := by
  rcases h with rfl | rfl
  · simp [ttlAllowed, TtlFlag.Allows, lifetime]
  · simp [ttlAllowed, TtlFlag.Allows, lifetime]

/-! ## Fields that are not looked at -/

theorem get_purge_of_ne {now : Int} {cur : Fields} {field other : Value} (h : other ≠ field) :
    (Fields.purge now cur field).get other = cur.get other := by
  unfold Fields.purge
  split
  · rw [Dict.get_erase, if_neg h]
  · rfl

theorem get_expireField_of_ne {now new_deadline : Int} {allowed : Option Int → Bool} {cur : Fields} {field other : Value}
    (h : other ≠ field) :
    (expireField now new_deadline allowed cur field).2.get other = cur.get other := by
  unfold expireField
  split
  · exact get_purge_of_ne h
  · split
    · rfl
    split
    · rw [Dict.get_erase, if_neg h]
    · rw [_put, Dict.get_set, if_neg h]

theorem live_congr {now : Int} {cur cur' : Fields} {field : Value} (h : cur'.get field = cur.get field) :
    Fields.live now cur' field = Fields.live now cur field := by
  unfold Fields.live
  rw [h]

/-! ## The field itself -/

theorem live_erase (now : Int) (cur : Fields) (field : Value) : Fields.live now (cur.erase field) field = none := by
  unfold Fields.live
  rw [Dict.get_erase, if_pos rfl]

/-- A purge takes away nothing that is live. -/
theorem live_purge (now : Int) (cur : Fields) (field other : Value) :
    Fields.live now (Fields.purge now cur field) other = Fields.live now cur other := by
  by_cases hother : other = field
  · subst hother
    unfold Fields.purge
    split
    · rename_i hexpired
      rw [live_erase]
      unfold Fields.live
      split
      · rfl
      · rfl
      · rename_i e _ hget
        rw [hget] at hexpired
        exact (if_pos hexpired).symm
    · rfl
  · exact live_congr (get_purge_of_ne hother)

theorem live_put {now d : Int} (h : now < d) (cur : Fields) (field value : Value) :
    Fields.live now (_put cur field value (some d)) field = some (value, some d) := by
  unfold Fields.live _put
  rw [Dict.get_set_self]
  exact if_neg (by simp [FieldEntry.expired, FieldEntry.parts]; omega)

/-- What a request does to the life of a field it lists. -/
theorem live_expireField (now new_deadline : Int) (allowed : Option Int → Bool) (cur : Fields) (field : Value) :
    Fields.live now (expireField now new_deadline allowed cur field).2 field =
      (Fields.live now cur field).bind fun l => if !allowed l.2 then some l else if new_deadline ≤ now then none
        else some (l.1, some new_deadline) := by
  unfold expireField
  split
  · rename_i hlive
    rw [live_purge, hlive]
    rfl
  · rename_i value deadline hlive
    rw [hlive, Option.bind_some]
    split
    · exact hlive
    split
    · exact live_erase now cur field
    · exact live_put (by omega) cur field value

/-! ## Whole requests -/

/-- A field that is not listed stays. -/
theorem get_expireFields_of_notMem {now new_deadline : Int} {allowed : Option Int → Bool} {fields : List Value}
    {cur : Fields} {other : Value}
    (h : other ∉ fields) : (expireFields now new_deadline allowed fields cur).2.get other = cur.get other := by
  induction fields generalizing cur with
  | nil => rfl
  | cons field rest ih =>
    rw [List.mem_cons, not_or] at h
    exact (ih h.2).trans (get_expireField_of_ne h.1)

/-- One field, where the two conditions agree on the deadline it has. -/
theorem expireField_congr {now new_deadline : Int} {allowed allowed' : Option Int → Bool} {cur : Fields} {field : Value}
    (h : ∀ value deadline, Fields.live now cur field = some (value, deadline) → allowed deadline = allowed' deadline) :
    expireField now new_deadline allowed cur field = expireField now new_deadline allowed' cur field := by
  unfold expireField
  split
  · rfl
  · rename_i value deadline hlive
    rw [h value deadline hlive]

/-- A deadline is never taken away from a live field. -/
theorem live_expireField_ne {now new_deadline : Int} {allowed : Option Int → Bool} {cur : Fields} {field other : Value}
    (h : ∀ value, Fields.live now cur other ≠ some (value, none)) (value : Value) :
    Fields.live now (expireField now new_deadline allowed cur field).2 other ≠ some (value, none) := by
  by_cases hother : other = field
  · subst hother
    rw [live_expireField]
    intro hnone
    obtain ⟨l, hlive, hl⟩ := Option.bind_eq_some_iff.1 hnone
    split at hl
    · cases hl
      exact h value hlive
    · split at hl
      · cases hl
      · cases hl
  · rw [live_congr (get_expireField_of_ne hother)]
    exact h value

/-- Of two conditions one allows a deadline and the other does not: the replies differ. -/
theorem reply_differs {now new_deadline : Int} {allowed allowed' : Option Int → Bool} {cur : Fields} {field value : Value}
    (hdiffer : allowed none = !allowed' none) (hlive : Fields.live now cur field = some (value, none)) :
    (expireField now new_deadline allowed cur field).1 ≠ (expireField now new_deadline allowed' cur field).1 := by
  unfold expireField
  rw [hlive]
  by_cases hpast : new_deadline ≤ now
  · cases hallowed : allowed' none with
    | true => simp [hdiffer, hallowed, hpast]
    | false => simp [hdiffer, hallowed, hpast]
  · cases hallowed : allowed' none with
    | true => simp [hdiffer, hallowed, hpast]
    | false => simp [hdiffer, hallowed, hpast]

/-- Replies by the rule come from a request that fits: the first field that does not is answered otherwise. -/
theorem fits_of_replies (new_deadline : Int) {now : Int} {flag : Option TtlFlag} {fields : List Value} {cur : Fields}
    (h : (expireFields now new_deadline (ttlAllowed flag · new_deadline) fields cur).1 =
      (expireStored now new_deadline flag fields cur).1) :
    ExpiryFits flag fields (Fields.live now cur) := by
  unfold expireStored at h
  intro hflag
  induction fields generalizing cur with
  | nil => exact nofun
  | cons field rest ih =>
    unfold expireFields at h
    obtain ⟨hreply, hlater⟩ := List.cons_eq_cons.1 h
    have hfield : ∀ value, Fields.live now cur field ≠ some (value, none) := fun value hlive =>
      reply_differs (allowed_differs hflag new_deadline) hlive hreply
    have hfirst : expireField now new_deadline (ttlAllowed flag · new_deadline) cur field =
        expireField now new_deadline (fun deadline => TtlFlag.Allows flag deadline new_deadline) cur field := by
      refine expireField_congr ?_
      intro value deadline hlive
      cases deadline with
      | some d => exact allowed_of_deadline flag d new_deadline
      | none => exact absurd hlive (hfield value)
    rw [← hfirst] at hlater
    intro other hother value
    by_cases hsame : other = field
    · rw [hsame]
      exact hfield value
    · rw [← live_congr (get_expireField_of_ne hsame)]
      exact ih hlater other ((List.mem_cons.1 hother).resolve_left hsame) value

/-- A request that fits goes by the rule. -/
theorem eq_of_fits (new_deadline : Int) {now : Int} {flag : Option TtlFlag} {fields : List Value} {cur : Fields}
    (h : ExpiryFits flag fields (Fields.live now cur)) :
    expireFields now new_deadline (ttlAllowed flag · new_deadline) fields cur =
      expireStored now new_deadline flag fields cur := by
  unfold expireStored
  unfold ExpiryFits at h
  induction fields generalizing cur with
  | nil => rfl
  | cons field rest ih =>
    have hfirst : expireField now new_deadline (ttlAllowed flag · new_deadline) cur field =
        expireField now new_deadline (fun deadline => TtlFlag.Allows flag deadline new_deadline) cur field := by
      refine expireField_congr ?_
      intro value deadline hlive
      cases deadline with
      | some d => exact allowed_of_deadline flag d new_deadline
      | none => exact allowed_of_none (fun hflag => h hflag field List.mem_cons_self value hlive) new_deadline
    unfold expireFields
    dsimp only
    rw [← hfirst, ih fun hflag other hother value => live_expireField_ne (h hflag other (List.mem_cons_of_mem _ hother)) value]

/-! ## Lives of fields -/

theorem LivesOn.refl (life : Lives) : LivesOn life life := fun _ _ deadline h => ⟨deadline, h, le_rfl⟩

theorem LivesOn.trans {a b c : Lives} (h : LivesOn a b) (h' : LivesOn b c) : LivesOn a c := by
  intro field value deadline hlive
  obtain ⟨d, hb, hle⟩ := h field value deadline hlive
  obtain ⟨d', hc, hle'⟩ := h' field value d hb
  exact ⟨d', hc, hle.trans hle'⟩

theorem now_lt_of_live {now : Int} {cur : Fields} {field value : Value} {d : Int}
    (h : Fields.live now cur field = some (value, some d)) : now < d := by
  unfold Fields.live at h
  split at h
  · cases h
  · cases h
  · rename_i e _ _
    split at h
    · cases h
    · rename_i hexpired
      have hparts := Option.some.inj h
      unfold FieldEntry.expired at hexpired
      rw [hparts] at hexpired
      simpa using hexpired

/-- GT never shortens the life of a field. -/
theorem livesOn_gt (now new_deadline : Int) (fields : List Value) (cur : Fields) :
    LivesOn (Fields.live now cur) (Fields.live now (expireStored now new_deadline (some .GT) fields cur).2) := by
  unfold expireStored
  induction fields generalizing cur with
  | nil => exact .refl _
  | cons listed rest ih =>
    refine LivesOn.trans ?_ (ih _)
    intro field value deadline hlive
    by_cases hsame : field = listed
    · subst hsame
      rw [live_expireField, hlive, Option.bind_some]
      by_cases hallows : TtlFlag.Allows (some .GT) deadline new_deadline
      · have hlt : lifetime deadline < new_deadline := hallows
        obtain ⟨d, rfl⟩ : ∃ d, deadline = some d := by
          cases deadline with
          | none => exact absurd hlt not_top_lt
          | some d => exact ⟨d, rfl⟩
        have hnow := now_lt_of_live hlive
        have hlater : d < new_deadline := WithTop.coe_lt_coe.1 hlt
        exact ⟨some new_deadline, by simp [hallows, show ¬new_deadline ≤ now by omega], hlt.le⟩
      · exact ⟨deadline, by simp [hallows], le_rfl⟩
    · exact ⟨deadline, (live_congr (get_expireField_of_ne hsame)).trans hlive, le_rfl⟩

/-- LT never lengthens it. -/
theorem livesOn_lt (now new_deadline : Int) (fields : List Value) (cur : Fields) :
    LivesOn (Fields.live now (expireStored now new_deadline (some .LT) fields cur).2) (Fields.live now cur) := by
  unfold expireStored
  induction fields generalizing cur with
  | nil => exact .refl _
  | cons listed rest ih =>
    refine LivesOn.trans (ih _) ?_
    intro field value deadline hlive
    by_cases hsame : field = listed
    · subst hsame
      rw [live_expireField] at hlive
      obtain ⟨⟨value', d⟩, hbefore, hafter⟩ := Option.bind_eq_some_iff.1 hlive
      by_cases hallows : TtlFlag.Allows (some .LT) d new_deadline
      · by_cases hpast : new_deadline ≤ now
        · simp [hallows, hpast] at hafter
        · simp only [hallows, decide_true, Bool.not_true, Bool.false_eq_true, if_false, hpast] at hafter
          cases hafter
          exact ⟨d, hbefore, hallows.le⟩
      · simp only [hallows, decide_false, Bool.not_false, if_true] at hafter
        cases hafter
        exact ⟨deadline, hbefore, le_rfl⟩
    · rw [live_congr (get_expireField_of_ne hsame)] at hlive
      exact ⟨deadline, hlive, le_rfl⟩

/-! ## What is stored and what lives -/

/-- By the rule, the fields that live are those of the hash by the rule. -/
theorem ruleField_eq (now new_deadline : Int) (flag : Option TtlFlag) (cur : Fields) (field : Value) :
    ruleField now new_deadline flag (Fields.live now cur) field =
      ((expireField now new_deadline (fun deadline => TtlFlag.Allows flag deadline new_deadline) cur field).1,
        Fields.live now (expireField now new_deadline (fun deadline => TtlFlag.Allows flag deadline new_deadline)
          cur field).2) := by
  have hown := live_expireField now new_deadline (fun deadline => TtlFlag.Allows flag deadline new_deadline) cur field
  have hlife : ∀ l, Fields.live now
    (expireField now new_deadline (fun deadline => TtlFlag.Allows flag deadline new_deadline) cur field).2 field = l →
      Function.update (Fields.live now cur) field l =
        Fields.live now (expireField now new_deadline (fun deadline => TtlFlag.Allows flag deadline new_deadline)
          cur field).2 := by
    rintro l rfl
    funext other
    by_cases hother : other = field
    · rw [hother, Function.update_self]
    · rw [Function.update_of_ne hother, live_congr (get_expireField_of_ne hother)]
  unfold ruleField
  cases hlive : Fields.live now cur field with
  | none =>
    rw [hlive] at hown
    refine Prod.ext ?_ ((Function.update_eq_self_iff.2 hlive.symm).symm.trans (hlife _ hown))
    unfold expireField
    rw [hlive]
  | some l =>
    obtain ⟨value, deadline⟩ := l
    rw [hlive, Option.bind_some] at hown
    dsimp only at hown ⊢
    by_cases hallows : TtlFlag.Allows flag deadline new_deadline
    · rw [if_neg (not_not.2 hallows)]
      simp only [hallows, decide_true, Bool.not_true, Bool.false_eq_true, if_false] at hown
      by_cases hpast : new_deadline ≤ now
      · rw [if_pos hpast] at hown ⊢
        refine Prod.ext ?_ (hlife _ hown)
        simp [expireField, hlive, hallows, hpast]
      · rw [if_neg hpast] at hown ⊢
        refine Prod.ext ?_ (hlife _ hown)
        simp [expireField, hlive, hallows, hpast]
    · rw [if_pos hallows]
      simp [expireField, hlive, hallows]

/-- So it is for whole requests. -/
theorem expireByRule_eq (now new_deadline : Int) (flag : Option TtlFlag) (fields : List Value) (cur : Fields) :
    expireByRule now new_deadline flag fields (Fields.live now cur) =
      ((expireStored now new_deadline flag fields cur).1, Fields.live now (expireStored now new_deadline flag fields cur).2) := by
  unfold expireStored
  induction fields generalizing cur with
  | nil => rfl
  | cons field rest ih =>
    rw [expireByRule, ruleField_eq]
    dsimp only
    rw [ih, expireFields]

/-- A field that has been looked at is gone, lives or holds a null. -/
def Fields.LookedAt (now : Int) (cur : Fields) (field : Value) : Prop :=
  ∀ e, cur.get field = some e → (Fields.live now cur field).isSome ∨ e = .plain .null

theorem Fields.LookedAt.congr {now : Int} {cur cur' : Fields} {field : Value} (h : Fields.LookedAt now cur field)
    (heq : cur'.get field = cur.get field) :
    Fields.LookedAt now cur' field := fun e he => by
  rw [live_congr heq]
  exact h e (heq ▸ he)

theorem lookedAt_expireField (now new_deadline : Int) (allowed : Option Int → Bool) (cur : Fields) (field : Value) :
    Fields.LookedAt now (expireField now new_deadline allowed cur field).2 field := by
  intro e he
  unfold expireField at he ⊢
  cases hlive : Fields.live now cur field with
  | none =>
    rw [hlive] at he
    dsimp only at he
    unfold Fields.purge at he
    split at he
    · rw [Dict.get_erase, if_pos rfl] at he
      cases he
    · rename_i hexpired
      rw [he, Option.any_some] at hexpired
      unfold Fields.live at hlive
      rw [he] at hlive
      cases e with
      | plain value => cases value <;> first | exact .inr rfl | simp [hexpired] at hlive
      | timed value d => simp [hexpired] at hlive
  | some l =>
    obtain ⟨value, deadline⟩ := l
    rw [hlive] at he
    dsimp only at he ⊢
    split
    · exact .inl (hlive ▸ rfl)
    · rename_i hallowed
      rw [if_neg hallowed] at he
      split
      · rename_i hpast
        rw [if_pos hpast, Dict.get_erase, if_pos rfl] at he
        cases he
      · exact .inl (by rw [live_put (by omega)]; rfl)

/-- A null that is stored stays, and none is put. -/
theorem null_expireField {now new_deadline : Int} {allowed : Option Int → Bool} {cur : Fields} {field other : Value} :
    (expireField now new_deadline allowed cur field).2.get other = some (.plain .null) ↔ cur.get other = some (.plain .null) := by
  by_cases hother : other = field
  · subst hother
    unfold expireField
    cases hlive : Fields.live now cur other with
    | none =>
      dsimp only
      unfold Fields.purge
      split
      · rename_i hexpired
        rw [Dict.get_erase, if_pos rfl]
        constructor
        · intro hnone
          cases hnone
        · intro hnull
          rw [hnull] at hexpired
          cases hexpired
      · rfl
    | some l =>
      have hnot : cur.get other ≠ some (.plain .null) := fun hnull => by
        unfold Fields.live at hlive
        rw [hnull] at hlive
        cases hlive
      dsimp only
      split
      · rfl
      · split
        · rw [Dict.get_erase, if_pos rfl]
          refine iff_of_false ?_ hnot
          intro hnone
          cases hnone
        · rw [_put, Dict.get_set_self]
          refine iff_of_false ?_ hnot
          intro htimed
          cases htimed
  · rw [get_expireField_of_ne hother]

theorem null_expireFields {now new_deadline : Int} {allowed : Option Int → Bool} {fields : List Value}
    {cur : Fields} {other : Value} :
    (expireFields now new_deadline allowed fields cur).2.get other = some (.plain .null) ↔
      cur.get other = some (.plain .null) := by
  induction fields generalizing cur with
  | nil => rfl
  | cons field rest ih => exact ih.trans null_expireField

/-- After the request every listed field has been looked at. -/
theorem lookedAt_expireFields {now new_deadline : Int} {allowed : Option Int → Bool} {fields : List Value}
    {cur : Fields} {field : Value}
    (h : field ∈ fields ∨ Fields.LookedAt now cur field) :
    Fields.LookedAt now (expireFields now new_deadline allowed fields cur).2 field := by
  induction fields generalizing cur with
  | nil => exact h.resolve_left List.not_mem_nil
  | cons first rest ih =>
    refine ih ?_
    by_cases hfirst : field = first
    · subst hfirst
      exact .inr (lookedAt_expireField now new_deadline allowed cur field)
    · refine h.imp (fun hmem => (List.mem_cons.1 hmem).resolve_left hfirst) ?_
      intro hlooked
      exact hlooked.congr (get_expireField_of_ne hfirst)

theorem entries_eq_nil_iff (cur : Fields) : cur.entries = [] ↔ ∀ field, cur.get field = none := by
  constructor
  · intro h field
    rw [Dict.get_eq_none_iff, Dict.keys, h]
    exact List.not_mem_nil
  · intro h
    refine List.eq_nil_iff_forall_not_mem.2 ?_
    intro p hp
    have hsome := (Dict.get_eq_some_iff cur p.1 p.2).2 hp
    rw [h] at hsome
    cases hsome

/-- What is stored after the request is gone exactly if no field lives and everything was looked at. -/
theorem entries_expireFields_iff {now new_deadline : Int} {allowed : Option Int → Bool} {fields : List Value} {cur : Fields} :
    (expireFields now new_deadline allowed fields cur).2.entries = [] ↔
      (∀ field, Fields.live now (expireFields now new_deadline allowed fields cur).2 field = none) ∧
        ∀ field e, cur.get field = some e → field ∈ fields ∧ e ≠ .plain .null := by
  rw [entries_eq_nil_iff]
  constructor
  · intro hnone
    refine ⟨fun field => by unfold Fields.live; rw [hnone], fun field e he => ⟨?_, ?_⟩⟩
    · by_contra hmem
      rw [← get_expireFields_of_notMem hmem, hnone] at he
      cases he
    · rintro rfl
      rw [← null_expireFields, hnone] at he
      cases he
  · rintro ⟨hdead, hswept⟩ field
    by_cases hmem : field ∈ fields
    · cases hget : (expireFields now new_deadline allowed fields cur).2.get field with
      | none => rfl
      | some e =>
        rcases lookedAt_expireFields (.inl hmem) e hget with hlive | rfl
        · rw [hdead] at hlive
          cases hlive
        · exact absurd rfl (hswept field _ (null_expireFields.1 hget)).2
    · rw [get_expireFields_of_notMem hmem]
      cases hget : cur.get field with
      | none => rfl
      | some e => exact absurd (hswept field e hget).1 hmem

/-! ## The arguments -/

theorem yields_fieldList (ctx : Ctx) (command : Cmd) (e : Errors) {fields : List Bytes} (h : Announced fields) :
    Yields ctx (fieldList command e (.bytes (decimal fields.length) :: fields.map .bytes) : K F (List Value))
      (fields.map .bytes) := by
  have hpos : 0 < fields.length := List.length_pos_iff.2 h.1
  have hlength : (fields.map Value.bytes).length = fields.length := List.length_map ..
  have hint : Yields ctx (orThrow e (toLL (.bytes (decimal fields.length))) : K F Int) (fields.length : Int) := by
    rw [toLL, string2ll_decimal ⟨by unfold INT64_MIN; omega, h.2⟩]
    exact .pure _
  unfold fieldList
  refine hint.bind ?_
  rw [if_neg (by omega), if_neg (by omega), if_neg (by rw [hlength]; exact not_not.2 rfl)]
  exact .pure _

theorem yields_ttlFlags (ctx : Ctx) (command : Cmd) {word : Bytes} (h : upper word = bs "FIELDS") (flag : Option TtlFlag)
    (rest : List Value) :
    Yields ctx (ttlFlags command flag (.bytes word :: rest) : K F (Option TtlFlag × List Value)) (flag, rest) := by
  unfold ttlFlags
  refine (Yields.pure (upper word)).bind ?_
  rw [if_pos h]
  exact .pure _

theorem yields_ttlFlags_flagged (ctx : Ctx) (command : Cmd) {flag : TtlFlag} {name word : Bytes} (hflag : upper name = flag.name)
    (h : upper word = bs "FIELDS") (rest : List Value) :
    Yields ctx (ttlFlags command none (.bytes name :: .bytes word :: rest) : K F (Option TtlFlag × List Value))
      (some flag, rest) := by
  unfold ttlFlags
  refine (Yields.pure (upper name)).bind ?_
  have hname : TtlFlag.ofName (upper name) = some flag ∧ upper name ≠ bs "FIELDS" := by
    rw [hflag]
    cases flag <;> exact ⟨rfl, by decide⟩
  rw [if_neg hname.2, hname.1]
  exact yields_ttlFlags ctx command h (some flag) rest

/-- Every such request is accepted. -/
theorem yields_ttlArgs {command : Cmd} {time : Int} {fields : List Bytes} {flag : Option TtlFlag} {args : List Value}
    (htime : TimeAccepted command time ctx.clock.wall) (hfields : Announced fields) (hargs : ExpireArgs time fields flag args) :
    Yields ctx (_parse_field_ttl_args command args : K F _)
      (time * (if hexpireSeconds command then 1000 else 1), flag, fields.map .bytes) := by
  obtain ⟨hpos, hmax, hceiling⟩ := htime
  have hint : Yields ctx (orThrow .NOT_INT (toLL (.bytes (decimal time))) : K F Int) time := by
    rw [toLL, string2ll_decimal ⟨by unfold INT64_MIN; omega, hmax⟩]
    exact .pure _
  have hnot : ¬time * (if hexpireSeconds command then 1000 else 1) >
      (if hexpireAbsolute command then _FIELD_TTL_MAX_MS else _FIELD_TTL_MAX_MS - ctx.clock.wall / 10 ^ 6) := by
    split at hceiling
    all_goals split_ifs at hceiling ⊢ <;> omega
  have htail : ∀ {rest rest'}, Yields ctx (ttlFlags command none rest : K F _) (flag, rest') →
      Yields ctx (fieldList command .numFieldsText rest' : K F _) (fields.map .bytes) →
      Yields ctx (_parse_field_ttl_args command (.bytes (decimal time) :: rest) : K F _)
        (time * (if hexpireSeconds command then 1000 else 1), flag, fields.map .bytes) := by
    intro rest rest' hflags hlist
    unfold _parse_field_ttl_args
    refine hint.bind ?_
    rw [if_neg (by omega)]
    refine Yields.bind (a := ctx.clock) (fun _ => rfl) ?_
    dsimp only
    rw [if_neg hnot]
    exact hflags.bind (hlist.bind (.pure _))
  cases hargs with
  | plain h => exact htail (yields_ttlFlags ctx command h none _) (yields_fieldList ctx command _ hfields)
  | flagged hflag h => exact htail (yields_ttlFlags_flagged ctx command hflag h _) (yields_fieldList ctx command _ hfields)

/-- The code's deadline is the one that is asked for. -/
theorem newDeadline_eq {command : Cmd} (h : ExpiresFields command) (time now : Int) :
    (if hexpireAbsolute command then time * (if hexpireSeconds command then 1000 else 1) * 10 ^ 6
      else now + time * (if hexpireSeconds command then 1000 else 1) * 10 ^ 6) = newDeadline command time now := by
  rcases h with rfl | rfl | rfl | rfl
  all_goals
    simp only [hexpireAbsolute, hexpireSeconds, newDeadline, reduceCtorEq, or_self, or_true, or_false, decide_true, decide_false,
      if_true, Bool.false_eq_true, if_false]
    omega

/-! ## The commands -/

variable (ctx) in
/-- The loop goes through the fields from left to right. -/
theorem steps_hexpireLoop (new_deadline : Int) (flag : Option TtlFlag) (fields : List Bytes) {cur : Fields} (out : List Int)
    (h : s.value (.bytes key) = some (.hash cur)) :
    Steps ctx ks s (hexpireLoop (.bytes key) new_deadline flag (fields.map .bytes) cur out)
      (.ok (out ++ (expireFields ctx.clock.wall new_deadline (ttlAllowed flag · new_deadline) (fields.map .bytes) cur).1,
        (expireFields ctx.clock.wall new_deadline (ttlAllowed flag · new_deadline) (fields.map .bytes) cur).2))
      (s.change (.bytes key) (.hash
        (expireFields ctx.clock.wall new_deadline (ttlAllowed flag · new_deadline) (fields.map .bytes) cur).2)) := by
  induction fields generalizing s cur out with
  | nil =>
    change Steps ctx ks s (pure (out, cur)) (.ok (out ++ [], cur)) (s.change _ (.hash cur))
    rw [List.append_nil, Content.change_value h]
    exact .pure _
  | cons field rest ih =>
    refine (steps_field h field).bind ?_
    -- the rest of the loop, on the hash the first field leaves
    have hrest : ∀ (s' : Content F) (first : Int × Fields), first = expireField ctx.clock.wall new_deadline
      (ttlAllowed flag · new_deadline) cur (.bytes field) →
        s' = s.change (.bytes key) (.hash first.2) →
        Steps ctx ks s' (hexpireLoop (.bytes key) new_deadline flag (rest.map .bytes) first.2 (out ++ [first.1]))
          (.ok (out ++ (expireFields ctx.clock.wall new_deadline (ttlAllowed flag · new_deadline)
            ((field :: rest).map .bytes) cur).1,
            (expireFields ctx.clock.wall new_deadline (ttlAllowed flag · new_deadline) ((field :: rest).map .bytes) cur).2))
          (s.change (.bytes key)
            (.hash (expireFields ctx.clock.wall new_deadline (ttlAllowed flag · new_deadline)
              ((field :: rest).map .bytes) cur).2)) := by
      rintro s' first hfirst rfl
      have hsteps := ih (out ++ [first.1]) (Content.value_change h (.hash first.2) nofun)
      rw [List.append_assoc, Content.change_change] at hsteps
      rw [List.map_cons, expireFields, ← hfirst]
      exact hsteps
    cases hlive : Fields.live ctx.clock.wall cur (.bytes field) with
    | none => exact hrest _ (-2, Fields.purge ctx.clock.wall cur (.bytes field)) (by rw [expireField, hlive]) rfl
    | some l =>
      obtain ⟨value, deadline⟩ := l
      rw [Fields.purge_of_live hlive, Content.change_value h]
      by_cases hallowed : (!ttlAllowed flag deadline new_deadline) = true
      · refine .if_pos hallowed (hrest _ (0, cur) ?_ (Content.change_value h).symm)
        rw [expireField, hlive]
        exact (if_pos hallowed).symm
      · refine .if_neg hallowed (steps_clock.bind ?_)
        by_cases hpast : new_deadline ≤ ctx.clock.wall
        · refine .if_pos hpast ((steps_store_value _ _).bind (hrest _ (2, cur.erase (.bytes field)) ?_ rfl))
          rw [expireField, hlive]
          exact ((if_neg hallowed).trans (if_pos hpast)).symm
        · refine .if_neg hpast ((steps_store_value _ _).bind
            (hrest _ (1, _put cur (.bytes field) value (some new_deadline)) ?_ rfl))
          rw [expireField, hlive]
          exact ((if_neg hallowed).trans (if_neg hpast)).symm

/-- What a request leaves: a hash that stores nothing is dropped. -/
def Content.storeFields (s : Content F) (key : Value) (cur : Fields) : Content F :=
  if cur.entries = [] then s.erase key else s.change key (.hash cur)

section Command

variable {command : Cmd} {args : List Value} {time : Int} {flag : Option TtlFlag} {fields : List Bytes} {cur cur' : Fields}
  {replies : List Int}

/-- A request up to its events. -/
theorem steps_hexpire_loop (hvalue : s.value (.bytes key) = some (.hash cur)) (hcommand : ExpiresFields command)
    (hargs : Yields ctx (_parse_field_ttl_args command args : K F _)
      (time * (if hexpireSeconds command then 1000 else 1), flag, fields.map .bytes))
    (hrun : expireFields ctx.clock.wall (newDeadline command time ctx.clock.wall)
      (ttlAllowed flag · (newDeadline command time ctx.clock.wall))
      (fields.map .bytes) cur = (replies, cur')) {out : Except (Exc Errors) Reply} {s' : Content F}
    (htail : Steps ctx ks (s.change (.bytes key) (.hash cur')) (do
      if replies.any fun r => r = 1 ∨ r = 2 then
        _after_write (.bytes key) .hexpire
        if cur'.entries = [] then _notify (.bytes key) .del
      _drop_if_empty (.bytes key) cur'
      return .list (replies.map .int)) out s') : Steps ctx ks s (_hexpire command (.bytes key) args) out s' := by
  refine (Steps.of_run hargs).bind ?_
  refine (steps_hash (o := some cur) (purges_of_value hvalue) hvalue).bind ?_
  refine steps_clock.bind ?_
  have hloop : Steps ctx ks s _ _ _ := steps_hexpireLoop ctx (newDeadline command time ctx.clock.wall) flag fields [] hvalue
  rw [hrun, ← newDeadline_eq hcommand] at hloop
  exact hloop.bind htail

/-- A request whose events can be published. -/
theorem steps_hexpire (hvalue : s.value (.bytes key) = some (.hash cur)) (hcommand : ExpiresFields command)
    (hargs : Yields ctx (_parse_field_ttl_args command args : K F _)
      (time * (if hexpireSeconds command then 1000 else 1), flag, fields.map .bytes))
    (hrun : expireFields ctx.clock.wall (newDeadline command time ctx.clock.wall)
      (ttlAllowed flag · (newDeadline command time ctx.clock.wall))
      (fields.map .bytes) cur = (replies, cur'))
    (htold : (∃ r ∈ replies, r = 1 ∨ r = 2) → ctx.Tells .hexpire (cur'.entries = [])) :
    Steps ctx ks s (_hexpire command (.bytes key) args) (.ok (.list (replies.map .int))) (s.storeFields (.bytes key) cur') := by
  refine steps_hexpire_loop hvalue hcommand hargs hrun ?_
  have hdrop : Steps ctx ks (s.change (.bytes key) (.hash cur'))
    (_drop_if_empty (.bytes key) cur' >>= fun _ => pure (Reply.list (replies.map .int)))
      (.ok (.list (replies.map .int))) (s.storeFields (.bytes key) cur') := by
    unfold _drop_if_empty Content.storeFields
    by_cases hempty : cur'.entries = []
    · rw [if_pos hempty, if_pos hempty]
      refine .bind (.bind (steps_remove key) (.pure ())) ?_
      rw [Content.erase_change]
      exact .pure _
    · rw [if_neg hempty, if_neg hempty]
      exact .bind (.pure ()) (.pure _)
  refine .ite (fun hany => ?_) fun _ => hdrop
  obtain ⟨hevent, hdel⟩ := htold (by simpa using hany)
  refine (steps_after_write hevent).bind ?_
  refine .ite (fun hempty => ?_) fun _ => hdrop
  exact (steps_notify (hdel hempty)).bind hdrop

/-- One whose events cannot. -/
theorem steps_hexpire_untold (hvalue : s.value (.bytes key) = some (.hash cur)) (hcommand : ExpiresFields command)
    (hargs : Yields ctx (_parse_field_ttl_args command args : K F _)
      (time * (if hexpireSeconds command then 1000 else 1), flag, fields.map .bytes))
    (hrun : expireFields ctx.clock.wall (newDeadline command time ctx.clock.wall)
      (ttlAllowed flag · (newDeadline command time ctx.clock.wall))
      (fields.map .bytes) cur = (replies, cur'))
    (huntold : ¬((∃ r ∈ replies, r = 1 ∨ r = 2) → ctx.Tells .hexpire (cur'.entries = []))) :
    Steps ctx ks s (_hexpire command (.bytes key) args) (.error .other) (s.change (.bytes key) (.hash cur')) := by
  refine steps_hexpire_loop hvalue hcommand hargs hrun ?_
  obtain ⟨hany, htells⟩ := Classical.not_imp.1 huntold
  refine .if_pos (by simpa using hany) ?_
  by_cases hevent : ctx.EventReturns .hexpire
  · obtain ⟨hempty, hdel⟩ := Classical.not_imp.1 fun hdel => htells ⟨hevent, hdel⟩
    refine (steps_after_write hevent).bind ?_
    refine .if_pos hempty ?_
    exact Steps.bind_error (steps_notify_error hdel)
  · exact Steps.bind_error (steps_after_write_error hevent)

/-- What is stored is done by the rule exactly if all was swept. -/
theorem expiryDone_storeFields_iff (now : Int) (hvalue : s.value (.bytes key) = some (.hash cur)) :
    ExpiryDone now (.bytes key) (Fields.live now cur') s (s.storeFields (.bytes key) cur') ↔
      ((∀ field, Fields.live now cur' field = none) → cur'.entries = []) := by
  unfold Content.storeFields
  by_cases hempty : cur'.entries = []
  · have hnone : ∀ field, Fields.live now cur' field = none := fun field => by
      unfold Fields.live
      rw [(entries_eq_nil_iff cur').1 hempty]
    rw [if_pos hempty]
    refine ⟨fun _ _ => hempty, fun _ => ⟨?_, ?_, fun other hother => Finmap.lookup_erase_ne hother⟩⟩
    · funext field
      rw [Content.fieldLife, Content.value, Finmap.lookup_erase, hnone]
      rfl
    · rw [Finmap.lookup_erase]
      constructor
      · intro hkept
        cases hkept
      · rintro ⟨field, hfield⟩
        rw [hnone] at hfield
        cases hfield
  · have hvalid : (Obj.hash cur' : Obj F) ≠ .raw .null := by
      intro hraw
      cases hraw
    have hstored := Content.value_change hvalue (.hash cur') hvalid
    have hsome : ((s.change (.bytes key) (.hash cur')).lookup (.bytes key)).isSome :=
      Option.isSome_iff_ne_none.2 (Content.lookup_of_value hstored)
    rw [if_neg hempty]
    constructor
    · intro hdone hnone
      obtain ⟨field, hfield⟩ := hdone.exists_iff.1 hsome
      rw [hnone] at hfield
      cases hfield
    · intro hswept
      refine ⟨?_, ⟨fun _ => ?_, fun _ => hsome⟩, fun other hother => Content.lookup_change_of_ne hother s _⟩
      · funext field
        rw [Content.fieldLife, hstored]
      · by_contra hnone
        push Not at hnone
        exact hempty (hswept fun field => by simpa using hnone field)

/-- Where the request fits the code's run is the rule's, and it leaves nothing where all that was stored is gone. -/
theorem expireFields_of_fits {now new_deadline : Int} {stored : List Value} {life' : Lives} {r : List Int}
    (hrule : expireByRule now new_deadline flag stored (Fields.live now cur) = (replies, life'))
    (hrun : expireFields now new_deadline (ttlAllowed flag · new_deadline) stored cur = (r, cur'))
    (hfits : ExpiryFits flag stored (Fields.live now cur)) :
    r = replies ∧ Fields.live now cur' = life' ∧
      (cur'.entries = [] ↔
        (∀ field, life' field = none) ∧ ∀ field e, cur.get field = some e → field ∈ stored ∧ e ≠ .plain .null) := by
  rw [expireByRule_eq, (eq_of_fits _ hfits).symm.trans hrun, Prod.mk.injEq] at hrule
  obtain ⟨rfl, rfl⟩ := hrule
  refine ⟨rfl, rfl, ?_⟩
  have hleft : cur' = (expireFields now new_deadline (ttlAllowed flag · new_deadline) stored cur).2 := by rw [hrun]
  rw [hleft]
  exact entries_expireFields_iff

/-- The dict is empty where no field lives exactly if everything is swept. -/
theorem expirySwept_iff {stored : List Value} {life' : Lives}
    (hentries : cur'.entries = [] ↔
      (∀ field, life' field = none) ∧ ∀ field e, cur.get field = some e → field ∈ stored ∧ e ≠ .plain .null) :
    ((∀ field, life' field = none) → cur'.entries = []) ↔ ExpirySwept stored cur life' := by
  constructor
  · intro hdrop
    by_cases hsome : ∃ field, (life' field).isSome
    · exact .inl hsome
    · push Not at hsome
      exact .inr (hentries.1 (hdrop fun field => by simpa using hsome field)).2
  · intro hswept hnone
    refine hentries.2 ⟨hnone, hswept.resolve_left ?_⟩
    rintro ⟨field, hfield⟩
    rw [hnone] at hfield
    cases hfield

/-- The reply and the change are the rule's exactly where the request fits, all is swept and the change can be told. -/
theorem hexpire_by_rule_iff {k : KState F} {life' : Lives}
    (hvalue : (k.store.content ctx.clock.mono).value (.bytes key) = some (.hash cur)) (hcommand : ExpiresFields command)
    (hparse : Yields ctx (_parse_field_ttl_args command args : K F _)
      (time * (if hexpireSeconds command then 1000 else 1), flag, fields.map .bytes))
    (hrule : expireByRule ctx.clock.wall (newDeadline command time ctx.clock.wall) flag (fields.map .bytes)
      (Fields.live ctx.clock.wall cur) =
      (replies, life')) :
    ((_hexpire command (.bytes key) args ctx k).1 = .ok (.list (replies.map .int)) ∧
        ExpiryDone ctx.clock.wall (.bytes key) life' (k.store.content ctx.clock.mono)
          ((_hexpire command (.bytes key) args ctx k).2.store.content ctx.clock.mono)) ↔
      ExpiryFits flag (fields.map .bytes) (Fields.live ctx.clock.wall cur) ∧ ExpirySwept (fields.map .bytes) cur life' ∧
        ExpiryTold ctx replies life' := by
  obtain ⟨r, c, hrun⟩ : ∃ r c, expireFields ctx.clock.wall (newDeadline command time ctx.clock.wall)
    (ttlAllowed flag · (newDeadline command time ctx.clock.wall)) (fields.map .bytes) cur = (r, c) := ⟨_, _, rfl⟩
  by_cases htold : (∃ x ∈ r, x = 1 ∨ x = 2) → ctx.Tells .hexpire (c.entries = [])
  · obtain ⟨k', hcode, hk'⟩ := (steps_hexpire hvalue hcommand hparse hrun htold).gives (.none k)
    rw [hcode]
    dsimp only
    rw [hk']
    constructor
    · rintro ⟨hok, hdone⟩
      have hr : r = replies := List.map_injective_iff.2 (fun _ _ => Reply.int.inj) (Reply.list.inj (Except.ok.inj hok))
      have hfits : ExpiryFits flag (fields.map .bytes) (Fields.live ctx.clock.wall cur) := by
        refine fits_of_replies (newDeadline command time ctx.clock.wall) ?_
        rw [hrun]
        exact hr.trans (congrArg Prod.fst ((expireByRule_eq _ _ _ _ _).symm.trans hrule)).symm
      obtain ⟨-, hlives, hentries⟩ := expireFields_of_fits hrule hrun hfits
      rw [← hlives, expiryDone_storeFields_iff _ hvalue, hlives] at hdone
      refine ⟨hfits, (expirySwept_iff hentries).1 hdone, fun hany => ?_⟩
      obtain ⟨hevent, hdel⟩ := htold (hr ▸ hany)
      exact ⟨hevent, fun hnone => hdel (hdone hnone)⟩
    · rintro ⟨hfits, hswept, -⟩
      obtain ⟨rfl, hlives, hentries⟩ := expireFields_of_fits hrule hrun hfits
      refine ⟨rfl, ?_⟩
      rw [← hlives, expiryDone_storeFields_iff _ hvalue, hlives]
      exact (expirySwept_iff hentries).2 hswept
  · obtain ⟨k', hcode, -⟩ := (steps_hexpire_untold hvalue hcommand hparse hrun htold).gives (.none k)
    rw [hcode]
    refine ⟨fun h => (nomatch h.1), fun ⟨hfits, _, htells⟩ => absurd (fun hany => ?_) htold⟩
    obtain ⟨rfl, -, hentries⟩ := expireFields_of_fits hrule hrun hfits
    obtain ⟨hevent, hdel⟩ := htells hany
    exact ⟨hevent, fun hempty => hdel (hentries.1 hempty).1⟩

end Command

/-- A hash `h` with two fields, one of them without a deadline. -/
def twoFields : Fields :=
  Dict.set (Dict.set ∅ (.bytes (bs "a")) (.plain (.bytes (bs "1")))) (.bytes (bs "b")) (.timed (.bytes (bs "2")) (5 * 10 ^ 9))

def twoFieldsStore : KState Int := ⟨⟨Dict.set ∅ (.bytes (bs "h")) ⟨.hash twoFields, none⟩, ∅⟩, [], 0⟩

/-- `HEXPIRE h 10 GT FIELDS 2 a b`. -/
def expireBoth : List Value := ["10", "GT", "FIELDS", "2", "a", "b"].map fun name => .bytes (bs name)

theorem expireBoth_args : ExpireArgs 10 [bs "a", bs "b"] (some .GT) expireBoth := .flagged (by decide) (by decide)

/-- The fields of `h` that live after it. -/
def expireBothLives : Lives := (expireByRule 0 (10 * 10 ^ 9) (some .GT) ([bs "a", bs "b"].map .bytes) (Fields.live 0 twoFields)).2

end Kagni
