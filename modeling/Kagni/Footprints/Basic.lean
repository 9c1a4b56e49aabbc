import Kagni.Lemmas.Methods

/-!
# Strings, expiry and the keyspace obey the discipline
-/

namespace Kagni

open Lib Lib.Prog

variable {F : Type} {d : Discipline} {S : Set Value} {key : Value}

/-! ## Values that may be stored -/

namespace Discipline

/-- A value that may be given may be stored raw. -/
theorem obj_raw (d : Discipline) {v : Value} (h : d.permits (.value v)) : d.obj (F := F) (.raw v) := ⟨h, fun _ => trivial⟩

/-- Byte strings may always be stored. -/
theorem obj_bytes (d : Discipline) (b : Bytes) : d.obj (F := F) (.raw (.bytes b)) := d.obj_raw (d.value_bytes b)

end Discipline

/-! ## Parsing -/

/-- Only byte strings and arrays have a length. -/
theorem computes_pyLen (v : Value) : Computes (pyLen v : K F Nat) fun _ => v.sized = true := by
  cases v with
  | bytes b => exact .pure rfl
  | array items => exact .pure rfl
  | _ => exact .raise _

/-- The size check lets through what has a length. -/
theorem computes_checkSize (v : Value) : Computes (checkSize v : K F Unit) fun _ => v.sized = true := by
  refine (computes_pyLen v).bind ?_
  intro _ h
  exact .ite (fun _ => .raise _) fun _ => .pure h

/-- The name of a unit. -/
def TtlUnit.name : TtlUnit → Bytes
  | .EX => bs "EX"
  | .PX => bs "PX"
  | .EXAT => bs "EXAT"
  | .PXAT => bs "PXAT"

/-- A unit is found by its own name only. -/
theorem TtlUnit.ofName_eq_some {opt : Bytes} {unit : TtlUnit} (h : TtlUnit.ofName opt = some unit) : opt = unit.name := by
  unfold TtlUnit.ofName at h
  split at h
  · cases h
    assumption
  split at h
  · cases h
    assumption
  split at h
  · cases h
    assumption
  split at h
  · cases h
    assumption
  · cases h

/-- What the option loop of SET finds out: whether the old value is asked for, and that a unit was named. -/
def Parsed (is_set : Bool) (o : ExtendedOptions) (options : List Value) (o' : ExtendedOptions) : Prop :=
  (is_set = true → o'.get = (o.get || setGets options)) ∧
    ∀ unit raw, o'.ttl = some (unit, raw) → o.ttl = some (unit, raw) ∨ ∃ v ∈ options, v.names unit.name = true

/-- An option that is no unit and not GET is passed over. -/
theorem Parsed.skip {is_set : Bool} {o o₁ o' : ExtendedOptions} {opt : Value} {rest : List Value} (h : Parsed is_set o₁ rest o')
    (hget : o₁.get = o.get) (httl : o₁.ttl = o.ttl) {name : Bytes} (hopt : opt.names name = true)
    (hname : name ≠ bs "GET" ∧ name ≠ bs "EX" ∧ name ≠ bs "PX" ∧ name ≠ bs "EXAT" ∧ name ≠ bs "PXAT") :
    Parsed is_set o (opt :: rest) o' := by
  have hno : ∀ other, name ≠ other → opt.names other = false := by
    intro other hne
    cases opt with
    | bytes b =>
      have hb : upper b = name := of_decide_eq_true hopt
      exact decide_eq_false (hb ▸ hne)
    | _ => rfl
  obtain ⟨h1, h2, h3, h4, h5⟩ := hname
  have hsets : setGets (opt :: rest) = setGets rest := by
    cases rest with
    | nil => exact hno _ h1
    | cons raw rest =>
      rw [setGets, if_neg (by rw [hno _ h1]; decide), hno _ h2, hno _ h3, hno _ h4, hno _ h5]
      rfl
  refine ⟨fun hs => ?_, fun unit raw hu => ?_⟩
  · rw [h.1 hs, hget, hsets]
  · rcases h.2 unit raw hu with hu | ⟨v, hv, hn⟩
    · exact .inl (httl ▸ hu)
    · exact .inr ⟨v, List.mem_cons_of_mem _ hv, hn⟩

/-- One round of the loop. -/
theorem parse_extended_options_cons (is_set : Bool) (o : ExtendedOptions) (opt : Value) (rest : List Value) :
    (_parse_extended_options is_set o (opt :: rest) : K F _) = (do
      let opt ← upperArg opt
      if opt = bs "NX" ∧ is_set ∧ !o.xx then _parse_extended_options is_set { o with nx := true } rest
      else if opt = bs "XX" ∧ is_set ∧ !o.nx then _parse_extended_options is_set { o with xx := true } rest
      else if opt = bs "GET" ∧ is_set then _parse_extended_options is_set { o with get := true } rest
      else if opt = bs "KEEPTTL" ∧ is_set ∧ !o.persist ∧ o.ttl.isNone then
        _parse_extended_options is_set { o with keepttl := true } rest
      else if opt = bs "PERSIST" ∧ !is_set ∧ !o.keepttl ∧ o.ttl.isNone then
        _parse_extended_options is_set { o with persist := true } rest
      else match TtlUnit.ofName opt, rest with
        | some unit, raw :: rest =>
          if !o.keepttl ∧ !o.persist ∧ o.ttl.all (fun t => t.1 = unit) then
            _parse_extended_options is_set { o with ttl := some (unit, raw) } rest
          else throw_ .SYNTAX
        | _, _ => throw_ .SYNTAX) := by
  delta _parse_extended_options
  cases rest with
  | nil =>
    refine congrArg (upperArg opt >>= ·) (funext fun u => ?_)
    cases TtlUnit.ofName u <;> rfl
  | cons raw rest =>
    refine congrArg (upperArg opt >>= ·) (funext fun u => ?_)
    cases TtlUnit.ofName u <;> rfl

/-- The option parser reads the arguments from left to right. -/
theorem computes_parse_extended_options (is_set : Bool) (o : ExtendedOptions) (options : List Value) :
    Computes (_parse_extended_options is_set o options : K F _) (Parsed is_set o options) := by
  intro S
  -- an option with a value takes two arguments, so the induction speaks about the tail as well
  suffices h : (∀ o, Built Asking S (_parse_extended_options is_set o options : K F _) (Parsed is_set o options)) ∧
      ∀ raw rest, options = raw :: rest →
        ∀ o, Built Asking S (_parse_extended_options is_set o rest : K F _) (Parsed is_set o rest) from h.1 o
  induction options with
  | nil => exact ⟨fun o => .pure ⟨fun _ => (Bool.or_false _).symm, fun _ _ h => .inl h⟩, nofun⟩
  | cons opt rest ih =>
    refine ⟨fun o => ?_, fun _ _ e => (List.cons.inj e).2 ▸ ih.1⟩
    rw [parse_extended_options_cons]
    refine (computes_upperArg opt).bind ?_
    intro u hu
    have hskip : ∀ o₁ : ExtendedOptions, o₁.get = o.get → o₁.ttl = o.ttl →
        (u ≠ bs "GET" ∧ u ≠ bs "EX" ∧ u ≠ bs "PX" ∧ u ≠ bs "EXAT" ∧ u ≠ bs "PXAT") →
        Built Asking S (_parse_extended_options is_set o₁ rest : K F _) (Parsed is_set o (opt :: rest)) :=
      fun o₁ hget httl hname => (ih.1 o₁).weaken fun o' h => h.skip hget httl ((hu u).1 rfl) hname
    refine .ite (fun h => hskip _ rfl rfl (by rw [h.1]; decide)) fun _ => .ite
      (fun h => hskip _ rfl rfl (by rw [h.1]; decide)) fun _ => ?_
    refine .ite (fun h => (ih.1 _).weaken fun o' h' => ?_) fun hget => ?_
    · -- GET: the old value is asked for, whatever follows
      have hnames := (hu (bs "GET")).1 h.1
      refine ⟨fun hs => ?_, fun unit raw hr => (h'.2 unit raw hr).imp_right fun ⟨v, hv, hn⟩ => ⟨v, List.mem_cons_of_mem _ hv, hn⟩⟩
      have hsets : setGets (opt :: rest) = true := by
        cases rest with
        | nil => exact hnames
        | cons raw rest => rw [setGets, if_pos hnames]
      rw [h'.1 hs, hsets]
      exact (Bool.or_true _).symm
    refine .ite (fun h => hskip _ rfl rfl (by rw [h.1]; decide)) fun _ => .ite
      (fun h => hskip _ rfl rfl (by rw [h.1]; decide)) fun _ => ?_
    split
    · -- a unit and its value
      rename_i unit raw rest hunit
      refine .ite (fun _ => (ih.2 raw rest rfl _).weaken fun o' h' => ?_) fun _ => .raise _
      have hopt := (hu unit.name).1 (TtlUnit.ofName_eq_some hunit)
      refine ⟨fun hs => ?_, fun unit' raw' hr => ?_⟩
      · have hgets : setGets (opt :: raw :: rest) = setGets rest := by
          have hg : ¬opt.names (bs "GET") = true := fun hg => hget ⟨(hu _).2 hg, hs⟩
          rw [setGets, if_neg hg, if_pos]
          cases unit with
          | EX => simp [show opt.names (bs "EX") = true from hopt]
          | PX => simp [show opt.names (bs "PX") = true from hopt]
          | EXAT => simp [show opt.names (bs "EXAT") = true from hopt]
          | PXAT => simp [show opt.names (bs "PXAT") = true from hopt]
        rw [h'.1 hs, hgets]
      · rcases h'.2 unit' raw' hr with hu' | ⟨v, hv, hn⟩
        · cases hu'
          exact .inr ⟨opt, by simp, hopt⟩
        · exact .inr ⟨v, List.mem_cons_of_mem _ (List.mem_cons_of_mem _ hv), hn⟩
    · exact .raise _

/-- The deadline an option stands for. A relative one lies in the future. -/
theorem disciplined_expire_wall_deadline (command : Cmd) (unit : TtlUnit) (raw : Value) :
    Disciplined d S (_expire_wall_deadline command unit raw : K F Int) fun t => unit = .EX ∨ unit = .PX → d.clock.wall < t := by
  refine (of_computes (computes_orThrow _ _)).bind ?_
  intro value _
  refine built_check fun hpos => built_check fun _ => ?_
  refine disciplined_clock.bind fun now hnow => .pure ?_
  rintro (rfl | rfl)
  · rw [← hnow]
    dsimp only
    omega
  · rw [← hnow]
    dsimp only
    omega

/-- One option of HELLO. -/
theorem helloArgs_cons (proto : Int) (arg : Value) (rest : List Value) : (helloArgs proto (arg :: rest) : K F Int) = (do
    let opt ← upperArg arg
    if opt = bs "AUTH" then if rest.length < 2 then throw_ .SYNTAX else throw_ .helloAuth
    else if opt = bs "SETNAME" then
      match rest with
      | [] => throw_ .SYNTAX
      | _ :: rest => helloArgs proto rest
    else
      let proto ← orThrow .NOT_INT (toLL arg)
      helloArgs proto rest) := by
  delta helloArgs
  cases rest <;> rfl

/-- The protocol version is read from the arguments. -/
theorem computes_helloArgs (proto : Int) (args : List Value) : Computes (helloArgs proto args : K F Int) fun _ => True := by
  intro S
  suffices h : (∀ proto, Built Asking S (helloArgs proto args : K F Int) fun _ => True) ∧
      ∀ name rest, args = name :: rest → ∀ proto, Built Asking S (helloArgs proto rest : K F Int) fun _ => True from h.1 proto
  induction args with
  | nil => exact ⟨fun _ => .pure trivial, nofun⟩
  | cons arg rest ih =>
    refine ⟨fun proto => ?_, fun _ _ e => (List.cons.inj e).2 ▸ ih.1⟩
    rw [helloArgs_cons]
    refine (computes_upperArg arg).bind ?_
    intro _ _
    refine .ite (fun _ => .ite (fun _ => .raise _) fun _ => .raise _) ?_
    intro _
    refine .ite (fun _ => ?_) fun _ => (computes_orThrow _ _).bind fun proto _ => ih.1 proto
    split
    · exact .raise _
    · exact ih.2 _ _ rfl proto

/-- Which sections are wanted is read from the arguments. -/
theorem computes_infoSections (wanted : Bool × Bool) (sections : List Value) :
    Computes (infoSections wanted sections : K F _) fun _ => True := by
  intro S
  induction sections generalizing wanted with
  | nil => exact .pure trivial
  | cons s rest ih =>
    refine (computes_asBytes s).bind ?_
    intro _ _
    refine .ite (fun _ => ih _) ?_
    intro _
    refine .ite (fun _ => ih _) ?_
    intro _
    exact .ite (fun _ => ih _) fun _ => ih _

/-- A stored counter is read, or refused with its error. -/
theorem computes_counterOf (e : Errors) (val : Bytes) : Computes (counterOf e val : K F Int) fun _ => True :=
  .ite (fun _ => (computes_orFail _).weaken fun _ _ => trivial) fun _ => .raise _

/-- A sum that overflows is refused. -/
theorem computes_checkCounter (result : Int) : Computes (checkCounter result : K F Unit) fun _ => True :=
  .ite (fun _ => .raise _) fun _ => .pure trivial

/-! ## Connection commands -/

theorem disciplined_PING (message : Option Value) : Disciplined d S (PING message : K F Reply) fun _ => True := by
  unfold PING
  split
  all_goals exact .pure trivial

theorem disciplined_TYPE (hlook : d.permits (.look key)) : Disciplined d S (TYPE key : K F Reply) fun _ => True := by
  have htype : (TYPE key : K F Reply) = data_get key >>= fun o => pure (o.elim (.simple .none) fun obj =>
      .simple (((kind_of obj).map TYPE_NAMES).getD .none)) := by
    unfold TYPE
    refine congrArg (data_get key >>= ·) (funext fun o => ?_)
    cases o <;> rfl
  rw [htype]
  exact (looks_get_blind hlook (fun _ _ => rfl) fun _ _ => .pure trivial).built

theorem disciplined_HELLO (args : List Value) : Disciplined d S (HELLO args : K F Reply) fun _ => True := by
  refine (of_computes (computes_helloArgs 2 args)).bind ?_
  intro _ _
  exact built_check fun _ => .pure trivial

/-- INFO scans the keyspace. -/
theorem disciplined_INFO (hscan : d.permits .scan) (sections : List Value) :
    Disciplined d S (INFO sections : K F Reply) fun _ => True := by
  have h : Disciplined d S (do
      let wanted ← infoSections (false, false) (if sections = [] then [.bytes (bs "default")] else sections)
      let info ← (fun ctx k => (.ok (ctx.env.serverInfo ctx.clock ctx.tcp_port), k) : K F Text)
      let head := if wanted.1 then [info] else []
      let blocks ← (if wanted.2 then do return head ++ [← infoKeyspace] else pure head : K F (List Text))
      return .bytes (SYM_CRLF.intercalate blocks) : K F Reply) fun _ => True := by
    refine (of_computes (computes_infoSections _ _)).bind ?_
    intro wanted _
    refine (Built.leaf (.ask fun env now port => env.serverInfo now port) le_rfl).bind ?_
    intro info _
    have hkeyspace : Disciplined d S (infoKeyspace : K F Text) fun _ => True :=
      (disciplined_keyspace_stats hscan).bind fun _ _ => .pure trivial
    refine .bind (Q := fun _ => True) (.ite (fun _ => ?_) fun _ => .pure trivial) fun _ _ => .pure trivial
    exact hkeyspace.bind fun _ _ => .pure trivial
  exact h

/-! ## Strings -/

/-- A unit other than EXAT and PXAT makes a deadline in the future. -/
theorem future_or_past {unit : TtlUnit} {t : Int} (ht : unit = .EX ∨ unit = .PX → d.clock.wall < t)
    (hpast : unit = .EXAT ∨ unit = .PXAT → d.permits .past) : d.permits .past ∨ ∀ u, some t = some u → d.clock.wall < u := by
  cases unit with
  | EX => exact .inr fun u hu => Option.some.inj hu ▸ ht (.inl rfl)
  | PX => exact .inr fun u hu => Option.some.inj hu ▸ ht (.inr rfl)
  | EXAT => exact .inl (hpast (.inl rfl))
  | PXAT => exact .inl (hpast (.inr rfl))

/-- SET stores its value under its key; it looks at the key for NX, XX, GET and KEEPTTL. -/
theorem disciplined_SET {val : Value} {options : List Value} (hlook : d.permits (.look key))
    (hkey : key.hashable = true → d.permits (.create key)) (hval : val.sized = true → d.permits (.value val))
    (hreplace : setGets options = false → d.permits (.replace key))
    (hpast : ∀ v ∈ options, v.names (bs "EXAT") = true ∨ v.names (bs "PXAT") = true → d.permits .past) :
    Disciplined d S (SET key val options : K F Reply) fun _ => True := by
  refine (of_computes (computes_parse_extended_options true .none options)).bind ?_
  intro o ho
  refine .bind (Q := fun deadline => d.permits .past ∨ ∀ t, deadline = some t → d.clock.wall < t) ?_ fun deadline hdeadline => ?_
  · cases httl : o.ttl with
    | none => exact .pure (.inr nofun)
    | some ttl =>
      obtain ⟨unit, raw⟩ := ttl
      refine (disciplined_expire_wall_deadline .SET unit raw).bind fun t ht => .pure (future_or_past ht ?_)
      rcases ho.2 unit raw httl with hnone | ⟨v, hv, hn⟩
      · cases hnone
      · rintro (rfl | rfl)
        · exact hpast v hv (.inl hn)
        · exact hpast v hv (.inr hn)
  have hgets : o.get = setGets options := ho.1 rfl
  -- the old value is looked up first, or what is there is overwritten without looking
  cases hget : o.get with
  | true =>
    refine (looks_string hlook).andThen ?_
    intro old _
    refine (disciplined_is_live hlook).bind ?_
    intro found _
    refine .ite (fun _ => .pure trivial) ?_
    intro _
    refine (of_computes (computes_checkSize val)).bind ?_
    intro _ hsized
    refine (disciplined_data_set hkey (d.obj_raw (hval hsized)) (d.seen_insert S key) (fun _ => hlook) hdeadline).bind ?_
    intro _ hhash
    refine (disciplined_after_write (hkey hhash) .set).bind ?_
    intro _ _
    exact .ite (fun _ => (disciplined_notify (hkey hhash) .expire).bind fun _ _ => .pure trivial) fun _ => .pure trivial
  | false =>
    have hseen : d.Seen S key := .inr (hreplace (hgets ▸ hget))
    refine .bind (Q := fun _ => True) (.pure trivial) ?_
    intro old _
    refine (disciplined_is_live hlook).bind ?_
    intro found _
    refine .ite (fun _ => .pure trivial) ?_
    intro _
    refine (of_computes (computes_checkSize val)).bind ?_
    intro _ hsized
    refine (disciplined_data_set hkey (d.obj_raw (hval hsized)) hseen (fun _ => hlook) hdeadline).bind ?_
    intro _ hhash
    refine (disciplined_after_write (hkey hhash) .set).bind ?_
    intro _ _
    exact .ite (fun _ => (disciplined_notify (hkey hhash) .expire).bind fun _ _ => .pure trivial) fun _ => .pure trivial

/-- SETNX stores under a key it found missing. -/
theorem disciplined_SETNX {val : Value} (hlook : d.permits (.look key)) (hkey : key.hashable = true → d.permits (.create key))
    (hval : val.sized = true → d.permits (.value val)) (hreplace : d.permits (.replace key)) :
    Disciplined d S (SETNX key val : K F Reply) fun _ => True := by
  refine (disciplined_is_live hlook).bind ?_
  intro found _
  refine .ite (fun _ => .pure trivial) ?_
  intro _
  refine (of_computes (computes_checkSize val)).bind ?_
  intro _ hsized
  refine (disciplined_data_set hkey (d.obj_raw (hval hsized)) (.inr hreplace) (by nofun) (.inr (by nofun))).bind ?_
  intro _ hhash
  exact (disciplined_after_write (hkey hhash) .set).bind fun _ _ => .pure trivial

/-- SETEX and PSETEX store with a deadline and without a look. -/
theorem disciplined_setWithTtl (command : Cmd) {unit : TtlUnit} (hunit : unit = .EX ∨ unit = .PX) (n : Int) {val : Value}
    (hkey : key.hashable = true → d.permits (.create key)) (hval : d.permits (.value val)) (hreplace : d.permits (.replace key)) :
    Disciplined d S (setWithTtl command unit key n val : K F Reply) fun _ => True := by
  refine (disciplined_expire_wall_deadline command unit _).bind ?_
  intro t ht
  have hfuture : ∀ u, some t = some u → d.clock.wall < u := fun u hu => Option.some.inj hu ▸ ht hunit
  refine (disciplined_data_set hkey (d.obj_raw hval) (.inr hreplace) (by nofun) (.inr hfuture)).bind ?_
  intro _ hhash
  refine (disciplined_after_write (hkey hhash) .set).bind ?_
  intro _ _
  exact (disciplined_notify (hkey hhash) .expire).bind fun _ _ => .pure trivial

theorem disciplined_GET (hlook : d.permits (.look key)) : Disciplined d S (GET key : K F Reply) fun _ => True :=
  (looks_string hlook).andThen fun _ _ => .pure trivial

/-- GETDEL removes what it looked at. -/
theorem disciplined_GETDEL (hlook : d.permits (.look key)) : Disciplined d S (GETDEL key : K F Reply) fun _ => True := by
  refine (looks_string hlook).andThen ?_
  intro o ho
  cases o with
  | none => exact .pure trivial
  | some val =>
    refine disciplined_discard (d.seen_insert S key) ?_
    exact (disciplined_after_write (ho val rfl) .del).bind fun _ _ => .pure trivial

/-- GETEX moves the deadline of what it looked at. -/
theorem disciplined_GETEX (hlook : d.permits (.look key)) (options : List Value) :
    Disciplined d S (GETEX key options : K F Reply) fun _ => True := by
  refine (of_computes (computes_parse_extended_options false .none options)).bind ?_
  intro o _
  refine (looks_string hlook).andThen ?_
  intro old hold
  cases old with
  | none => exact .pure trivial
  | some val =>
    have hkey := hold val rfl
    have hseen := d.seen_insert S key
    refine .ite (fun _ => ?_) fun _ => ?_
    · refine (disciplined_persist hlook hseen).bind ?_
      intro _ _
      exact (disciplined_after_write hkey .persist).bind fun _ _ => .pure trivial
    · cases o.ttl with
      | none => exact .bind (Q := fun _ => True) (.pure trivial) fun _ _ => .pure trivial
      | some ttl =>
        obtain ⟨unit, raw⟩ := ttl
        refine (disciplined_expire_wall_deadline .GETEX unit raw).bind ?_
        intro t _
        refine disciplined_clock.bind ?_
        intro now hnow
        refine .ite (fun _ => ?_) fun hlt => ?_
        · exact disciplined_discard hseen ((disciplined_after_write hkey .del).bind fun _ _ => .pure trivial)
        · have hfuture : ∀ u, some t = some u → d.clock.wall < u := fun u hu => Option.some.inj hu ▸ hnow ▸ not_le.1 hlt
          refine (disciplined_data_set (fun _ => hkey) (d.obj_bytes val) hseen (by nofun) (.inr hfuture)).bind ?_
          intro _ _
          exact (disciplined_after_write hkey .expire).bind fun _ _ => .pure trivial

/-- GETSET stores in place of what it looked at. -/
theorem disciplined_GETSET {val : Value} (hlook : d.permits (.look key)) (hkey : key.hashable = true → d.permits (.create key))
    (hval : val.sized = true → d.permits (.value val)) : Disciplined d S (GETSET key val : K F Reply) fun _ => True := by
  refine (looks_string hlook).andThen ?_
  intro _ _
  refine (of_computes (computes_checkSize val)).bind ?_
  intro _ hsized
  refine (disciplined_setitem hkey (d.obj_raw (hval hsized)) (d.seen_insert S key)).bind ?_
  intro _ hhash
  exact (disciplined_after_write (hkey hhash) .set).bind fun _ _ => .pure trivial

/-- MGET looks at all its keys. -/
theorem disciplined_MGET {keys : List Value} (hlook : ∀ key ∈ keys, d.permits (.look key)) :
    Disciplined d S (MGET keys : K F Reply) fun _ => True := by
  unfold MGET
  refine built_check fun _ => ?_
  refine .bind (built_mapM (Q := fun _ => True) fun key hkey => ?_) fun _ _ => .pure trivial
  exact (looks_string (hlook key hkey)).andThen fun _ _ => .pure trivial

/-- The pairs are stored in turn. -/
theorem disciplined_storeAll {pairs : List (Value × Value)} (hkey : ∀ p ∈ pairs, p.1.hashable = true → d.permits (.create p.1))
    (hval : ∀ p ∈ pairs, p.2.sized = true → d.permits (.value p.2)) (hreplace : ∀ p ∈ pairs, d.permits (.replace p.1)) :
    Disciplined d S (storeAll pairs : K F Unit) fun _ => True := by
  refine .bind (.each fun p _ => of_computes (computes_checkSize p.2)) ?_
  intro _ hsized
  refine .bind (.each (P := fun p => p.1.hashable = true) fun p hp => ?_) fun _ hhash =>
    (Built.each (P := fun _ => True) fun p hp => ?_).weaken fun _ _ => trivial
  · exact disciplined_setitem (hkey p hp) (d.obj_raw (hval p hp (hsized p hp))) (.inr (hreplace p hp))
  · exact disciplined_after_write (hkey p hp (hhash p hp)) .set

/-- MSET stores its pairs without a look. -/
theorem disciplined_MSET {args : List Value} (hkey : ∀ p ∈ pairsOf args, p.1.hashable = true → d.permits (.create p.1))
    (hval : ∀ p ∈ pairsOf args, p.2.sized = true → d.permits (.value p.2))
    (hreplace : ∀ p ∈ pairsOf args, d.permits (.replace p.1)) : Disciplined d S (MSET args : K F Reply) fun _ => True := by
  unfold MSET
  refine built_check fun _ => ?_
  exact (disciplined_storeAll hkey hval hreplace).bind fun _ _ => .pure trivial

/-- The keys are looked at until one is live. -/
theorem disciplined_anyLive {keys : List Value} (hlook : ∀ key ∈ keys, d.permits (.look key)) :
    Disciplined d S (anyLive keys : K F Bool) fun _ => True := by
  induction keys with
  | nil => exact .pure trivial
  | cons key keys ih =>
    refine (disciplined_is_live (hlook key (by simp))).bind fun _ _ => .ite (fun _ => .pure trivial) fun _ => ?_
    exact ih fun key hkey => hlook key (by simp [hkey])

/-- MSETNX looks at all keys before it stores the pairs. -/
theorem disciplined_MSETNX {args : List Value} (hlook : ∀ p ∈ pairsOf args, d.permits (.look p.1))
    (hkey : ∀ p ∈ pairsOf args, p.1.hashable = true → d.permits (.create p.1))
    (hval : ∀ p ∈ pairsOf args, p.2.sized = true → d.permits (.value p.2))
    (hreplace : ∀ p ∈ pairsOf args, d.permits (.replace p.1)) : Disciplined d S (MSETNX args : K F Reply) fun _ => True := by
  unfold MSETNX
  refine built_check fun _ => ?_
  refine (disciplined_anyLive (List.forall_mem_map.2 hlook)).bind ?_
  intro _ _
  refine .ite (fun _ => .pure trivial) ?_
  intro _
  exact (disciplined_storeAll hkey hval hreplace).bind fun _ _ => .pure trivial

/-- DEL removes and counts its keys. -/
theorem disciplined_DEL {keys : List Value} (hlook : ∀ key ∈ keys, d.permits (.look key))
    (hreplace : ∀ key ∈ keys, d.permits (.replace key)) : Disciplined d S (DEL keys : K F Reply) fun _ => True := by
  unfold DEL
  refine built_check fun _ => ?_
  refine .bind (Built.fold (Q := fun _ => True) trivial fun n _ key hkey => ?_) fun _ _ => .pure trivial
  refine (disciplined_remove (hlook key hkey) (.inr (hreplace key hkey))).bind ?_
  intro b hb
  refine .ite (fun h => ?_) fun _ => .pure trivial
  exact (disciplined_after_write (hb h) .del).bind fun _ _ => .pure trivial

/-! ## Expiry -/

/-- A deadline is told of, or that the key has gone. -/
theorem disciplined_expire_notify (hlook : d.permits (.look key)) {result : Bool}
    (hkey : result = true → d.permits (.create key)) (live_before : Bool) :
    Disciplined d S (_expire_notify key result live_before : K F Unit) fun _ => True := by
  refine .ite (fun h => ?_) fun _ => .pure trivial
  have hlive : Disciplined d S (if live_before then is_live key else pure true : K F Bool) fun _ => True :=
    .ite (fun _ => (disciplined_is_live hlook).weaken fun _ _ => trivial) fun _ => .pure trivial
  exact hlive.bind fun _ _ => disciplined_after_write (hkey h) _

/-- EXPIRE and its relatives look at the key, move the deadline and tell. -/
theorem disciplined_expireWith (hlook : d.permits (.look key)) {set_expiry : K F Bool}
    (h : Disciplined d S set_expiry fun b => b = true → d.permits (.create key)) :
    Disciplined d S (expireWith key set_expiry) fun _ => True := by
  refine (disciplined_is_live hlook).bind ?_
  intro live_before _
  refine h.bind ?_
  intro result hresult
  exact (disciplined_expire_notify hlook hresult live_before).bind fun _ _ => .pure trivial

/-- PEXPIRE turns milliseconds into a deadline. -/
theorem disciplined_PEXPIRE (hlook : d.permits (.look key)) (ms : Int) :
    Disciplined d S (PEXPIRE key ms : K F Reply) fun _ => True :=
  disciplined_expireWith hlook (disciplined_clock.bind fun _ _ => disciplined_expire_at hlook _)

/-- PERSIST drops the deadline of its key. -/
theorem disciplined_PERSIST (hlook : d.permits (.look key)) (hreplace : d.permits (.replace key)) :
    Disciplined d S (PERSIST key : K F Reply) fun _ => True := by
  refine (disciplined_persist hlook (.inr hreplace)).bind ?_
  intro result hresult
  refine .ite (fun h => ?_) fun _ => .pure trivial
  exact (disciplined_after_write (hresult h) .persist).bind fun _ _ => .pure trivial

theorem disciplined_EXPIRETIME (hlook : d.permits (.look key)) : Disciplined d S (EXPIRETIME key : K F Reply) fun _ => True :=
  (disciplined_wall_expiry hlook).bind fun _ _ => .pure trivial

theorem disciplined_PEXPIRETIME (hlook : d.permits (.look key)) : Disciplined d S (PEXPIRETIME key : K F Reply) fun _ => True :=
  (disciplined_wall_expiry hlook).bind fun _ _ => .pure trivial

theorem disciplined_TTL (hlook : d.permits (.look key)) : Disciplined d S (TTL key : K F Reply) fun _ => True :=
  (disciplined_ttl hlook).bind fun _ _ => .pure trivial

theorem disciplined_PTTL (hlook : d.permits (.look key)) : Disciplined d S (PTTL key : K F Reply) fun _ => True :=
  (disciplined_ttl_ms hlook).bind fun _ _ => .pure trivial

/-! ## The keyspace -/

/-- KEYS scans the keyspace. -/
theorem disciplined_KEYS (hscan : d.permits .scan) (pattern : Value) :
    Disciplined d S (KEYS pattern : K F Reply) fun _ => True := by
  refine (of_computes (computes_compile_glob pattern)).bind ?_
  intro rgx _
  refine (disciplined_keys hscan).bind ?_
  intro keys _
  exact .bind (built_filterM fun key _ => of_computes (computes_matches rgx key)) fun _ _ => .pure trivial

/-- The options of SCAN are read from the arguments. -/
theorem computes_scanOptions (pattern : Option Value) (type_filter : Option Text) (options : List Value) :
    Computes (scanOptions pattern type_filter options : K F _) fun _ => True := by
  intro S
  fun_induction scanOptions (F := F) pattern type_filter options with
  | case1 => exact .pure trivial
  | case2 pattern type_filter opt => exact (computes_upperArg opt).bind fun _ _ => .raise _
  | case3 pattern type_filter opt value rest ih ih' ih'' =>
    refine (computes_upperArg opt).bind ?_
    intro _ _
    refine .ite (fun _ => ih) ?_
    intro _
    refine .ite (fun _ => ?_) fun _ => .ite (fun _ => ?_) fun _ => .raise _
    · exact (computes_scanCount value).bind fun _ _ => ih'
    · exact (computes_asBytes value).bind fun _ _ => ih'' _

/-- The TYPE option of SCAN looks at each key. -/
theorem disciplined_typeMatches (hlook : d.permits (.look key)) (type_filter : Option Text) :
    Disciplined d S (typeMatches type_filter key : K F Bool) fun _ => True := by
  cases type_filter with
  | none => exact .pure trivial
  | some name =>
    have htype : (typeMatches (some name) key : K F Bool) = data_get key >>= fun o => pure (o.elim false fun obj =>
        decide ((kind_of obj).map (fun k => (TYPE_NAMES k).text) = some name)) := by
      unfold typeMatches
      refine congrArg (data_get key >>= ·) (funext fun o => ?_)
      cases o <;> rfl
    rw [htype]
    exact (looks_get_blind hlook (fun _ _ => rfl) fun _ _ => .pure trivial).built

/-- SCAN scans the keyspace and looks at what it found. -/
theorem disciplined_SCAN (hscan : d.permits .scan) (cursor : Value) (options : List Value) :
    Disciplined d S (SCAN cursor options : K F Reply) fun _ => True := by
  refine (of_computes (computes_parse_scan_cursor cursor)).bind ?_
  intro _ _
  refine .ite (fun _ => .pure trivial) ?_
  intro _
  refine (of_computes (computes_scanOptions none none options)).bind ?_
  intro o _
  refine (of_computes (computes_compilePattern o.1)).bind ?_
  intro rgx _
  refine (disciplined_keys hscan).bind ?_
  intro keys _
  refine .bind (built_filterM fun key _ => ?_) fun _ _ => .pure trivial
  refine (of_computes (computes_patternMatches rgx key)).bind ?_
  intro _ _
  refine .ite (fun _ => ?_) fun _ => .pure trivial
  exact disciplined_typeMatches (d.look_of_scan hscan key) o.2

/-- EXISTS and TOUCH look at their keys. -/
theorem disciplined_countLive (command : Cmd) {keys : List Value} (hlook : ∀ key ∈ keys, d.permits (.look key)) :
    Disciplined d S (countLive command keys : K F Reply) fun _ => True := by
  unfold countLive
  refine built_check fun _ => ?_
  exact .bind (built_filterM fun key hkey => (disciplined_is_live (hlook key hkey)).weaken fun _ _ => trivial) fun _ _ =>
    .pure trivial

/-- DBSIZE scans the keyspace. -/
theorem disciplined_DBSIZE (hscan : d.permits .scan) : Disciplined d S (DBSIZE : K F Reply) fun _ => True :=
  (disciplined_keys hscan).bind fun _ _ => .pure trivial

/-! ## Counters -/

/-- The counter under a key: a missing key counts as 0, another kind of value is an error. -/
def counterValue : Option (Obj F) → Option (Option Bytes)
  | none => some none
  | some (.raw (.bytes val)) => some (some val)
  | some _ => none

/-- The number it stands for. -/
def counterNumber : Option (Option Bytes) → K F Int
  | some none => pure 0
  | some (some val) => counterOf .NOT_INT val
  | none => throw_ .WRONGTYPE

/-- The counter commands in steps: the number, the check, the write. -/
theorem bump_eq (key : Value) (by_ : Int) : (_bump key by_ : K F Reply) = (do
    let current ← (do counterNumber (counterValue (← data_get key)) : K F Int)
    checkCounter (current + by_)
    data_set key (.raw (.bytes (decimal (current + by_)))) none true
    _after_write key .incrby
    return .int (current + by_)) := by
  have hcurrent : ∀ o : Option (Obj F), (match o with
      | none => pure 0
      | some (.raw (.bytes val)) => counterOf .NOT_INT val
      | some _ => throw_ .WRONGTYPE : K F Int) = counterNumber (counterValue o) := by
    intro o
    cases o with
    | none => rfl
    | some obj =>
      cases obj with
      | raw v => cases v <;> rfl
      | _ => rfl
  unfold _bump
  rw [bind_assoc]
  exact congrArg (data_get key >>= ·) (funext fun o => congrArg (· >>= _) (hcurrent o))

/-- A counter is written back under the key it was read from. -/
theorem disciplined_bump (hlook : d.permits (.look key)) (hkey : key.hashable = true → d.permits (.create key)) (by_ : Int) :
    Disciplined d S (_bump key by_ : K F Reply) fun _ => True := by
  have hcounter : Looks d S key (do counterNumber (counterValue (← data_get key)) : K F Int) fun _ => True := by
    refine looks_get_blind hlook (fun _ _ => rfl) ?_
    intro o _
    unfold counterNumber
    split
    · exact .pure trivial
    · exact of_computes (computes_counterOf _ _)
    · exact .raise _
  rw [bump_eq]
  refine hcounter.andThen ?_
  intro current _
  refine (of_computes (computes_checkCounter _)).bind ?_
  intro _ _
  refine (disciplined_data_set hkey (d.obj_bytes _) (d.seen_insert S key) (fun _ => hlook) (.inr (by nofun))).bind ?_
  intro _ hhash
  exact (disciplined_after_write (hkey hhash) .incrby).bind fun _ _ => .pure trivial

/-- Likewise a counter with a fraction. -/
theorem disciplined_INCRBYFLOAT [PyFloat F] (hlook : d.permits (.look key)) (hkey : key.hashable = true → d.permits (.create key))
    (increment : Value) : Disciplined d S (INCRBYFLOAT key increment : K F Reply) fun _ => True := by
  refine (looks_string hlook).andThen ?_
  intro val _
  refine .bind (Q := fun _ => True) ?_ fun current _ => (of_computes (computes_floatArg _ _)).bind fun incr _ => ?_
  · cases val with
    | none => exact .pure trivial
    | some val => exact of_computes (computes_floatArg _ _)
  refine built_check fun _ => ?_
  refine (disciplined_data_set hkey (d.obj_bytes _) (d.seen_insert S key) (fun _ => hlook) (.inr (by nofun))).bind ?_
  intro _ hhash
  exact (disciplined_after_write (hkey hhash) .incrbyfloat).bind fun _ _ => .pure trivial

/-! ## Ranges -/

/-- A range is cut from the string. -/
theorem disciplined_getrange (hlook : d.permits (.look key)) (start stop : Int) :
    Disciplined d S (_getrange key start stop : K F Reply) fun _ => True := by
  refine (looks_string hlook).andThen ?_
  intro o _
  cases o <;> exact .pure trivial

/-- SETRANGE writes back the string it changed. -/
theorem disciplined_SETRANGE (hlook : d.permits (.look key)) (hkey : key.hashable = true → d.permits (.create key)) (offset : Int)
    (value : Value) : Disciplined d S (SETRANGE key offset value : K F Reply) fun _ => True := by
  unfold SETRANGE
  refine built_check fun _ => ?_
  refine (looks_string hlook).andThen ?_
  intro val _
  refine (of_computes (computes_pyLen value)).bind ?_
  intro _ _
  refine built_check fun _ => ?_
  refine (of_computes (computes_asBytes value)).bind ?_
  intro b _
  refine (disciplined_data_set hkey (d.obj_bytes _) (d.seen_insert S key) (fun _ => hlook) (.inr (by nofun))).bind ?_
  intro _ hhash
  exact (disciplined_after_write (hkey hhash) .setrange).bind fun _ _ => .pure trivial

/-- APPEND writes back the string it lengthened. -/
theorem disciplined_APPEND (hlook : d.permits (.look key)) (hkey : key.hashable = true → d.permits (.create key)) (val : Value) :
    Disciplined d S (APPEND key val : K F Reply) fun _ => True := by
  refine (looks_string hlook).andThen ?_
  intro current _
  refine (of_computes (computes_asBytes val)).bind ?_
  intro b _
  refine built_check fun _ => ?_
  refine (disciplined_data_set hkey (d.obj_bytes _) (d.seen_insert S key) (fun _ => hlook) (.inr (by nofun))).bind ?_
  intro _ hhash
  exact (disciplined_after_write (hkey hhash) .append).bind fun _ _ => .pure trivial

theorem disciplined_STRLEN (hlook : d.permits (.look key)) : Disciplined d S (STRLEN key : K F Reply) fun _ => True :=
  (looks_string hlook).andThen fun _ _ => .pure trivial

/-! ## LCS -/

/-- One option of LCS. -/
theorem lcsOptions_cons (o : LcsOptions) (opt : Value) (rest : List Value) : (lcsOptions o (opt :: rest) : K F LcsOptions) = (do
    let opt ← upperArg opt
    if opt = bs "LEN" then lcsOptions { o with len_only := true } rest
    else if opt = bs "IDX" then lcsOptions { o with idx := true } rest
    else if opt = bs "MINMATCHLEN" then
      match rest with
      | [] => throw_ .SYNTAX
      | value :: rest =>
        let n ← orThrow .NOT_INT (toLL value)
        lcsOptions { o with min_match_len := max n 1 } rest
    else if opt = bs "WITHMATCHLEN" then lcsOptions { o with with_match_len := true } rest
    else throw_ .SYNTAX) := by
  delta lcsOptions
  cases rest <;> rfl

/-- The options of LCS are read from the arguments. -/
theorem computes_lcsOptions (o : LcsOptions) (options : List Value) : Computes (lcsOptions o options : K F _) fun _ => True := by
  intro S
  suffices h : (∀ o, Built Asking S (lcsOptions o options : K F _) fun _ => True) ∧
      ∀ value rest, options = value :: rest → ∀ o, Built Asking S (lcsOptions o rest : K F _) fun _ => True from h.1 o
  induction options with
  | nil => exact ⟨fun _ => .pure trivial, nofun⟩
  | cons opt rest ih =>
    refine ⟨fun o => ?_, fun _ _ e => (List.cons.inj e).2 ▸ ih.1⟩
    rw [lcsOptions_cons]
    refine (computes_upperArg opt).bind ?_
    intro _ _
    refine .ite (fun _ => ih.1 _) ?_
    intro _
    refine .ite (fun _ => ih.1 _) ?_
    intro _
    refine .ite (fun _ => ?_) fun _ => .ite (fun _ => ih.1 _) fun _ => .raise _
    split
    · exact .raise _
    · exact (computes_orThrow _ _).bind fun _ _ => ih.2 _ _ rfl _

/-- LCS looks at a key for its kind. -/
theorem disciplined_lcsCheck (hlook : d.permits (.look key)) : Disciplined d S (lcsCheck key : K F Unit) fun _ => True := by
  let g := fun (wrong : Bool) => (if wrong then throw_ .WRONGTYPE_STRING else pure () : K F Unit)
  have hcheck : (lcsCheck key : K F Unit) = data_get key >>= fun o => g
      (o.any fun obj => decide (kind_of obj ≠ some .string)) := by
    unfold lcsCheck
    refine congrArg (data_get key >>= ·) (funext fun o => ?_)
    cases o with
    | none => rfl
    | some obj =>
      simp only [g, Option.any_some, decide_eq_true_eq]
  rw [hcheck]
  refine (looks_get_blind (g := g) hlook (fun _ _ => rfl) fun _ _ => ?_).built
  exact .ite (fun _ => .raise _) fun _ => .pure trivial

/-- LCS looks at two keys. -/
theorem disciplined_LCS {key1 key2 : Value} (hlook1 : d.permits (.look key1)) (hlook2 : d.permits (.look key2))
    (options : List Value) : Disciplined d S (LCS key1 key2 options : K F Reply) fun _ => True := by
  refine (disciplined_lcsCheck hlook1).bind ?_
  intro _ _
  refine (disciplined_lcsCheck hlook2).bind ?_
  intro _ _
  refine (of_computes (computes_lcsOptions _ options)).bind ?_
  intro o _
  refine built_check fun _ => ?_
  refine (looks_string hlook1).built.bind ?_
  intro a _
  refine (looks_string hlook2).built.bind ?_
  intro b _
  refine .ite (fun _ => .pure trivial) ?_
  intro _
  exact .ite (fun _ => .pure trivial) fun _ => .pure trivial

end Kagni
