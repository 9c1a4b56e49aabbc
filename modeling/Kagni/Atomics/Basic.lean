import Kagni.Footprints.Basic
import Kagni.Lemmas.Atomic

/-!
# Strings, expiry and the keyspace, as a whole or not at all

Every command of `commands/basic.py` checks before it writes. The counters and the commands that change a part of a string
keep the deadline, and so does SET with KEEPTTL.
-/

namespace Kagni

open Lib Lib.Prog

variable {F : Type}

/-- Whether KEEPTTL is among the options of SET: an option with a value takes the next argument. -/
def setKeeps : List Value → Bool
  | [] => false
  | [opt] => opt.names (bs "KEEPTTL")
  | opt :: raw :: rest =>
    if opt.names (bs "KEEPTTL") then true
    else if opt.names (bs "EX") || opt.names (bs "PX") || opt.names (bs "EXAT") || opt.names (bs "PXAT") then setKeeps rest
    else setKeeps (raw :: rest)

/-- What the option loop of SET finds out about deadlines. -/
def ParsedTtl (o : ExtendedOptions) (options : List Value) (o' : ExtendedOptions) : Prop :=
  (o'.keepttl = (o.keepttl || setKeeps options)) ∧ ((o.keepttl = true → o.ttl = none) → o'.keepttl = true → o'.ttl = none)

/-- An option has one name. -/
theorem Value.names_ne {v : Value} {name other : Bytes} (h : v.names name = true) (hne : name ≠ other) :
    v.names other = false := by
  cases v with
  | bytes b =>
    have hb : upper b = name := of_decide_eq_true h
    exact decide_eq_false (hb ▸ hne)
  | _ => rfl

/-- An option that is no unit and not KEEPTTL is passed over. -/
theorem ParsedTtl.skip {o o₁ o' : ExtendedOptions} {opt : Value} {rest : List Value} (h : ParsedTtl o₁ rest o')
    (hkeep : o₁.keepttl = o.keepttl) (httl : o₁.ttl = o.ttl) {name : Bytes} (hopt : opt.names name = true)
    (hname : name ≠ bs "KEEPTTL" ∧ name ≠ bs "EX" ∧ name ≠ bs "PX" ∧ name ≠ bs "EXAT" ∧ name ≠ bs "PXAT") :
    ParsedTtl o (opt :: rest) o' := by
  obtain ⟨h1, h2, h3, h4, h5⟩ := hname
  have hkeeps : setKeeps (opt :: rest) = setKeeps rest := by
    cases rest with
    | nil => exact Value.names_ne hopt h1
    | cons raw rest =>
      rw [setKeeps, if_neg (by rw [Value.names_ne hopt h1]; decide), Value.names_ne hopt h2, Value.names_ne hopt h3,
        Value.names_ne hopt h4,
        Value.names_ne hopt h5]
      rfl
  refine ⟨?_, fun hold hnew => h.2 (fun hk => ?_) hnew⟩
  · rw [h.1, hkeep, hkeeps]
  · rw [httl]
    exact hold (hkeep ▸ hk)

/-- What the option loop of SET finds out is what the options say. -/
theorem computes_parse_ttl (o : ExtendedOptions) (options : List Value) :
    Computes (_parse_extended_options true o options : K F _) (ParsedTtl o options) := by
  intro S
  suffices h : (∀ o, Built Asking S (_parse_extended_options true o options : K F _) (ParsedTtl o options)) ∧
      ∀ raw rest, options = raw :: rest → ∀ o, Built Asking S (_parse_extended_options true o rest : K F _)
        (ParsedTtl o rest) from h.1 o
  induction options with
  | nil => exact ⟨fun o => .pure ⟨(Bool.or_false _).symm, fun h => h⟩, nofun⟩
  | cons opt rest ih =>
    refine ⟨fun o => ?_, fun _ _ e => (List.cons.inj e).2 ▸ ih.1⟩
    rw [parse_extended_options_cons]
    refine (computes_upperArg opt).bind ?_
    intro u hu
    have hskip : ∀ o₁ : ExtendedOptions, o₁.keepttl = o.keepttl → o₁.ttl = o.ttl →
        (u ≠ bs "KEEPTTL" ∧ u ≠ bs "EX" ∧ u ≠ bs "PX" ∧ u ≠ bs "EXAT" ∧ u ≠ bs "PXAT") →
        Built Asking S (_parse_extended_options true o₁ rest : K F _) (ParsedTtl o (opt :: rest)) :=
      fun o₁ hkeep httl hname => (ih.1 o₁).weaken fun o' h => h.skip hkeep httl ((hu u).1 rfl) hname
    refine .ite (fun h => hskip _ rfl rfl (by rw [h.1]; decide)) fun _ => .ite
      (fun h => hskip _ rfl rfl (by rw [h.1]; decide)) fun _ => ?_
    refine .ite (fun h => hskip _ rfl rfl (by rw [h.1]; decide)) fun _ => ?_
    refine .ite (fun h => (ih.1 _).weaken fun o' h' => ?_) fun hkeep => ?_
    · -- KEEPTTL: no unit has been named
      have hkeeps : setKeeps (opt :: rest) = true := by
        have hnames := (hu (bs "KEEPTTL")).1 h.1
        cases rest with
        | nil => exact hnames
        | cons raw rest => rw [setKeeps, if_pos hnames]
      refine ⟨?_, fun _ => h'.2 fun _ => Option.isNone_iff_eq_none.1 h.2.2.2⟩
      rw [h'.1, hkeeps, Bool.or_true]
      rfl
    refine .ite (fun h => absurd h.2.1 (by decide)) fun _ => ?_
    split
    · -- a unit and its value
      rename_i unit raw rest hunit
      refine .ite (fun hc => (ih.2 raw rest rfl _).weaken fun o' h' => ?_) fun _ => .raise _
      have hopt := (hu unit.name).1 (TtlUnit.ofName_eq_some hunit)
      have hno : opt.names (bs "KEEPTTL") = false := Value.names_ne hopt (by cases unit <;> decide)
      have hkeeps : setKeeps (opt :: raw :: rest) = setKeeps rest := by
        rw [setKeeps, hno, if_neg (by decide), if_pos]
        cases unit with
        | EX => simp [show opt.names (bs "EX") = true from hopt]
        | PX => simp [show opt.names (bs "PX") = true from hopt]
        | EXAT => simp [show opt.names (bs "EXAT") = true from hopt]
        | PXAT => simp [show opt.names (bs "PXAT") = true from hopt]
      refine ⟨?_, fun _ => h'.2 fun hk => ?_⟩
      · rw [h'.1, hkeeps]
      · have hnot : o.keepttl = false := by simpa using hc.1
        rw [show o.keepttl = true from hk] at hnot
        cases hnot
    · exact .raise _

/-- A deadline is read before anything is written. -/
theorem computes_expire_wall_deadline (command : Cmd) (unit : TtlUnit) (raw : Value) :
    Computes (_expire_wall_deadline command unit raw : K F Int) fun _ => True := by
  refine (computes_orThrow _ _).bind ?_
  intro _ _
  refine built_check fun _ => built_check fun _ => ?_
  exact computes_clock.bind fun _ _ => .pure trivial

namespace Watch

variable [PyFloat F] {w : Watch F} {key : Value}

/-- A string is in order, like everything but a sorted set. -/
theorem inOrder_raw (v : Value) : w.calm → (Obj.raw v : Obj F).InOrder := fun _ => trivial

/-! ## Connection commands and the keyspace -/

theorem reads_PING (message : Option Value) : w.Reads (PING message) fun _ => True := by
  unfold PING
  split
  all_goals exact .pure trivial

theorem reads_TYPE (key : Value) : w.Reads (TYPE key) fun _ => True := by
  refine (reads_get key).bind ?_
  intro o _
  cases o with
  | none => exact .pure trivial
  | some obj => exact .pure trivial

theorem reads_HELLO (args : List Value) : w.Reads (HELLO args) fun _ => True := by
  refine (reads_of_computes (computes_helloArgs 2 args)).bind ?_
  intro _ _
  exact .check fun _ => .pure trivial

/-- INFO only purges what has expired. -/
theorem reads_INFO (sections : List Value) : w.Reads (INFO sections) fun _ => True := by
  refine (reads_of_computes (computes_infoSections _ _)).bind ?_
  intro wanted _
  refine Reads.bind (Q := fun _ => True) (fun k hk => ⟨hk, trivial⟩) ?_
  intro ctx _
  refine Reads.bind (Q := fun _ => True) (.ite (fun _ => ?_) fun _ => .pure trivial) fun _ _ => .pure trivial
  exact Reads.bind (Q := fun _ => True) (reads_keyspace_stats.bind fun _ _ => .pure trivial) fun _ _ => .pure trivial

/-- KEYS only purges what has expired. -/
theorem reads_KEYS (pattern : Value) : w.Reads (KEYS pattern) fun _ => True := by
  refine (reads_of_computes (computes_compile_glob pattern)).bind ?_
  intro rgx _
  refine reads_keys.bind ?_
  intro keys _
  exact (reads_filterM fun key _ => reads_of_computes (computes_matches rgx key)).bind fun _ _ => .pure trivial

/-- The TYPE option of SCAN writes nothing. -/
theorem reads_typeMatches (type_filter : Option Text) (key : Value) : w.Reads (typeMatches type_filter key) fun _ => True := by
  cases type_filter with
  | none => exact .pure trivial
  | some name =>
    refine (reads_get key).bind ?_
    intro o _
    cases o with
    | none => exact .pure trivial
    | some obj => exact .pure trivial

/-- SCAN only purges what has expired. -/
theorem reads_SCAN (cursor : Value) (options : List Value) : w.Reads (SCAN cursor options) fun _ => True := by
  refine (reads_of_computes (computes_parse_scan_cursor cursor)).bind ?_
  intro _ _
  refine .ite (fun _ => .pure trivial) ?_
  intro _
  refine (reads_of_computes (computes_scanOptions none none options)).bind ?_
  intro o _
  refine (reads_of_computes (computes_compilePattern o.1)).bind ?_
  intro rgx _
  refine reads_keys.bind ?_
  intro keys _
  refine (reads_filterM fun key _ => ?_).bind fun _ _ => .pure trivial
  refine (reads_of_computes (computes_patternMatches rgx key)).bind ?_
  intro _ _
  exact .ite (fun _ => reads_typeMatches _ key) fun _ => .pure trivial

/-- EXISTS and TOUCH write nothing. -/
theorem reads_countLive (command : Cmd) (keys : List Value) : w.Reads (countLive command keys) fun _ => True := by
  unfold countLive
  refine .check fun _ => (reads_filterM fun key _ => ?_).bind fun _ _ => .pure trivial
  exact (reads_is_live key).weaken fun _ _ => trivial

/-- DBSIZE only purges what has expired. -/
theorem reads_DBSIZE : w.Reads DBSIZE fun _ => True := reads_keys.bind fun _ _ => .pure trivial

/-! ## Strings -/

/-- An old value, or nil, can be sent. -/
theorem encodes_bytesOrNil (old : Option Bytes) : (bytesOrNil old).Encodes := by
  cases old with
  | none => rfl
  | some b => rfl

/-- SET is refused before it writes, by its options, the kind it wants to return or the size. -/
theorem atomic_SET {val : Value} {options : List Value} (hkey : w.calm → key.IsBytes)
    (hfree : setKeeps options = true ∨ key ∈ w.free) :
    w.Atomic (SET key val options) w.Answers := by
  refine (reads_of_computes (computes_parse_ttl .none options)).andThen ?_
  intro o ho
  refine Reads.andThen (Q := fun deadline => o.ttl = none → deadline = none) ?_ fun deadline hdeadline => ?_
  · cases o.ttl with
    | none => exact .pure fun _ => rfl
    | some ttl => exact (reads_of_computes (computes_expire_wall_deadline .SET ttl.1 ttl.2)).bind fun _ _ => .pure nofun
  refine Reads.andThen (Q := fun _ => True)
    (.ite (fun _ => (reads_string key).weaken fun _ _ => trivial) fun _ => .pure trivial) ?_
  intro old _
  refine (reads_is_live key).andThen ?_
  intro found _
  refine .ite (fun _ => .pure fun _ => encodes_bytesOrNil old) ?_
  intro _
  refine (reads_of_computes (computes_checkSize val)).andThen ?_
  intro _ _
  have hwrite : w.Atomic (data_set key (.raw val) deadline o.keepttl) fun _ => True := by
    rcases hfree with hkeeps | hfree
    · have hkeep : o.keepttl = true := by
        rw [ho.1, hkeeps]
        rfl
      rw [hkeep, hdeadline (ho.2 (fun _ => rfl) hkeep)]
      exact atomic_data_set (inOrder_raw val)
    · exact (commits_data_set hkey hfree (inOrder_raw val)).atomic
  have hreply : ((old.map Reply.bytes).getD (if o.get then .NIL else .OK)).Encodes := by
    cases old with
    | none => cases o.get <;> rfl
    | some b => rfl
  refine hwrite.andThen ?_
  intro _ _
  refine (commits_after_write hkey .set).bind ?_
  intro _ _
  refine .ite (fun _ => ?_) fun _ => .pure fun _ => hreply
  exact (commits_notify hkey .expire).bind fun _ _ => .pure fun _ => hreply

/-- SETNX checks the size and the key first. -/
theorem atomic_SETNX (val : Value) (hkey : w.calm → key.IsBytes) (hfree : key ∈ w.free) : w.Atomic (SETNX key val) w.Answers := by
  refine (reads_is_live key).andThen ?_
  intro found _
  refine .ite (fun _ => .pure fun _ => rfl) ?_
  intro _
  refine (reads_of_computes (computes_checkSize val)).andThen ?_
  intro _ _
  refine (commits_data_set hkey hfree (inOrder_raw val)).atomic.andThen ?_
  intro _ _
  exact (commits_after_write hkey .set).bind fun _ _ => .pure fun _ => rfl

/-- SETEX and PSETEX check the time first. -/
theorem atomic_setWithTtl (command : Cmd) (unit : TtlUnit) (n : Int) (val : Value) (hkey : w.calm → key.IsBytes)
    (hfree : key ∈ w.free) :
    w.Atomic (setWithTtl command unit key n val) w.Answers := by
  refine (reads_of_computes (computes_expire_wall_deadline command unit _)).andThen ?_
  intro _ _
  refine (commits_data_set hkey hfree (inOrder_raw val)).atomic.andThen ?_
  intro _ _
  refine (commits_after_write hkey .set).bind ?_
  intro _ _
  exact (commits_notify hkey .expire).bind fun _ _ => .pure fun _ => rfl

/-- GET writes nothing. -/
theorem reads_GET (key : Value) : w.Reads (GET key) fun _ => True := (reads_string key).bind fun _ _ => .pure trivial

/-- GETDEL checks the kind first. -/
theorem atomic_GETDEL (hkey : w.calm → key.IsBytes) : w.Atomic (GETDEL key) w.Answers := by
  refine (reads_string key).andThen ?_
  intro o _
  cases o with
  | none => exact .pure fun _ => rfl
  | some val =>
    refine Commits.atomic ?_
    refine (commits_remove hkey).bind ?_
    intro _ _
    exact (commits_after_write hkey .del).bind fun _ _ => .pure fun _ => rfl

/-- GETEX reads its options and the string first. -/
theorem atomic_GETEX (options : List Value) (hkey : w.calm → key.IsBytes) (hfree : key ∈ w.free) :
    w.Atomic (GETEX key options) w.Answers := by
  refine (reads_of_computes (computes_parse_extended_options false .none options)).andThen ?_
  intro o _
  refine (reads_string key).andThen ?_
  intro old _
  cases old with
  | none => exact .pure fun _ => rfl
  | some val =>
    refine .ite (fun _ => ?_) fun _ => ?_
    · refine Commits.atomic ?_
      refine (commits_persist hkey hfree).bind ?_
      intro _ _
      exact (commits_after_write hkey .persist).bind fun _ _ => .pure fun _ => rfl
    cases o.ttl with
    | none => exact .pure fun _ => rfl
    | some ttl =>
      refine (reads_of_computes (computes_expire_wall_deadline .GETEX ttl.1 ttl.2)).andThen ?_
      intro deadline _
      refine (reads_of_computes computes_clock).andThen ?_
      intro now _
      refine .ite (fun _ => ?_) fun _ => ?_
      · refine Commits.atomic ?_
        refine (commits_remove hkey).bind ?_
        intro _ _
        exact (commits_after_write hkey .del).bind fun _ _ => .pure fun _ => rfl
      · refine Commits.atomic ?_
        refine (commits_data_set hkey hfree (inOrder_raw _)).bind ?_
        intro _ _
        exact (commits_after_write hkey .expire).bind fun _ _ => .pure fun _ => rfl

/-- GETSET checks the size and the kind first. -/
theorem atomic_GETSET (val : Value) (hkey : w.calm → key.IsBytes) (hfree : key ∈ w.free) :
    w.Atomic (GETSET key val) w.Answers := by
  refine (reads_string key).andThen ?_
  intro old _
  refine (reads_of_computes (computes_checkSize val)).andThen ?_
  intro _ _
  refine (commits_setitem hkey (.inl hfree) (inOrder_raw val)).atomic.andThen ?_
  intro _ _
  exact (commits_after_write hkey .set).bind fun _ _ => .pure fun _ => encodes_bytesOrNil old

theorem reads_MGET (keys : List Value) : w.Reads (MGET keys) fun _ => True := by
  unfold MGET
  refine .check fun _ => (reads_mapM (Q := fun _ => True) fun key _ => ?_).bind fun _ _ => .pure trivial
  exact (reads_string key).bind fun _ _ => .pure trivial

/-- The pairs are stored in turn, and none is refused under a byte string. -/
theorem atomic_storeAll {pairs : List (Value × Value)} (hkeys : w.calm → ∀ p ∈ pairs, p.1.IsBytes)
    (hfree : ∀ p ∈ pairs, p.1 ∈ w.free) :
    w.Atomic (storeAll pairs) fun _ => True := by
  refine (Reads.each fun p _ => (reads_of_computes (computes_checkSize p.2)).weaken fun _ _ => trivial).andThen ?_
  intro _ _
  refine (Commits.each fun p hp => ?_).atomic.andThen fun _ _ => Commits.each fun p hp => ?_
  · exact commits_setitem (fun hc => hkeys hc p hp) (.inl (hfree p hp)) (inOrder_raw p.2)
  · exact commits_after_write (fun hc => hkeys hc p hp) .set

/-- MSET checks all its pairs first. -/
theorem atomic_MSET {args : List Value} (hkeys : w.calm → ∀ p ∈ pairsOf args, p.1.IsBytes)
    (hfree : ∀ p ∈ pairsOf args, p.1 ∈ w.free) :
    w.Atomic (MSET args) w.Answers := by
  unfold MSET
  exact .check fun _ => (atomic_storeAll hkeys hfree).andThen fun _ _ => .pure fun _ => rfl

/-- The keys are only looked at. -/
theorem reads_anyLive (keys : List Value) : w.Reads (anyLive keys) fun _ => True := by
  induction keys with
  | nil => exact .pure trivial
  | cons key keys ih =>
    refine (reads_is_live key).bind ?_
    intro _ _
    exact .ite (fun _ => .pure trivial) fun _ => ih

/-- MSETNX checks all its pairs and keys first. -/
theorem atomic_MSETNX {args : List Value} (hkeys : w.calm → ∀ p ∈ pairsOf args, p.1.IsBytes)
    (hfree : ∀ p ∈ pairsOf args, p.1 ∈ w.free) :
    w.Atomic (MSETNX args) w.Answers := by
  unfold MSETNX
  refine .check fun _ => ?_
  refine (reads_anyLive _).andThen ?_
  intro _ _
  refine .ite (fun _ => .pure fun _ => rfl) ?_
  intro _
  exact (atomic_storeAll hkeys hfree).andThen fun _ _ => .pure fun _ => rfl

/-- DEL fails at no key that is a byte string. -/
theorem atomic_DEL {keys : List Value} (hkeys : w.calm → ∀ key ∈ keys, key.IsBytes) : w.Atomic (DEL keys) w.Answers := by
  unfold DEL
  refine .check fun _ => ((Commits.fold fun removed key hk => ?_).bind fun _ _ => .pure fun _ => rfl).atomic
  refine (commits_remove fun hc => hkeys hc key hk).bind ?_
  intro _ _
  refine .ite (fun _ => ?_) fun _ => .pure trivial
  exact (commits_after_write (fun hc => hkeys hc key hk) .del).bind fun _ _ => .pure trivial

/-! ## Expiry -/

/-- EXPIRE and its relatives write the deadline and then tell. -/
theorem atomic_expireWith {set_expiry : K F Bool} (hkey : w.calm → key.IsBytes) (h : w.Commits set_expiry fun _ => True) :
    w.Atomic (expireWith key set_expiry) w.Answers := by
  refine (reads_is_live key).andThen ?_
  intro live_before _
  refine h.atomic.andThen ?_
  intro result _
  refine Commits.bind (Q := fun _ => True) (.ite (fun _ => ?_) fun _ => .pure trivial) fun _ _ => .pure fun _ => rfl
  refine Commits.bind (Q := fun _ => True) (.ite (fun _ => commits_is_live hkey) fun _ => .pure trivial) ?_
  intro live _
  exact commits_after_write hkey _

/-- EXPIRE: a deadline from seconds. -/
theorem atomic_EXPIRE (secs : Int) (hkey : w.calm → key.IsBytes) (hfree : key ∈ w.free) : w.Atomic (EXPIRE key secs) w.Answers :=
  atomic_expireWith hkey (commits_expire hkey hfree secs)

/-- PEXPIRE: a deadline from milliseconds. -/
theorem atomic_PEXPIRE (ms : Int) (hkey : w.calm → key.IsBytes) (hfree : key ∈ w.free) : w.Atomic (PEXPIRE key ms) w.Answers :=
  atomic_expireWith hkey (commits_clock.bind fun _ _ => commits_expire_at hkey hfree _)

/-- EXPIREAT: a deadline of the wall clock in seconds. -/
theorem atomic_EXPIREAT (ts : Int) (hkey : w.calm → key.IsBytes) (hfree : key ∈ w.free) : w.Atomic (EXPIREAT key ts) w.Answers :=
  atomic_expireWith hkey (commits_expire_at hkey hfree _)

/-- PEXPIREAT: a deadline of the wall clock in milliseconds. -/
theorem atomic_PEXPIREAT (ts : Int) (hkey : w.calm → key.IsBytes) (hfree : key ∈ w.free) :
    w.Atomic (PEXPIREAT key ts) w.Answers :=
  atomic_expireWith hkey (commits_expire_at hkey hfree _)

/-- PERSIST drops the deadline and then tells. -/
theorem atomic_PERSIST (hkey : w.calm → key.IsBytes) (hfree : key ∈ w.free) : w.Atomic (PERSIST key) w.Answers := by
  refine (commits_persist hkey hfree).atomic.andThen ?_
  intro _ _
  refine .ite (fun _ => ?_) fun _ => .pure fun _ => rfl
  exact (commits_after_write hkey .persist).bind fun _ _ => .pure fun _ => rfl

theorem reads_EXPIRETIME (key : Value) : w.Reads (EXPIRETIME key) fun _ => True :=
  (reads_wall_expiry key).bind fun _ _ => .pure trivial

theorem reads_PEXPIRETIME (key : Value) : w.Reads (PEXPIRETIME key) fun _ => True :=
  (reads_wall_expiry key).bind fun _ _ => .pure trivial

/-- TTL writes nothing. -/
theorem reads_TTL (key : Value) : w.Reads (TTL key) fun _ => True := (reads_ttl key).bind fun _ _ => .pure trivial

theorem reads_PTTL (key : Value) : w.Reads (PTTL key) fun _ => True := (reads_ttl_ms key).bind fun _ _ => .pure trivial

/-! ## Counters and parts of strings -/

/-- A new value is stored with the deadline that is there, and announced. -/
theorem atomic_replace {value : Value} (hkey : w.calm → key.IsBytes) (event : Event) {reply : Reply} (hreply : reply.Encodes) :
    w.Atomic (do
      data_set key (.raw value) none true
      _after_write key event
      return reply) w.Answers := by
  refine (atomic_data_set (inOrder_raw value)).andThen ?_
  intro _ _
  exact (commits_after_write hkey event).bind fun _ _ => .pure fun _ => hreply

/-- A counter is read, added to and checked before it is written. -/
theorem atomic_bump (by_ : Int) (hkey : w.calm → key.IsBytes) : w.Atomic (_bump key by_) w.Answers := by
  refine (reads_get key).andThen ?_
  intro o _
  refine Reads.andThen (Q := fun _ => True) ?_ fun current _ => ?_
  · split
    · exact .pure trivial
    · exact reads_of_computes (computes_counterOf _ _)
    · exact .raise
  · exact (reads_of_computes (computes_checkCounter _)).andThen fun _ _ => atomic_replace hkey _ rfl

/-- Likewise a counter with a fraction. -/
theorem atomic_INCRBYFLOAT (increment : Value) (hkey : w.calm → key.IsBytes) :
    w.Atomic (INCRBYFLOAT key increment) w.Answers := by
  refine (reads_string key).andThen ?_
  intro val _
  refine Reads.andThen (Q := fun _ => True) ?_ fun current _ => ?_
  · cases val with
    | none => exact .pure trivial
    | some val => exact reads_of_computes (computes_floatArg _ _)
  · refine (reads_of_computes (computes_floatArg _ increment)).andThen ?_
    intro _ _
    exact .check fun _ => atomic_replace hkey _ rfl

/-- SETRANGE checks its offset, the kind and the size first. -/
theorem atomic_SETRANGE (offset : Int) (value : Value) (hkey : w.calm → key.IsBytes) :
    w.Atomic (SETRANGE key offset value) w.Answers := by
  unfold SETRANGE
  refine .check fun _ => ?_
  refine (reads_string key).andThen ?_
  intro _ _
  refine (reads_of_computes (computes_pyLen value)).andThen ?_
  intro _ _
  refine .check fun _ => ?_
  exact (reads_of_computes (computes_asBytes value)).andThen fun _ _ => atomic_replace hkey _ rfl

/-- APPEND checks the kind and the size first. -/
theorem atomic_APPEND (val : Value) (hkey : w.calm → key.IsBytes) : w.Atomic (APPEND key val) w.Answers := by
  refine (reads_string key).andThen ?_
  intro _ _
  refine (reads_of_computes (computes_asBytes val)).andThen ?_
  intro _ _
  refine .check fun _ => ?_
  exact atomic_replace hkey _ rfl

/-- A range of a string is only read. -/
theorem reads_getrange (key : Value) (start stop : Int) : w.Reads (_getrange key start stop) fun _ => True := by
  refine (reads_string key).bind ?_
  intro o _
  cases o with
  | none => exact .pure trivial
  | some val => exact .pure trivial

theorem reads_STRLEN (key : Value) : w.Reads (STRLEN key) fun _ => True := (reads_string key).bind fun _ _ => .pure trivial

/-- LCS only looks at the kinds of its keys. -/
theorem reads_lcsCheck (key : Value) : w.Reads (lcsCheck key) fun _ => True := by
  refine (reads_get key).bind ?_
  intro o _
  cases o with
  | none => exact .pure trivial
  | some obj => exact .ite (fun _ => .raise) fun _ => .pure trivial

/-- LCS writes nothing. -/
theorem reads_LCS (key1 key2 : Value) (options : List Value) : w.Reads (LCS key1 key2 options) fun _ => True := by
  refine (reads_lcsCheck key1).bind ?_
  intro _ _
  refine (reads_lcsCheck key2).bind ?_
  intro _ _
  refine (reads_of_computes (computes_lcsOptions _ options)).bind ?_
  intro o _
  refine .check fun _ => ?_
  refine (reads_string key1).bind ?_
  intro _ _
  refine (reads_string key2).bind ?_
  intro _ _
  refine .ite (fun _ => .pure trivial) ?_
  intro _
  exact .ite (fun _ => .pure trivial) fun _ => .pure trivial

end Watch

end Kagni
