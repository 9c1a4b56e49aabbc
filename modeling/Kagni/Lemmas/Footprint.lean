import Kagni.Dispatch
import Kagni.Footprints.Aggregate
import Kagni.Footprints.Bit
import Kagni.Footprints.Hash
import Kagni.Footprints.Lists

/-!
# Every command keeps to its footprint

A keyspace command obeys every discipline that permits the effects in its footprint: by cases on the command, from the rule of
its method.
-/

namespace Kagni

open Lib Lib.Prog

variable {F : Type} {d : Discipline} {S : Set Value}

/-! ## The shapes of a method -/

section Shapes

variable {γ : Type} [LE γ] {leaf : Leaf γ Ctx (KState F) (Exc Errors)} {g : γ} {method : List Value → K F Reply}
  {Q : Reply → Prop}
  {P : List Value → Prop} {args : List Value} {C : K F Reply → Prop}

theorem method_args0 (hraise : ∀ e, C (.raise e)) {f : K F Reply} (hm : Handler.args0 f = .keyspace method) (h : C f) :
    C (method args) := by
  cases hm
  dsimp only
  split
  · exact h
  · exact hraise _

theorem method_args1 (hraise : ∀ e, C (.raise e)) {f : Value → K F Reply} (hm : Handler.args1 f = .keyspace method)
    (hargs : P args)
    (h : ∀ a, P [a] → C (f a)) : C (method args) := by
  cases hm
  dsimp only
  split
  · exact h _ hargs
  · exact hraise _

theorem method_args2 (hraise : ∀ e, C (.raise e)) {f : Value → Value → K F Reply} (hm : Handler.args2 f = .keyspace method)
    (hargs : P args)
    (h : ∀ a b, P [a, b] → C (f a b)) : C (method args) := by
  cases hm
  dsimp only
  split
  · exact h _ _ hargs
  · exact hraise _

theorem method_args3 (hraise : ∀ e, C (.raise e)) {f : Value → Value → Value → K F Reply}
    (hm : Handler.args3 f = .keyspace method) (hargs : P args)
    (h : ∀ a b c, P [a, b, c] → C (f a b c)) : C (method args) := by
  cases hm
  dsimp only
  split
  · exact h _ _ _ hargs
  · exact hraise _

theorem method_args4 (hraise : ∀ e, C (.raise e)) {f : Value → Value → Value → Value → K F Reply}
    (hm : Handler.args4 f = .keyspace method) (hargs : P args)
    (h : ∀ a b c e, P [a, b, c, e] → C (f a b c e)) : C (method args) := by
  cases hm
  dsimp only
  split
  · exact h _ _ _ _ hargs
  · exact hraise _

theorem method_rest1 (hraise : ∀ e, C (.raise e)) {f : Value → List Value → K F Reply}
    (hm : Handler.rest1 f = .keyspace method) (hargs : P args)
    (h : ∀ a rest, P (a :: rest) → C (f a rest)) : C (method args) := by
  cases hm
  dsimp only
  split
  · exact h _ _ hargs
  · exact hraise _

theorem method_rest2 (hraise : ∀ e, C (.raise e)) {f : Value → Value → List Value → K F Reply}
    (hm : Handler.rest2 f = .keyspace method) (hargs : P args)
    (h : ∀ a b rest, P (a :: b :: rest) → C (f a b rest)) : C (method args) := by
  cases hm
  dsimp only
  split
  · exact h _ _ _ hargs
  · exact hraise _

theorem method_rest3 (hraise : ∀ e, C (.raise e)) {f : Value → Value → Value → List Value → K F Reply}
    (hm : Handler.rest3 f = .keyspace method) (hargs : P args)
    (h : ∀ a b c rest, P (a :: b :: c :: rest) → C (f a b c rest)) : C (method args) := by
  cases hm
  dsimp only
  split
  · exact h _ _ _ _ hargs
  · exact hraise _

theorem method_keyCount (hraise : ∀ e, C (.raise e)) {f : Value → Option Int → K F Reply}
    (hm : Handler.keyCount f = .keyspace method)
    (hargs : P args) (hint : ∀ v (g : Option Int → K F Reply), (∀ count, C (g count)) → C (intArg? v >>= g))
    (h : ∀ key rest, P (key :: rest) → ∀ count, C (f key count)) : C (method args) := by
  cases hm
  dsimp only
  split
  · exact h _ _ hargs none
  · exact hint _ _ fun count => h _ _ hargs count
  · exact hraise _

theorem method_keyCountRest (hraise : ∀ e, C (.raise e)) {f : Value → Option Int → List Value → K F Reply}
    (hm : Handler.keyCountRest f = .keyspace method) (hargs : P args)
    (hint : ∀ v (g : Option Int → K F Reply), (∀ count, C (g count)) → C (intArg? v >>= g))
    (h : ∀ key rest, P (key :: rest) → ∀ count options, C (f key count options)) : C (method args) := by
  cases hm
  dsimp only
  split
  · exact h _ _ hargs none []
  · exact hint _ _ fun count => h _ _ hargs count _
  · exact hraise _

theorem built_args0 {f : K F Reply} (hm : Handler.args0 f = .keyspace method) (h : Built leaf g f Q) :
    Built leaf g (method args) Q :=
  method_args0 (C := (Built leaf g · Q)) .raise hm h

theorem built_args1 {f : Value → K F Reply} (hm : Handler.args1 f = .keyspace method) (hargs : P args)
    (h : ∀ a, P [a] → Built leaf g (f a) Q) : Built leaf g (method args) Q :=
  method_args1 (C := (Built leaf g · Q)) .raise hm hargs h

theorem built_args2 {f : Value → Value → K F Reply} (hm : Handler.args2 f = .keyspace method) (hargs : P args)
    (h : ∀ a b, P [a, b] → Built leaf g (f a b) Q) : Built leaf g (method args) Q :=
  method_args2 (C := (Built leaf g · Q)) .raise hm hargs h

theorem built_args3 {f : Value → Value → Value → K F Reply} (hm : Handler.args3 f = .keyspace method) (hargs : P args)
    (h : ∀ a b c, P [a, b, c] → Built leaf g (f a b c) Q) : Built leaf g (method args) Q :=
  method_args3 (C := (Built leaf g · Q)) .raise hm hargs h

theorem built_args4 {f : Value → Value → Value → Value → K F Reply} (hm : Handler.args4 f = .keyspace method) (hargs : P args)
    (h : ∀ a b c e, P [a, b, c, e] → Built leaf g (f a b c e) Q) : Built leaf g (method args) Q :=
  method_args4 (C := (Built leaf g · Q)) .raise hm hargs h

theorem built_rest1 {f : Value → List Value → K F Reply} (hm : Handler.rest1 f = .keyspace method) (hargs : P args)
    (h : ∀ a rest, P (a :: rest) → Built leaf g (f a rest) Q) : Built leaf g (method args) Q :=
  method_rest1 (C := (Built leaf g · Q)) .raise hm hargs h

theorem built_rest2 {f : Value → Value → List Value → K F Reply} (hm : Handler.rest2 f = .keyspace method) (hargs : P args)
    (h : ∀ a b rest, P (a :: b :: rest) → Built leaf g (f a b rest) Q) : Built leaf g (method args) Q :=
  method_rest2 (C := (Built leaf g · Q)) .raise hm hargs h

theorem built_rest3 {f : Value → Value → Value → List Value → K F Reply} (hm : Handler.rest3 f = .keyspace method)
    (hargs : P args)
    (h : ∀ a b c rest, P (a :: b :: c :: rest) → Built leaf g (f a b c rest) Q) : Built leaf g (method args) Q :=
  method_rest3 (C := (Built leaf g · Q)) .raise hm hargs h

theorem built_keyCount {f : Value → Option Int → K F Reply} (hm : Handler.keyCount f = .keyspace method) (hargs : P args)
    (hint : ∀ v, Built leaf g (intArg? v) fun _ => True)
    (h : ∀ key rest, P (key :: rest) → ∀ count, Built leaf g (f key count) Q) :
    Built leaf g (method args) Q :=
  method_keyCount (C := (Built leaf g · Q)) .raise hm hargs (fun v _ h => (hint v).bind fun count _ => h count) h

end Shapes

theorem disciplined_keyCount {f : Value → Option Int → K F Reply} {method : List Value → K F Reply} {P : List Value → Prop}
    {args : List Value} {Q : Reply → Prop} (hm : Handler.keyCount f = .keyspace method) (hargs : P args)
    (h : ∀ key rest, P (key :: rest) → ∀ count, Disciplined d S (f key count) Q) : Disciplined d S (method args) Q :=
  built_keyCount hm hargs (fun v => of_computes (computes_intArg? v)) h

theorem disciplined_keyCountRest {f : Value → Option Int → List Value → K F Reply} {method : List Value → K F Reply}
    {P : List Value → Prop} {args : List Value} {Q : Reply → Prop} (hm : Handler.keyCountRest f = .keyspace method)
    (hargs : P args)
    (h : ∀ key rest, P (key :: rest) → ∀ count options, Disciplined d S (f key count options) Q) :
    Disciplined d S (method args) Q :=
  method_keyCountRest (C := (Disciplined d S · Q)) .raise hm hargs
    (fun v _ h => (of_computes (computes_intArg? v)).bind fun count _ => h count) h

/-- An argument that is cast to an integer. -/
theorem disciplined_int {α : Type} {v : Value} {f : Int → K F α} {Q : α → Prop}
    (h : ∀ n, toLL v = some n → Disciplined d S (f n) Q) :
    Disciplined d S (intArg v >>= f) Q := (of_computes (computes_intArg v)).bind h

/-! ## What is read off the tables -/

namespace Discipline.Allows

variable {c : Cmd} {args : List Value}

/-- The keys announced by a count that was cast. -/
theorem look_counted {numkeys : Value} {n : Int} (hn : toLL numkeys = some n) {rest : List Value}
    (h : ∀ key ∈ counted (numkeys :: rest), d.permits (.look key)) : ∀ key ∈ rest.take n.toNat, d.permits (.look key) := by
  rwa [counted, hn, Option.getD_some] at h

theorem past_SET {key val : Value} {options : List Value} (ha : d.Allows .SET (key :: val :: options)) :
    ∀ v ∈ options, v.names (bs "EXAT") = true ∨ v.names (bs "PXAT") = true → d.permits .past := by
  intro v hv hn
  refine ha.past (decide_eq_true ⟨rfl, List.any_eq_true.2 ⟨v, by simp [hv], ?_⟩⟩)
  rwa [Bool.or_eq_true]

theorem replace_SET {key val : Value} {options : List Value} (ha : d.Allows .SET (key :: val :: options))
    (h : setGets options = false) : d.permits (.replace key) := by
  refine ha.replace key ?_
  change key ∈ if setGets options = true then [] else [key]
  rw [h]
  exact List.mem_singleton_self key

/-- The destination of an aggregate is overwritten unseen unless it is one of the sources. -/
theorem replace_counted (hc : c = .ZUNIONSTORE ∨ c = .ZINTERSTORE ∨ c = .ZDIFFSTORE) {dest numkeys : Value} {rest : List Value}
    (ha : d.Allows c (dest :: numkeys :: rest)) {n : Int} (hn : toLL numkeys = some n) (h : dest ∉ rest.take n.toNat) :
    d.permits (.replace dest) := by
  have hnot : dest ∉ counted (numkeys :: rest) := by
    rwa [counted, hn, Option.getD_some]
  refine ha.replace dest ?_
  rcases hc with rfl | rfl | rfl
  all_goals exact List.mem_filter.2 ⟨.head _, decide_eq_true hnot⟩

/-- The value of SET, SETNX and GETSET is stored when it has a length. -/
theorem value_sized (hc : c = .SET ∨ c = .SETNX ∨ c = .GETSET) {key val : Value} {rest : List Value}
    (ha : d.Allows c (key :: val :: rest))
    (h : val.sized = true) : d.permits (.value val) := by
  refine ha.value val ?_
  rcases hc with rfl | rfl | rfl
  all_goals exact List.mem_filter.2 ⟨.head _, h⟩

theorem pairs (hc : c = .MSET ∨ c = .MSETNX) (ha : d.Allows c args) :
    (∀ p ∈ pairsOf args, p.1.hashable = true → d.permits (.create p.1)) ∧
      (∀ p ∈ pairsOf args, p.2.sized = true → d.permits (.value p.2)) ∧ ∀ p ∈ pairsOf args, d.permits (.replace p.1) := by
  refine ⟨fun p hp hhash => ha.create p.1 ?_ hhash, fun p hp hsized => ha.value p.2 ?_, fun p hp => ha.replace p.1 ?_⟩
  all_goals rcases hc with rfl | rfl
  · exact List.mem_map_of_mem hp
  · exact List.mem_map_of_mem hp
  · exact List.mem_filter.2 ⟨List.mem_map_of_mem hp, hsized⟩
  · exact List.mem_filter.2 ⟨List.mem_map_of_mem hp, hsized⟩
  · exact List.mem_map_of_mem hp
  · exact List.mem_map_of_mem hp

/-- The fields and values of HSET, HMSET and HSETNX are stored when the field has a hash. -/
theorem store_pairs (hc : c = .HSET ∨ c = .HMSET ∨ c = .HSETNX) {key : Value} {field_values : List Value}
    (ha : d.Allows c (key :: field_values)) :
    ∀ p ∈ pairsOf field_values, p.1.hashable = true → d.permits (.store p.1) ∧ d.permits (.store p.2) := by
  intro p hp hhash
  have hmem : ∀ v, v ∈ [p.1, p.2] → v ∈ c.stored (key :: field_values) := by
    intro v hv
    rcases hc with rfl | rfl | rfl
    all_goals exact List.mem_flatMap.2 ⟨p, List.mem_filter.2 ⟨hp, hhash⟩, hv⟩
  exact ⟨ha.store _ (hmem _ (by simp)), ha.store _ (hmem _ (by simp))⟩

end Discipline.Allows

theorem mem_of_mem_pairsOf {args : List Value} {p : Value × Value} (h : p ∈ pairsOf args) : p.1 ∈ args ∧ p.2 ∈ args := by
  induction args using List.twoStepInduction with
  | nil => cases h
  | singleton a => cases h
  | cons_cons a b rest ih _ =>
    rcases List.mem_cons.1 h with rfl | h
    · simp
    · exact ⟨by simp [(ih h).1], by simp [(ih h).2]⟩

namespace Cmd

variable {c : Cmd} {args : List Value} {v : Value}

theorem mem_fst_pairsOf (h : v ∈ (pairsOf args).map Prod.fst) : v ∈ args := by
  obtain ⟨p, hp, rfl⟩ := List.mem_map.1 h
  exact (mem_of_mem_pairsOf hp).1

theorem mem_snd_pairsOf (h : v ∈ (pairsOf args).map Prod.snd) : v ∈ args := by
  obtain ⟨p, hp, rfl⟩ := List.mem_map.1 h
  exact (mem_of_mem_pairsOf hp).2

/-- A key that is created is an argument. -/
theorem mem_of_mem_created (h : v ∈ c.created args) : v ∈ args := by
  unfold created at h
  split at h
  all_goals first
    | exact mem_fst_pairsOf h
    | exact List.mem_of_mem_take h
    | exact List.mem_of_mem_drop (List.mem_of_mem_take h)
    | cases h

/-- What is stored is an argument. -/
theorem mem_of_mem_stored (h : v ∈ c.stored args) : v ∈ args := by
  unfold stored at h
  split at h
  all_goals first
    | exact List.mem_of_mem_drop (List.mem_of_mem_take h)
    | exact List.mem_of_mem_tail h
    | exact List.mem_of_mem_drop h
    | exact List.mem_of_mem_tail (List.mem_of_mem_filter h)
    | exact List.mem_of_mem_drop (List.mem_of_mem_filter h)
    | exact List.mem_of_mem_drop (List.mem_of_mem_take (List.mem_of_mem_filter h))
    | exact List.mem_of_mem_tail ((List.dropWhile_suffix _).subset (mem_snd_pairsOf (List.mem_of_mem_filter h)))
    | cases h
    | skip
  all_goals
    obtain ⟨p, hp, hv⟩ := List.mem_flatMap.1 h
    obtain ⟨h1, h2⟩ := mem_of_mem_pairsOf (List.mem_of_mem_filter hp)
    rcases List.mem_pair.1 hv with rfl | rfl
    · exact List.mem_of_mem_tail h1
    · exact List.mem_of_mem_tail h2

theorem mem_of_mem_valued (h : v ∈ c.valued args) : v ∈ args := by
  unfold valued at h
  split at h
  all_goals first
    | exact List.mem_of_mem_drop (List.mem_of_mem_take (List.mem_of_mem_filter h))
    | exact mem_snd_pairsOf (List.mem_of_mem_filter h)
    | exact List.mem_of_mem_drop (List.mem_of_mem_take h)
    | cases h

end Cmd

/-! ## The commands -/

variable [PyFloat F]

/-- A keyspace command obeys every discipline that permits its footprint. -/
theorem Discipline.Allows.disciplined {c : Cmd} {method : List Value → K F Reply} (h : handler c = .keyspace method)
    {args : List Value}
    (ha : d.Allows c args) : Disciplined d S (method args) fun _ => True := by
  cases c with
  | WATCH | UNWATCH | COMMAND | CLIENT | CONFIG | FLUSHDB | FLUSHALL
  | SUBSCRIBE | UNSUBSCRIBE | PSUBSCRIBE | PUNSUBSCRIBE | PUBLISH | PUBSUB => cases h
  | PING =>
    cases h
    dsimp only
    split
    · exact disciplined_PING none
    · exact disciplined_PING (some _)
    · exact .raise _
  | ECHO => exact built_args1 h ha fun _ _ => .pure trivial
  | TYPE => exact built_args1 h ha fun key ha => disciplined_TYPE (ha.look key (.head _))
  | HELLO =>
    cases h
    exact disciplined_HELLO args
  | INFO =>
    cases h
    exact disciplined_INFO (ha.scan rfl) args
  | SET =>
    exact built_rest2 h ha fun key b rest ha => disciplined_SET (ha.look key (.head _)) (ha.create key (.head _))
      (Discipline.Allows.value_sized (.inl rfl) ha) ha.replace_SET ha.past_SET
  | SETNX =>
    exact built_args2 h ha fun key b ha =>
      disciplined_SETNX (ha.look key (.head _)) (ha.create key (.head _)) (Discipline.Allows.value_sized (.inr (.inl rfl)) ha)
        (ha.replace key (.head _))
  | SETEX => exact built_args3 h ha fun key n val ha => disciplined_int fun n _ =>
      disciplined_setWithTtl .SETEX (.inl rfl) n (ha.create key (.head _)) (ha.value val (.head _)) (ha.replace key (.head _))
  | PSETEX => exact built_args3 h ha fun key n val ha => disciplined_int fun n _ =>
      disciplined_setWithTtl .PSETEX (.inr rfl) n (ha.create key (.head _)) (ha.value val (.head _)) (ha.replace key (.head _))
  | GET => exact built_args1 h ha fun key ha => disciplined_GET (ha.look key (.head _))
  | GETDEL => exact built_args1 h ha fun key ha => disciplined_GETDEL (ha.look key (.head _))
  | GETEX => exact built_rest1 h ha fun key rest ha => disciplined_GETEX (ha.look key (.head _)) rest
  | GETSET =>
    exact built_args2 h ha fun key b ha => disciplined_GETSET (ha.look key (.head _)) (ha.create key (.head _))
      (Discipline.Allows.value_sized (.inr (.inr rfl)) ha)
  | MGET =>
    cases h
    exact disciplined_MGET ha.look
  | MSET =>
    cases h
    obtain ⟨hkey, hval, hreplace⟩ := Discipline.Allows.pairs (.inl rfl) ha
    exact disciplined_MSET hkey hval hreplace
  | MSETNX =>
    cases h
    obtain ⟨hkey, hval, hreplace⟩ := Discipline.Allows.pairs (.inr rfl) ha
    exact disciplined_MSETNX (fun p hp => ha.look p.1 (List.mem_map_of_mem hp)) hkey hval hreplace
  | DEL =>
    cases h
    exact disciplined_DEL ha.look ha.replace
  | EXPIRE => exact built_args2 h ha fun key b ha => disciplined_int fun n _ =>
      disciplined_expireWith (ha.look key (.head _)) (disciplined_expire (ha.look key (.head _)) n)
  | PEXPIRE => exact built_args2 h ha fun key b ha => disciplined_int fun n _ => disciplined_PEXPIRE (ha.look key (.head _)) n
  | EXPIREAT => exact built_args2 h ha fun key b ha => disciplined_int fun n _ =>
      disciplined_expireWith (ha.look key (.head _)) (disciplined_expire_at (ha.look key (.head _)) _)
  | PEXPIREAT => exact built_args2 h ha fun key b ha => disciplined_int fun n _ =>
      disciplined_expireWith (ha.look key (.head _)) (disciplined_expire_at (ha.look key (.head _)) _)
  | PERSIST => exact built_args1 h ha fun key ha => disciplined_PERSIST (ha.look key (.head _)) (ha.replace key (.head _))
  | EXPIRETIME => exact built_args1 h ha fun key ha => disciplined_EXPIRETIME (ha.look key (.head _))
  | PEXPIRETIME => exact built_args1 h ha fun key ha => disciplined_PEXPIRETIME (ha.look key (.head _))
  | TTL => exact built_args1 h ha fun key ha => disciplined_TTL (ha.look key (.head _))
  | PTTL => exact built_args1 h ha fun key ha => disciplined_PTTL (ha.look key (.head _))
  | KEYS => exact built_args1 h ha fun pattern ha => disciplined_KEYS (ha.scan rfl) pattern
  | SCAN => exact built_rest1 h ha fun cursor options ha => disciplined_SCAN (ha.scan rfl) cursor options
  | EXISTS =>
    cases h
    exact disciplined_countLive .EXISTS ha.look
  | TOUCH =>
    cases h
    exact disciplined_countLive .TOUCH ha.look
  | DBSIZE => exact built_args0 h (disciplined_DBSIZE (ha.scan rfl))
  | INCRBY =>
    exact built_args2 h ha fun key b ha => disciplined_int fun n _ => disciplined_bump (ha.look key (.head _))
      (ha.create key (.head _)) _
  | DECRBY =>
    exact built_args2 h ha fun key b ha => disciplined_int fun n _ => disciplined_bump (ha.look key (.head _))
      (ha.create key (.head _)) _
  | INCR => exact built_args1 h ha fun key ha => disciplined_bump (ha.look key (.head _)) (ha.create key (.head _)) _
  | DECR => exact built_args1 h ha fun key ha => disciplined_bump (ha.look key (.head _)) (ha.create key (.head _)) _
  | INCRBYFLOAT =>
    exact built_args2 h ha fun key b ha => disciplined_INCRBYFLOAT (ha.look key (.head _)) (ha.create key (.head _)) _
  | LCS => exact built_rest2 h ha fun key1 key2 options ha =>
      disciplined_LCS (ha.look key1 (.head _)) (ha.look key2 (.tail _ (.head _))) options
  | SUBSTR => exact built_args3 h ha fun key b c ha => disciplined_int fun start _ => disciplined_int fun stop _ =>
      disciplined_getrange (ha.look key (.head _)) start stop
  | GETRANGE => exact built_args3 h ha fun key b c ha => disciplined_int fun start _ => disciplined_int fun stop _ =>
      disciplined_getrange (ha.look key (.head _)) start stop
  | SETRANGE =>
    exact built_args3 h ha fun key b c ha => disciplined_int fun offset _ => disciplined_SETRANGE (ha.look key (.head _))
      (ha.create key (.head _)) offset _
  | APPEND => exact built_args2 h ha fun key b ha => disciplined_APPEND (ha.look key (.head _)) (ha.create key (.head _)) _
  | STRLEN => exact built_args1 h ha fun key ha => disciplined_STRLEN (ha.look key (.head _))
  | SADD =>
    exact built_rest1 h ha fun key rest ha => disciplined_SADD (ha.look key (.head _)) (ha.create key (.head _)) fun v hv hhash =>
      ha.store v (List.mem_filter.2 ⟨hv, hhash⟩)
  | SCARD => exact built_args1 h ha fun key ha => disciplined_SCARD (ha.look key (.head _))
  | SMEMBERS => exact built_args1 h ha fun key ha => disciplined_SMEMBERS (ha.look key (.head _))
  | SREM => exact built_rest1 h ha fun key rest ha => disciplined_SREM (ha.empty rfl) (ha.look key (.head _)) rest
  | SDIFF =>
    cases h
    exact disciplined_setOp ha.look .diff .SDIFF
  | SINTER =>
    cases h
    exact disciplined_setOp ha.look .inter .SINTER
  | SUNION =>
    cases h
    exact disciplined_setOp ha.look .union .SUNION
  | SDIFFSTORE =>
    exact built_rest1 h ha fun key rest ha => disciplined_setOpStore selects_diff ha.look (ha.create key (.head _)) (fun hn =>
      ha.replace key (List.mem_filter.2 ⟨.head _, decide_eq_true hn⟩)) .SDIFFSTORE .sdiffstore
  | SINTERSTORE =>
    exact built_rest1 h ha fun key rest ha => disciplined_setOpStore selects_inter ha.look (ha.create key (.head _)) (fun hn =>
      ha.replace key (List.mem_filter.2 ⟨.head _, decide_eq_true hn⟩)) .SINTERSTORE .sinterstore
  | SUNIONSTORE =>
    exact built_rest1 h ha fun key rest ha => disciplined_setOpStore selects_union ha.look (ha.create key (.head _)) (fun hn =>
      ha.replace key (List.mem_filter.2 ⟨.head _, decide_eq_true hn⟩)) .SUNIONSTORE .sunionstore
  | SINTERCARD => exact built_rest1 h ha fun numkeys rest ha => disciplined_int fun n hn =>
      disciplined_SINTERCARD (Discipline.Allows.look_counted hn ha.look)
  | SSCAN => exact built_rest2 h ha fun key b rest ha => disciplined_SSCAN (ha.look key (.head _)) b rest
  | SMISMEMBER => exact built_rest1 h ha fun key rest ha => disciplined_SMISMEMBER (ha.look key (.head _)) rest
  | SISMEMBER => exact built_args2 h ha fun key b ha => disciplined_SISMEMBER (ha.look key (.head _)) b
  | SMOVE =>
    exact built_args3 h ha fun source target val ha =>
      disciplined_SMOVE (ha.empty rfl) (ha.look source (.head _)) (ha.look target (.tail _ (.head _)))
        (ha.create target (.head _)) val
  | SPOP => exact disciplined_keyCount h ha fun key _ ha count => disciplined_SPOP (ha.empty rfl) (ha.look key (.head _)) count
  | SRANDMEMBER => exact disciplined_keyCount h ha fun key _ ha count => disciplined_SRANDMEMBER (ha.look key (.head _)) count
  | SETBIT => exact built_args3 h ha fun key b c ha => disciplined_int fun bit _ => disciplined_int fun val _ =>
      disciplined_SETBIT (ha.look key (.head _)) (ha.create key (.head _)) bit val
  | GETBIT => exact built_args2 h ha fun key b ha => disciplined_int fun bit _ => disciplined_GETBIT (ha.look key (.head _)) bit
  | BITOP => exact built_rest2 h ha fun op dest keys ha => disciplined_BITOP ha.look (ha.create dest (.head _)) (fun hn =>
      ha.replace dest (List.mem_filter.2 ⟨.head _, decide_eq_true hn⟩)) op
  | BITCOUNT => exact built_args1 h ha fun key ha => disciplined_BITCOUNT (ha.look key (.head _))
  | BITPOS => exact built_args2 h ha fun key b ha => disciplined_BITPOS (ha.look key (.head _)) b
  | BITFIELD =>
    exact built_rest1 h ha fun key rest ha => disciplined_bitfield (ha.look key (.head _))
      (fun _ => ha.create key (.head _)) rest
  | BITFIELD_RO => exact built_rest1 h ha fun key rest ha => disciplined_bitfield (ha.look key (.head _)) (by nofun) rest
  | HSET =>
    exact built_rest1 h ha fun key rest ha =>
      disciplined_HSET (ha.look key (.head _)) (ha.fields key (.head _)) (ha.create key (.head _))
        (Discipline.Allows.store_pairs (.inl rfl) ha)
  | HMSET =>
    exact built_rest1 h ha fun key rest ha =>
      disciplined_HMSET (ha.look key (.head _)) (ha.fields key (.head _)) (ha.create key (.head _))
        (Discipline.Allows.store_pairs (.inr (.inl rfl)) ha)
  | HSETNX =>
    exact built_args3 h ha fun key field val ha =>
      disciplined_HSETNX (ha.look key (.head _)) (ha.fields key (.head _)) (ha.create key (.head _))
        (Discipline.Allows.store_pairs (.inr (.inr rfl)) ha (field, val) (.head _))
  | HGET => exact built_args2 h ha fun key b ha => disciplined_HGET (ha.look key (.head _)) (ha.fields key (.head _)) b
  | HEXISTS => exact built_args2 h ha fun key b ha => disciplined_HEXISTS (ha.look key (.head _)) (ha.fields key (.head _)) b
  | HSTRLEN => exact built_args2 h ha fun key b ha => disciplined_HSTRLEN (ha.look key (.head _)) (ha.fields key (.head _)) b
  | HMGET => exact built_rest1 h ha fun key rest ha => disciplined_HMGET (ha.look key (.head _)) (ha.fields key (.head _)) rest
  | HDEL => exact built_rest1 h ha fun key rest ha => disciplined_HDEL (ha.look key (.head _)) (ha.fields key (.head _)) rest
  | HLEN => exact built_args1 h ha fun key ha => disciplined_hashRead (ha.look key (.head _)) (ha.fields key (.head _)) _ _
  | HKEYS => exact built_args1 h ha fun key ha => disciplined_hashRead (ha.look key (.head _)) (ha.fields key (.head _)) _ _
  | HVALS => exact built_args1 h ha fun key ha => disciplined_hashRead (ha.look key (.head _)) (ha.fields key (.head _)) _ _
  | HGETALL => exact built_args1 h ha fun key ha => disciplined_hashRead (ha.look key (.head _)) (ha.fields key (.head _)) _ _
  | HSCAN =>
    exact built_rest2 h ha fun key b rest ha => disciplined_HSCAN (ha.look key (.head _)) (ha.fields key (.head _)) b rest
  | HRANDFIELD => exact disciplined_keyCountRest h ha fun key _ ha count options =>
      disciplined_HRANDFIELD (ha.look key (.head _)) (ha.fields key (.head _)) count options
  | HINCRBY =>
    exact built_args3 h ha fun key field n ha => disciplined_int fun n _ =>
      disciplined_HINCRBY (ha.look key (.head _)) (ha.fields key (.head _)) (ha.create key (.head _))
        (fun hhash => ha.store field (List.mem_filter.2 ⟨.head _, hhash⟩)) n
  | HINCRBYFLOAT =>
    exact built_args3 h ha fun key field x ha =>
      disciplined_HINCRBYFLOAT (ha.look key (.head _)) (ha.fields key (.head _)) (ha.create key (.head _))
        (fun hhash => ha.store field (List.mem_filter.2 ⟨.head _, hhash⟩)) x
  | HEXPIRE =>
    exact built_rest1 h ha fun key rest ha => disciplined_hexpire (ha.look key (.head _))
      (ha.fields key (.head _)) .HEXPIRE rest
  | HPEXPIRE =>
    exact built_rest1 h ha fun key rest ha => disciplined_hexpire (ha.look key (.head _))
      (ha.fields key (.head _)) .HPEXPIRE rest
  | HEXPIREAT =>
    exact built_rest1 h ha fun key rest ha => disciplined_hexpire (ha.look key (.head _))
      (ha.fields key (.head _)) .HEXPIREAT rest
  | HPEXPIREAT =>
    exact built_rest1 h ha fun key rest ha => disciplined_hexpire (ha.look key (.head _))
      (ha.fields key (.head _)) .HPEXPIREAT rest
  | HTTL =>
    exact built_rest1 h ha fun key rest ha => disciplined_hexpire_read (ha.look key (.head _))
      (ha.fields key (.head _)) .HTTL _ rest
  | HPTTL =>
    exact built_rest1 h ha fun key rest ha => disciplined_hexpire_read (ha.look key (.head _))
      (ha.fields key (.head _)) .HPTTL _ rest
  | HPERSIST =>
    exact built_rest1 h ha fun key rest ha => disciplined_hexpire_read (ha.look key (.head _))
      (ha.fields key (.head _)) .HPERSIST _ rest
  | HEXPIRETIME =>
    exact built_rest1 h ha fun key rest ha => disciplined_hexpire_read (ha.look key (.head _))
      (ha.fields key (.head _)) .HEXPIRETIME _ rest
  | HPEXPIRETIME =>
    exact built_rest1 h ha fun key rest ha => disciplined_hexpire_read (ha.look key (.head _))
      (ha.fields key (.head _)) .HPEXPIRETIME _ rest
  | LPUSH => exact built_rest1 h ha fun key rest ha =>
      disciplined_push (ha.look key (.head _)) (fun _ => ha.create key (.head _)) (fun v hv => ha.store v hv) .LPUSH true
  | RPUSH => exact built_rest1 h ha fun key rest ha =>
      disciplined_push (ha.look key (.head _)) (fun _ => ha.create key (.head _)) (fun v hv => ha.store v hv) .RPUSH false
  | LPUSHX => exact built_rest1 h ha fun key rest ha =>
      disciplined_push (ha.look key (.head _)) (by nofun) (fun v hv => ha.store v hv) .LPUSHX true
  | RPUSHX => exact built_rest1 h ha fun key rest ha =>
      disciplined_push (ha.look key (.head _)) (by nofun) (fun v hv => ha.store v hv) .RPUSHX false
  | LLEN => exact built_args1 h ha fun key ha => disciplined_LLEN (ha.look key (.head _))
  | LRANGE => exact built_args3 h ha fun key b c ha => disciplined_int fun start _ => disciplined_int fun stop _ =>
      disciplined_LRANGE (ha.look key (.head _)) start stop
  | LTRIM => exact built_args3 h ha fun key b c ha => disciplined_int fun start _ => disciplined_int fun stop _ =>
      disciplined_LTRIM (ha.look key (.head _)) start stop
  | LINDEX =>
    exact built_args2 h ha fun key b ha => disciplined_int fun index _ => disciplined_LINDEX (ha.look key (.head _)) index
  | LPOP =>
    exact disciplined_keyCount h ha fun key _ ha count => disciplined_pop (ha.empty rfl) (ha.look key (.head _)) count true
  | RPOP =>
    exact disciplined_keyCount h ha fun key _ ha count => disciplined_pop (ha.empty rfl) (ha.look key (.head _)) count false
  | LSET => exact built_args3 h ha fun key index val ha => disciplined_int fun index _ =>
      disciplined_LSET (ha.look key (.head _)) (ha.store val (.head _)) index
  | LREM =>
    exact built_args3 h ha fun key count val ha => disciplined_int fun count _ => disciplined_LREM
      (ha.look key (.head _)) count val
  | LINSERT =>
    exact built_args4 h ha fun key side pivot val ha => disciplined_LINSERT (ha.look key (.head _))
      (ha.store val (.head _)) side pivot
  | LMOVE =>
    exact built_args4 h ha fun source destination _ _ ha =>
      disciplined_LMOVE (ha.empty rfl) (ha.look source (.head _)) (ha.look destination (.tail _ (.head _)))
        (ha.create destination (.head _)) _ _
  | RPOPLPUSH =>
    exact built_args2 h ha fun source destination ha =>
      disciplined_move (ha.empty rfl) (ha.look source (.head _)) (ha.look destination (.tail _ (.head _)))
        (ha.create destination (.head _)) _ _
  | LMPOP => exact built_rest1 h ha fun numkeys rest ha => disciplined_int fun n hn =>
      disciplined_LMPOP (ha.empty rfl) (Discipline.Allows.look_counted hn ha.look)
  | LPOS => exact built_rest2 h ha fun key b rest ha => disciplined_LPOS (ha.look key (.head _)) b rest
  | ZADD =>
    exact built_rest1 h ha fun key rest ha => disciplined_ZADD (ha.empty rfl) (ha.look key (.head _))
      (ha.create key (.head _)) fun v hv hhash =>
      ha.store v (List.mem_filter.2 ⟨hv, hhash⟩)
  | ZINCRBY =>
    exact built_args3 h ha fun key increment member ha =>
      disciplined_ZINCRBY (ha.empty rfl) (ha.look key (.head _)) (ha.create key (.head _))
        (fun hhash => ha.store member (List.mem_filter.2 ⟨.head _, hhash⟩)) increment
  | ZCARD => exact built_args1 h ha fun key ha => disciplined_ZCARD (ha.look key (.head _))
  | ZSCORE => exact built_args2 h ha fun key b ha => disciplined_ZSCORE (ha.look key (.head _)) b
  | ZMSCORE => exact built_rest1 h ha fun key rest ha => disciplined_ZMSCORE (ha.look key (.head _)) rest
  | ZRANK => exact built_rest2 h ha fun key b rest ha => disciplined_zrank (ha.look key (.head _)) b rest _
  | ZREVRANK => exact built_rest2 h ha fun key b rest ha => disciplined_zrank (ha.look key (.head _)) b rest _
  | ZRANGE => exact built_rest3 h ha fun key b c rest ha => disciplined_ZRANGE (ha.look key (.head _)) b c rest
  | ZREVRANGE => exact built_rest3 h ha fun key b c rest ha => disciplined_ZREVRANGE (ha.look key (.head _)) b c rest
  | ZRANGEBYSCORE =>
    exact built_rest3 h ha fun key b c rest ha => disciplined_legacy_score_range (ha.look key (.head _)) _ _ rest _
  | ZREVRANGEBYSCORE =>
    exact built_rest3 h ha fun key b c rest ha => disciplined_legacy_score_range (ha.look key (.head _)) _ _ rest _
  | ZRANGEBYLEX => exact built_rest3 h ha fun key b c rest ha => disciplined_legacy_lex_range (ha.look key (.head _)) _ _ rest _
  | ZREVRANGEBYLEX =>
    exact built_rest3 h ha fun key b c rest ha => disciplined_legacy_lex_range (ha.look key (.head _)) _ _ rest _
  | ZCOUNT => exact built_args3 h ha fun key b c ha => disciplined_ZCOUNT (ha.look key (.head _)) b c
  | ZLEXCOUNT => exact built_args3 h ha fun key b c ha => disciplined_ZLEXCOUNT (ha.look key (.head _)) b c
  | ZREM => exact built_rest1 h ha fun key rest ha => disciplined_ZREM (ha.empty rfl) (ha.look key (.head _)) rest
  | ZREMRANGEBYRANK => exact built_args3 h ha fun key b c ha => disciplined_int fun start _ => disciplined_int fun stop _ =>
      disciplined_ZREMRANGEBYRANK (ha.empty rfl) (ha.look key (.head _)) start stop
  | ZREMRANGEBYSCORE =>
    exact built_args3 h ha fun key b c ha => disciplined_ZREMRANGEBYSCORE (ha.empty rfl) (ha.look key (.head _)) b c
  | ZREMRANGEBYLEX =>
    exact built_args3 h ha fun key b c ha => disciplined_ZREMRANGEBYLEX (ha.empty rfl) (ha.look key (.head _)) b c
  | ZSCAN => exact built_rest2 h ha fun key b rest ha => disciplined_ZSCAN (ha.look key (.head _)) b rest
  | ZPOPMIN =>
    exact disciplined_keyCount h ha fun key _ ha count => disciplined_zpop (ha.empty rfl) (ha.look key (.head _)) count true
  | ZPOPMAX =>
    exact disciplined_keyCount h ha fun key _ ha count => disciplined_zpop (ha.empty rfl) (ha.look key (.head _)) count false
  | ZRANDMEMBER =>
    exact disciplined_keyCountRest h ha fun key _ ha count options => disciplined_ZRANDMEMBER
      (ha.look key (.head _)) count options
  | ZUNIONSTORE =>
    exact built_rest2 h ha fun dest numkeys rest ha => disciplined_int fun n hn =>
      disciplined_zopStore (Discipline.Allows.look_counted hn ha.look) (ha.create dest (.head _))
        (Discipline.Allows.replace_counted (.inl rfl) ha hn) _ _ _ _
  | ZINTERSTORE =>
    exact built_rest2 h ha fun dest numkeys rest ha => disciplined_int fun n hn =>
      disciplined_zopStore (Discipline.Allows.look_counted hn ha.look) (ha.create dest (.head _))
        (Discipline.Allows.replace_counted (.inr (.inl rfl)) ha hn) _ _ _ _
  | ZDIFFSTORE =>
    exact built_rest2 h ha fun dest numkeys rest ha => disciplined_int fun n hn =>
      disciplined_zopStore (Discipline.Allows.look_counted hn ha.look) (ha.create dest (.head _))
        (Discipline.Allows.replace_counted (.inr (.inr rfl)) ha hn) _ _ _ _
  | ZUNION => exact built_rest1 h ha fun numkeys rest ha => disciplined_int fun n hn =>
      disciplined_zopRead (Discipline.Allows.look_counted hn ha.look) _ _ _
  | ZINTER => exact built_rest1 h ha fun numkeys rest ha => disciplined_int fun n hn =>
      disciplined_zopRead (Discipline.Allows.look_counted hn ha.look) _ _ _
  | ZDIFF => exact built_rest1 h ha fun numkeys rest ha => disciplined_int fun n hn =>
      disciplined_zopRead (Discipline.Allows.look_counted hn ha.look) _ _ _

end Kagni
