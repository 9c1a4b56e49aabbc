import Kagni.Atomics.Basic
import Kagni.Atomics.Hash
import Kagni.Atomics.Lists
import Kagni.Atomics.Set
import Kagni.Atomics.Zset
import Kagni.Footprints.Drain

/-!
# Every command finishes or leaves nothing behind

The commands of the table, by their methods. A command names the keys whose deadline it may change; BITFIELD alone may raise
in the middle of what it writes.
-/

namespace Kagni

open Lib Lib.Prog

variable {F : Type}

/-- The keys whose deadline the command may change. -/
def Cmd.timed (c : Cmd) (args : List Value) : List Value :=
  match c with
  | .SET => if setKeeps (args.drop 2) then [] else args.take 1
  | .SETNX | .SETEX | .PSETEX | .GETEX | .GETSET | .EXPIRE | .PEXPIRE | .EXPIREAT | .PEXPIREAT | .PERSIST
    | .SDIFFSTORE | .SINTERSTORE
  | .SUNIONSTORE | .ZUNIONSTORE | .ZINTERSTORE | .ZDIFFSTORE => args.take 1
  | .MSET | .MSETNX => (pairsOf args).map Prod.fst
  | .BITOP => (args.drop 1).take 1
  | _ => []

variable [PyFloat F]

/-- The command may be watched: a calm one is given byte strings. -/
structure Watch.Permits (w : Watch F) (c : Cmd) (args : List Value) : Prop where
  bytes : w.calm → AllBytes args
  free : ∀ key ∈ c.timed args, key ∈ w.free
  whole : c = .BITFIELD ∨ c = .BITFIELD_RO → ¬w.calm

namespace Watch

variable {w : Watch F} {c : Cmd} {a b : Value} {rest : List Value} {α : Type} {Q : α → Prop}

namespace Permits

/-- The first argument is a key. -/
theorem key (h : w.Permits c (a :: rest)) : w.calm → a.IsBytes := fun hc => h.bytes hc a (by simp)

/-- The second is a byte string too. -/
theorem second (h : w.Permits c (a :: b :: rest)) : w.calm → b.IsBytes := fun hc => h.bytes hc b (by simp)

theorem tail (h : w.Permits c (a :: rest)) : w.calm → ∀ v ∈ rest, v.IsBytes := fun hc v hv => h.bytes hc v (by simp [hv])

/-- The keys of pairs are byte strings. -/
theorem pairs {args : List Value} (h : w.Permits c args) : w.calm → ∀ p ∈ pairsOf args, p.1.IsBytes :=
  fun hc _ hp => h.bytes hc _ (mem_of_mem_pairsOf hp).1

end Permits

/-- An argument that is cast to an integer. -/
theorem finishes_int {v : Value} {f : Int → K F Reply} (h : ∀ n, toLL v = some n → w.Finishes (f n)) :
    w.Finishes (intArg v >>= f) :=
  (reads_of_computes (computes_intArg v)).thenFinishes h

/-- An optional integer is parsed before anything is written. -/
theorem finishes_int? (v : Option Value) {f : Option Int → K F Reply} (h : ∀ n, w.Finishes (f n)) :
    w.Finishes (intArg? v >>= f) :=
  (reads_of_computes (computes_intArg? v)).thenFinishes fun n _ => h n

section Shapes

variable {method : List Value → K F Reply} {args : List Value}

/-- What only raises has written nothing. -/
theorem finishes_raise (e : Exc Errors) : w.Finishes (Prog.raise e) := Reads.raise.finishes (Q := fun _ => True)

/-- A method without arguments. -/
theorem finishes_args0 {f : K F Reply} (hm : Handler.args0 f = .keyspace method) (h : w.Finishes f) : w.Finishes (method args) :=
  method_args0 finishes_raise hm h

/-- A method of one argument: a wrong number of arguments is refused first. -/
theorem finishes_args1 {f : Value → K F Reply} (hm : Handler.args1 f = .keyspace method) (hp : w.Permits c args)
    (h : ∀ a, w.Permits c [a] → w.Finishes (f a)) : w.Finishes (method args) := method_args1 finishes_raise hm hp h

theorem finishes_args2 {f : Value → Value → K F Reply} (hm : Handler.args2 f = .keyspace method) (hp : w.Permits c args)
    (h : ∀ a b, w.Permits c [a, b] → w.Finishes (f a b)) : w.Finishes (method args) := method_args2 finishes_raise hm hp h

/-- A method of three. -/
theorem finishes_args3 {f : Value → Value → Value → K F Reply} (hm : Handler.args3 f = .keyspace method) (hp : w.Permits c args)
    (h : ∀ a b e, w.Permits c [a, b, e] → w.Finishes (f a b e)) : w.Finishes (method args) := method_args3 finishes_raise hm hp h

theorem finishes_args4 {f : Value → Value → Value → Value → K F Reply} (hm : Handler.args4 f = .keyspace method)
    (hp : w.Permits c args)
    (h : ∀ a b e g, w.Permits c [a, b, e, g] → w.Finishes (f a b e g)) : w.Finishes (method args) :=
  method_args4 finishes_raise hm hp h

/-- A method of one argument and a rest. -/
theorem finishes_rest1 {f : Value → List Value → K F Reply} (hm : Handler.rest1 f = .keyspace method) (hp : w.Permits c args)
    (h : ∀ a rest, w.Permits c (a :: rest) → w.Finishes (f a rest)) : w.Finishes (method args) :=
  method_rest1 finishes_raise hm hp h

theorem finishes_rest2 {f : Value → Value → List Value → K F Reply} (hm : Handler.rest2 f = .keyspace method)
    (hp : w.Permits c args)
    (h : ∀ a b rest, w.Permits c (a :: b :: rest) → w.Finishes (f a b rest)) : w.Finishes (method args) :=
  method_rest2 finishes_raise hm hp h

/-- A method of three and a rest. -/
theorem finishes_rest3 {f : Value → Value → Value → List Value → K F Reply} (hm : Handler.rest3 f = .keyspace method)
    (hp : w.Permits c args)
    (h : ∀ a b e rest, w.Permits c (a :: b :: e :: rest) → w.Finishes (f a b e rest)) : w.Finishes (method args) :=
  method_rest3 finishes_raise hm hp h

/-- A method of a key and an optional count, which is parsed first. -/
theorem finishes_keyCount {f : Value → Option Int → K F Reply} (hm : Handler.keyCount f = .keyspace method)
    (hp : w.Permits c args)
    (h : ∀ key rest, w.Permits c (key :: rest) → ∀ count, w.Finishes (f key count)) : w.Finishes (method args) :=
  method_keyCount finishes_raise hm hp (fun v _ h => finishes_int? v h) h

/-- A method of a key, an optional count and options. -/
theorem finishes_keyCountRest {f : Value → Option Int → List Value → K F Reply} (hm : Handler.keyCountRest f = .keyspace method)
    (hp : w.Permits c args) (h : ∀ key rest, w.Permits c (key :: rest) → ∀ count options, w.Finishes (f key count options)) :
    w.Finishes (method args) := method_keyCountRest finishes_raise hm hp (fun v _ h => finishes_int? v h) h

end Shapes

/-- Every command of the keyspace finishes, or leaves nothing behind when it is calm. -/
theorem finishes_command {method : List Value → K F Reply} (hm : handler c = .keyspace method) {args : List Value}
    (hp : w.Permits c args) :
    w.Finishes (method args) := by
  have hfirst : ∀ {a rest}, w.Permits c (a :: rest) → c.timed (a :: rest) = [a] → a ∈ w.free :=
    fun h ht => h.free _ (by simp [ht])
  cases c with
  | WATCH | UNWATCH | COMMAND | CLIENT | CONFIG | FLUSHDB | FLUSHALL
  | SUBSCRIBE | UNSUBSCRIBE | PSUBSCRIBE | PUNSUBSCRIBE | PUBLISH | PUBSUB => cases hm
  | PING =>
    cases hm
    dsimp only
    split
    · exact (reads_PING none).finishes
    · exact (reads_PING (some _)).finishes
    · exact finishes_raise _
  | ECHO => exact finishes_args1 hm hp fun _ _ => Reads.finishes (Q := fun _ => True) (.pure trivial)
  | TYPE => exact finishes_args1 hm hp fun key _ => (reads_TYPE key).finishes
  | HELLO =>
    cases hm
    exact (reads_HELLO args).finishes
  | INFO =>
    cases hm
    exact (reads_INFO args).finishes
  | SET =>
    refine finishes_rest2 hm hp fun key val options hp => (atomic_SET hp.key ?_).finishes
    by_cases hkeeps : setKeeps options = true
    · exact .inl hkeeps
    · exact .inr (hfirst hp (if_neg hkeeps))
  | SETNX => exact finishes_args2 hm hp fun key val hp => (atomic_SETNX val hp.key (hfirst hp rfl)).finishes
  | SETEX =>
    exact finishes_args3 hm hp fun key _ val hp => finishes_int fun n _ =>
    (atomic_setWithTtl _ _ n val hp.key (hfirst hp rfl)).finishes
  | PSETEX =>
    exact finishes_args3 hm hp fun key _ val hp => finishes_int fun n _ =>
    (atomic_setWithTtl _ _ n val hp.key (hfirst hp rfl)).finishes
  | GET => exact finishes_args1 hm hp fun key _ => (reads_GET key).finishes
  | GETDEL => exact finishes_args1 hm hp fun key hp => (atomic_GETDEL hp.key).finishes
  | GETEX => exact finishes_rest1 hm hp fun key options hp => (atomic_GETEX options hp.key (hfirst hp rfl)).finishes
  | GETSET => exact finishes_args2 hm hp fun key val hp => (atomic_GETSET val hp.key (hfirst hp rfl)).finishes
  | MGET =>
    cases hm
    exact (reads_MGET args).finishes
  | MSET =>
    cases hm
    exact (atomic_MSET hp.pairs fun p hmem => hp.free _ (List.mem_map_of_mem hmem)).finishes
  | MSETNX =>
    cases hm
    exact (atomic_MSETNX hp.pairs fun p hmem => hp.free _ (List.mem_map_of_mem hmem)).finishes
  | DEL =>
    cases hm
    exact (atomic_DEL hp.bytes).finishes
  | EXPIRE => exact finishes_args2 hm hp fun key _ hp => finishes_int fun n _ => (atomic_EXPIRE n hp.key (hfirst hp rfl)).finishes
  | PEXPIRE =>
    exact finishes_args2 hm hp fun key _ hp => finishes_int fun n _ => (atomic_PEXPIRE n hp.key (hfirst hp rfl)).finishes
  | EXPIREAT =>
    exact finishes_args2 hm hp fun key _ hp => finishes_int fun n _ => (atomic_EXPIREAT n hp.key (hfirst hp rfl)).finishes
  | PEXPIREAT =>
    exact finishes_args2 hm hp fun key _ hp => finishes_int fun n _ => (atomic_PEXPIREAT n hp.key (hfirst hp rfl)).finishes
  | PERSIST => exact finishes_args1 hm hp fun key hp => (atomic_PERSIST hp.key (hfirst hp rfl)).finishes
  | EXPIRETIME => exact finishes_args1 hm hp fun key _ => (reads_EXPIRETIME key).finishes
  | PEXPIRETIME => exact finishes_args1 hm hp fun key _ => (reads_PEXPIRETIME key).finishes
  | TTL => exact finishes_args1 hm hp fun key _ => (reads_TTL key).finishes
  | PTTL => exact finishes_args1 hm hp fun key _ => (reads_PTTL key).finishes
  | KEYS => exact finishes_args1 hm hp fun pattern _ => (reads_KEYS pattern).finishes
  | SCAN => exact finishes_rest1 hm hp fun cursor options _ => (reads_SCAN cursor options).finishes
  | EXISTS =>
    cases hm
    exact (reads_countLive .EXISTS args).finishes
  | TOUCH =>
    cases hm
    exact (reads_countLive .TOUCH args).finishes
  | DBSIZE => exact finishes_args0 hm reads_DBSIZE.finishes
  | INCRBY | DECRBY => exact finishes_args2 hm hp fun key _ hp => finishes_int fun n _ => (atomic_bump _ hp.key).finishes
  | INCR | DECR => exact finishes_args1 hm hp fun key hp => (atomic_bump _ hp.key).finishes
  | INCRBYFLOAT => exact finishes_args2 hm hp fun key increment hp => (atomic_INCRBYFLOAT increment hp.key).finishes
  | LCS => exact finishes_rest2 hm hp fun key1 key2 options _ => (reads_LCS key1 key2 options).finishes
  | SUBSTR | GETRANGE =>
    exact finishes_args3 hm hp fun key _ _ _ => finishes_int fun start _ => finishes_int fun stop _ =>
      (reads_getrange key start stop).finishes
  | SETRANGE =>
    exact finishes_args3 hm hp fun key _ value hp => finishes_int fun offset _ =>
    (atomic_SETRANGE offset value hp.key).finishes
  | APPEND => exact finishes_args2 hm hp fun key val hp => (atomic_APPEND val hp.key).finishes
  | STRLEN => exact finishes_args1 hm hp fun key _ => (reads_STRLEN key).finishes
  | SADD => exact finishes_rest1 hm hp fun key vals hp => (atomic_SADD hp.key hp.tail).finishes
  | SCARD => exact finishes_args1 hm hp fun key _ => (reads_SCARD key).finishes
  | SMEMBERS => exact finishes_args1 hm hp fun key _ => (reads_SMEMBERS key).finishes
  | SREM => exact finishes_rest1 hm hp fun key vals hp => (atomic_SREM hp.key hp.tail).finishes
  | SDIFF | SINTER | SUNION =>
    cases hm
    exact (reads_setOp _ _ args).finishes
  | SDIFFSTORE | SINTERSTORE | SUNIONSTORE =>
    exact finishes_rest1 hm hp fun key keys hp => (atomic_setOpStore _ _ _ keys hp.key (hfirst hp rfl)).finishes
  | SINTERCARD =>
    exact finishes_rest1 hm hp fun _ rest _ => finishes_int fun numkeys _ => (reads_SINTERCARD numkeys rest).finishes
  | SSCAN => exact finishes_rest2 hm hp fun key cursor options _ => (reads_SSCAN key cursor options).finishes
  | SMISMEMBER => exact finishes_rest1 hm hp fun key vals _ => (reads_SMISMEMBER key vals).finishes
  | SISMEMBER => exact finishes_args2 hm hp fun key val _ => (reads_SISMEMBER key val).finishes
  | SMOVE => exact finishes_args3 hm hp fun source target val hp => (atomic_SMOVE val hp.key hp.second).finishes
  | SPOP => exact finishes_keyCount hm hp fun key _ hp count => (atomic_SPOP count hp.key).finishes
  | SRANDMEMBER => exact finishes_keyCount hm hp fun key _ _ count => (reads_SRANDMEMBER key count).finishes
  | SETBIT =>
    exact finishes_args3 hm hp fun key _ _ hp => finishes_int fun bit _ => finishes_int fun val _ =>
    (atomic_SETBIT bit val hp.key).finishes
  | GETBIT => exact finishes_args2 hm hp fun key _ _ => finishes_int fun bit _ => (reads_GETBIT key bit).finishes
  | BITOP => exact finishes_rest2 hm hp fun op dest keys hp => (atomic_BITOP op keys hp.second (hp.free _ (.head _))).finishes
  | BITCOUNT => exact finishes_args1 hm hp fun key _ => (reads_BITCOUNT key).finishes
  | BITPOS => exact finishes_args2 hm hp fun key bit _ => (reads_BITPOS key bit).finishes
  | BITFIELD => exact finishes_rest1 hm hp fun key args hp => (ends_bitfield hp.key args false).finishes (hp.whole (.inl rfl))
  | BITFIELD_RO => exact finishes_rest1 hm hp fun key args hp => (ends_bitfield hp.key args true).finishes (hp.whole (.inr rfl))
  | HSET => exact finishes_rest1 hm hp fun key field_values hp => (atomic_HSET hp.key hp.tail).finishes
  | HMSET => exact finishes_rest1 hm hp fun key field_values hp => (atomic_HMSET hp.key hp.tail).finishes
  | HSETNX => exact finishes_args3 hm hp fun key field val hp => (atomic_HSETNX val hp.key hp.second).finishes
  | HGET => exact finishes_args2 hm hp fun key field hp => (atomic_HGET hp.second).finishes
  | HEXISTS => exact finishes_args2 hm hp fun key field hp => (atomic_HEXISTS hp.second).finishes
  | HSTRLEN => exact finishes_args2 hm hp fun key field hp => (atomic_HSTRLEN hp.second).finishes
  | HMGET => exact finishes_rest1 hm hp fun key fields hp => (atomic_HMGET hp.tail).finishes
  | HDEL => exact finishes_rest1 hm hp fun key fields hp => (atomic_HDEL hp.key hp.tail).finishes
  | HLEN => exact finishes_args1 hm hp fun key hp => (atomic_HLEN hp.key).finishes
  | HKEYS => exact finishes_args1 hm hp fun key hp => (atomic_HKEYS hp.key).finishes
  | HVALS => exact finishes_args1 hm hp fun key hp => (atomic_HVALS hp.key).finishes
  | HGETALL => exact finishes_args1 hm hp fun key hp => (atomic_HGETALL hp.key).finishes
  | HSCAN => exact finishes_rest2 hm hp fun key cursor options hp => (atomic_HSCAN cursor options hp.key).finishes
  | HRANDFIELD =>
    exact finishes_keyCountRest hm hp fun key _ hp count options => (atomic_HRANDFIELD count options hp.key).finishes
  | HINCRBY =>
    exact finishes_args3 hm hp fun key field _ hp => finishes_int fun n hn =>
      (atomic_HINCRBY hp.key hp.second (toLL_bounds hn)).finishes
  | HINCRBYFLOAT =>
    exact finishes_args3 hm hp fun key field increment hp => (atomic_HINCRBYFLOAT increment hp.key hp.second).finishes
  | HEXPIRE | HPEXPIRE | HEXPIREAT | HPEXPIREAT =>
    exact finishes_rest1 hm hp fun key args hp => (atomic_hexpire _ hp.key hp.tail).finishes
  | HTTL | HPTTL | HPERSIST | HEXPIRETIME | HPEXPIRETIME =>
    exact finishes_rest1 hm hp fun key args hp => (atomic_hexpire_read _ _ hp.key hp.tail).finishes
  | LPUSH | RPUSH | LPUSHX | RPUSHX => exact finishes_rest1 hm hp fun key vals hp => (atomic_push _ _ hp.key).finishes
  | LLEN => exact finishes_args1 hm hp fun key _ => (reads_LLEN key).finishes
  | LRANGE =>
    exact finishes_args3 hm hp fun key _ _ _ => finishes_int fun start _ => finishes_int fun stop _ =>
    (reads_LRANGE key start stop).finishes
  | LTRIM =>
    exact finishes_args3 hm hp fun key _ _ hp => finishes_int fun start _ => finishes_int fun stop _ =>
    (atomic_LTRIM start stop hp.key).finishes
  | LINDEX => exact finishes_args2 hm hp fun key _ _ => finishes_int fun index _ => (reads_LINDEX key index).finishes
  | LPOP | RPOP => exact finishes_keyCount hm hp fun key _ hp count => (atomic_pop count _ hp.key).finishes
  | LSET => exact finishes_args3 hm hp fun key _ val hp => finishes_int fun index _ => (atomic_LSET index val hp.key).finishes
  | LREM => exact finishes_args3 hm hp fun key _ val hp => finishes_int fun count _ => (atomic_LREM count val hp.key).finishes
  | LINSERT => exact finishes_args4 hm hp fun key side pivot val hp => (atomic_LINSERT side pivot val hp.key).finishes
  | LMOVE => exact finishes_args4 hm hp fun source destination _ _ hp => (atomic_LMOVE _ _ hp.key hp.second).finishes
  | RPOPLPUSH => exact finishes_args2 hm hp fun source destination hp => (atomic_move _ _ hp.key hp.second).finishes
  | LMPOP => exact finishes_rest1 hm hp fun _ rest hp => finishes_int fun numkeys _ => (atomic_LMPOP numkeys hp.tail).finishes
  | LPOS => exact finishes_rest2 hm hp fun key element options _ => (reads_LPOS key element options).finishes
  | ZADD => exact finishes_rest1 hm hp fun key args hp => (atomic_ZADD hp.key hp.tail).finishes
  | ZINCRBY =>
    exact finishes_args3 hm hp fun key increment member hp =>
    (atomic_ZINCRBY increment hp.key fun hc => hp.bytes hc _ (by simp)).finishes
  | ZCARD => exact finishes_args1 hm hp fun key _ => (reads_ZCARD key).finishes
  | ZSCORE => exact finishes_args2 hm hp fun key member _ => (reads_ZSCORE key member).finishes
  | ZMSCORE => exact finishes_rest1 hm hp fun key vals _ => (reads_ZMSCORE key vals).finishes
  | ZRANK | ZREVRANK => exact finishes_rest2 hm hp fun key member options _ => (reads_zrank key member options _).finishes
  | ZRANGE => exact finishes_rest3 hm hp fun key start stop options _ => (reads_ZRANGE key start stop options).finishes
  | ZREVRANGE => exact finishes_rest3 hm hp fun key start stop options _ => (reads_ZREVRANGE key start stop options).finishes
  | ZRANGEBYSCORE | ZREVRANGEBYSCORE =>
    exact finishes_rest3 hm hp fun key _ _ options _ => (reads_legacy_score_range key _ _ options _).finishes
  | ZRANGEBYLEX | ZREVRANGEBYLEX =>
    exact finishes_rest3 hm hp fun key _ _ options _ => (reads_legacy_lex_range key _ _ options _).finishes
  | ZCOUNT => exact finishes_args3 hm hp fun key min_ max_ _ => (reads_ZCOUNT key min_ max_).finishes
  | ZLEXCOUNT => exact finishes_args3 hm hp fun key min_ max_ _ => (reads_ZLEXCOUNT key min_ max_).finishes
  | ZREM => exact finishes_rest1 hm hp fun key vals hp => (atomic_ZREM hp.key hp.tail).finishes
  | ZREMRANGEBYRANK =>
    exact finishes_args3 hm hp fun key _ _ hp => finishes_int fun start _ => finishes_int fun stop _ =>
      (atomic_ZREMRANGEBYRANK start stop hp.key).finishes
  | ZREMRANGEBYSCORE => exact finishes_args3 hm hp fun key min_ max_ hp => (atomic_ZREMRANGEBYSCORE min_ max_ hp.key).finishes
  | ZREMRANGEBYLEX => exact finishes_args3 hm hp fun key min_ max_ hp => (atomic_ZREMRANGEBYLEX min_ max_ hp.key).finishes
  | ZSCAN => exact finishes_rest2 hm hp fun key cursor options _ => (reads_ZSCAN key cursor options).finishes
  | ZPOPMIN | ZPOPMAX => exact finishes_keyCount hm hp fun key _ hp count => (atomic_zpop count _ hp.key).finishes
  | ZRANDMEMBER => exact finishes_keyCountRest hm hp fun key _ _ count options => (reads_ZRANDMEMBER key count options).finishes
  | ZUNIONSTORE | ZINTERSTORE | ZDIFFSTORE =>
    exact finishes_rest2 hm hp fun dest _ rest hp => finishes_int fun n _ =>
      (atomic_zopStore _ _ _ _ n rest hp.key (hfirst hp rfl)).finishes
  | ZUNION | ZINTER | ZDIFF =>
    exact finishes_rest1 hm hp fun _ rest _ => finishes_int fun n _ => (reads_zopRead _ _ _ n rest).finishes

/-- What BITFIELD has written, it leaves; every other command finishes. -/
theorem ends_command {method : List Value → K F Reply} (hm : handler c = .keyspace method) {args : List Value}
    (hbytes : w.calm → AllBytes args) (hfree : ∀ key ∈ c.timed args, key ∈ w.free) : w.Ends (method args) := by
  have hbits : ∀ ro, handler c = Handler.rest1 (F := F) (_bitfield · · ro) → w.Ends (method args) := fun ro hc => by
    have hraise : ∀ e, w.Ends (.raise e : K F Reply) := fun e => (finishes_raise e).ends
    refine method_rest1 (P := fun args => w.calm → AllBytes args) hraise (hc.symm.trans hm) hbytes ?_
    intro key args h
    exact ends_bitfield (fun hc => h hc key List.mem_cons_self) args ro
  by_cases hc : c = .BITFIELD ∨ c = .BITFIELD_RO
  · rcases hc with rfl | rfl
    · exact hbits false rfl
    · exact hbits true rfl
  · exact (finishes_command hm ⟨hbytes, hfree, fun h => absurd h hc⟩).ends

end Watch

end Kagni
