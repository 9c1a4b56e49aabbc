import Kagni.Value

/-!
# The registered commands

`Commands` inherits one method per command from seven mixins; the decorators give each its `command_name`, `min_args` and
`max_args`. MULTI, EXEC and DISCARD are not methods: the dispatcher handles them itself. The commands are listed in the method
resolution order of the class, the order `_command_table` walks them in.
-/

namespace Kagni

/-- A registered command. -/
inductive Cmd where
  -- commands/basic.py
  | WATCH | UNWATCH | PING | ECHO | COMMAND | TYPE | HELLO | CLIENT | CONFIG | INFO | SET | SETNX | SETEX | PSETEX
  | GET | GETDEL | GETEX | GETSET | MGET | MSET | MSETNX | DEL | EXPIRE | PEXPIRE | EXPIREAT | PEXPIREAT | PERSIST
  | EXPIRETIME | PEXPIRETIME | TTL | PTTL | KEYS | SCAN | EXISTS | TOUCH | DBSIZE | INCRBY | INCR | INCRBYFLOAT
  | DECRBY | DECR | LCS | SUBSTR | GETRANGE | SETRANGE | FLUSHDB | FLUSHALL | APPEND | STRLEN
  -- commands/set.py
  | SADD | SCARD | SMEMBERS | SREM | SDIFF | SDIFFSTORE | SINTER | SINTERCARD | SINTERSTORE | SSCAN | SMISMEMBER
  | SISMEMBER | SMOVE | SPOP | SRANDMEMBER | SUNION | SUNIONSTORE
  -- commands/bit.py
  | SETBIT | GETBIT | BITOP | BITCOUNT | BITPOS | BITFIELD | BITFIELD_RO
  -- commands/hash.py
  | HSET | HMSET | HSETNX | HGET | HMGET | HEXISTS | HDEL | HLEN | HKEYS | HVALS | HGETALL | HSTRLEN | HSCAN
  | HRANDFIELD | HINCRBY | HINCRBYFLOAT | HEXPIRE | HPEXPIRE | HEXPIREAT | HPEXPIREAT | HTTL | HPTTL | HPERSIST
  | HEXPIRETIME | HPEXPIRETIME
  -- commands/lists.py
  | LPUSH | RPUSH | LPUSHX | RPUSHX | LLEN | LRANGE | LINDEX | LPOP | RPOP | LSET | LTRIM | LREM | LINSERT | LMOVE
  | RPOPLPUSH | LMPOP | LPOS
  -- commands/zset.py
  | ZADD | ZINCRBY | ZCARD | ZSCORE | ZMSCORE | ZRANK | ZREVRANK | ZRANGE | ZREVRANGE | ZRANGEBYSCORE
  | ZREVRANGEBYSCORE | ZRANGEBYLEX | ZREVRANGEBYLEX | ZCOUNT | ZLEXCOUNT | ZREM | ZREMRANGEBYRANK | ZREMRANGEBYSCORE
  | ZREMRANGEBYLEX | ZSCAN | ZPOPMIN | ZPOPMAX | ZRANDMEMBER | ZUNIONSTORE | ZINTERSTORE | ZDIFFSTORE | ZUNION | ZINTER
  | ZDIFF
  -- commands/pubsub.py
  | SUBSCRIBE | UNSUBSCRIBE | PSUBSCRIBE | PUNSUBSCRIBE | PUBLISH | PUBSUB
  deriving DecidableEq, Repr

namespace Cmd

/-- `command_name`, which is also the name of the method. -/
def name : Cmd → Bytes
  | .WATCH => bs "WATCH"
  | .UNWATCH => bs "UNWATCH"
  | .PING => bs "PING"
  | .ECHO => bs "ECHO"
  | .COMMAND => bs "COMMAND"
  | .TYPE => bs "TYPE"
  | .HELLO => bs "HELLO"
  | .CLIENT => bs "CLIENT"
  | .CONFIG => bs "CONFIG"
  | .INFO => bs "INFO"
  | .SET => bs "SET"
  | .SETNX => bs "SETNX"
  | .SETEX => bs "SETEX"
  | .PSETEX => bs "PSETEX"
  | .GET => bs "GET"
  | .GETDEL => bs "GETDEL"
  | .GETEX => bs "GETEX"
  | .GETSET => bs "GETSET"
  | .MGET => bs "MGET"
  | .MSET => bs "MSET"
  | .MSETNX => bs "MSETNX"
  | .DEL => bs "DEL"
  | .EXPIRE => bs "EXPIRE"
  | .PEXPIRE => bs "PEXPIRE"
  | .EXPIREAT => bs "EXPIREAT"
  | .PEXPIREAT => bs "PEXPIREAT"
  | .PERSIST => bs "PERSIST"
  | .EXPIRETIME => bs "EXPIRETIME"
  | .PEXPIRETIME => bs "PEXPIRETIME"
  | .TTL => bs "TTL"
  | .PTTL => bs "PTTL"
  | .KEYS => bs "KEYS"
  | .SCAN => bs "SCAN"
  | .EXISTS => bs "EXISTS"
  | .TOUCH => bs "TOUCH"
  | .DBSIZE => bs "DBSIZE"
  | .INCRBY => bs "INCRBY"
  | .INCR => bs "INCR"
  | .INCRBYFLOAT => bs "INCRBYFLOAT"
  | .DECRBY => bs "DECRBY"
  | .DECR => bs "DECR"
  | .LCS => bs "LCS"
  | .SUBSTR => bs "SUBSTR"
  | .GETRANGE => bs "GETRANGE"
  | .SETRANGE => bs "SETRANGE"
  | .FLUSHDB => bs "FLUSHDB"
  | .FLUSHALL => bs "FLUSHALL"
  | .APPEND => bs "APPEND"
  | .STRLEN => bs "STRLEN"
  | .SADD => bs "SADD"
  | .SCARD => bs "SCARD"
  | .SMEMBERS => bs "SMEMBERS"
  | .SREM => bs "SREM"
  | .SDIFF => bs "SDIFF"
  | .SDIFFSTORE => bs "SDIFFSTORE"
  | .SINTER => bs "SINTER"
  | .SINTERCARD => bs "SINTERCARD"
  | .SINTERSTORE => bs "SINTERSTORE"
  | .SSCAN => bs "SSCAN"
  | .SMISMEMBER => bs "SMISMEMBER"
  | .SISMEMBER => bs "SISMEMBER"
  | .SMOVE => bs "SMOVE"
  | .SPOP => bs "SPOP"
  | .SRANDMEMBER => bs "SRANDMEMBER"
  | .SUNION => bs "SUNION"
  | .SUNIONSTORE => bs "SUNIONSTORE"
  | .SETBIT => bs "SETBIT"
  | .GETBIT => bs "GETBIT"
  | .BITOP => bs "BITOP"
  | .BITCOUNT => bs "BITCOUNT"
  | .BITPOS => bs "BITPOS"
  | .BITFIELD => bs "BITFIELD"
  | .BITFIELD_RO => bs "BITFIELD_RO"
  | .HSET => bs "HSET"
  | .HMSET => bs "HMSET"
  | .HSETNX => bs "HSETNX"
  | .HGET => bs "HGET"
  | .HMGET => bs "HMGET"
  | .HEXISTS => bs "HEXISTS"
  | .HDEL => bs "HDEL"
  | .HLEN => bs "HLEN"
  | .HKEYS => bs "HKEYS"
  | .HVALS => bs "HVALS"
  | .HGETALL => bs "HGETALL"
  | .HSTRLEN => bs "HSTRLEN"
  | .HSCAN => bs "HSCAN"
  | .HRANDFIELD => bs "HRANDFIELD"
  | .HINCRBY => bs "HINCRBY"
  | .HINCRBYFLOAT => bs "HINCRBYFLOAT"
  | .HEXPIRE => bs "HEXPIRE"
  | .HPEXPIRE => bs "HPEXPIRE"
  | .HEXPIREAT => bs "HEXPIREAT"
  | .HPEXPIREAT => bs "HPEXPIREAT"
  | .HTTL => bs "HTTL"
  | .HPTTL => bs "HPTTL"
  | .HPERSIST => bs "HPERSIST"
  | .HEXPIRETIME => bs "HEXPIRETIME"
  | .HPEXPIRETIME => bs "HPEXPIRETIME"
  | .LPUSH => bs "LPUSH"
  | .RPUSH => bs "RPUSH"
  | .LPUSHX => bs "LPUSHX"
  | .RPUSHX => bs "RPUSHX"
  | .LLEN => bs "LLEN"
  | .LRANGE => bs "LRANGE"
  | .LINDEX => bs "LINDEX"
  | .LPOP => bs "LPOP"
  | .RPOP => bs "RPOP"
  | .LSET => bs "LSET"
  | .LTRIM => bs "LTRIM"
  | .LREM => bs "LREM"
  | .LINSERT => bs "LINSERT"
  | .LMOVE => bs "LMOVE"
  | .RPOPLPUSH => bs "RPOPLPUSH"
  | .LMPOP => bs "LMPOP"
  | .LPOS => bs "LPOS"
  | .ZADD => bs "ZADD"
  | .ZINCRBY => bs "ZINCRBY"
  | .ZCARD => bs "ZCARD"
  | .ZSCORE => bs "ZSCORE"
  | .ZMSCORE => bs "ZMSCORE"
  | .ZRANK => bs "ZRANK"
  | .ZREVRANK => bs "ZREVRANK"
  | .ZRANGE => bs "ZRANGE"
  | .ZREVRANGE => bs "ZREVRANGE"
  | .ZRANGEBYSCORE => bs "ZRANGEBYSCORE"
  | .ZREVRANGEBYSCORE => bs "ZREVRANGEBYSCORE"
  | .ZRANGEBYLEX => bs "ZRANGEBYLEX"
  | .ZREVRANGEBYLEX => bs "ZREVRANGEBYLEX"
  | .ZCOUNT => bs "ZCOUNT"
  | .ZLEXCOUNT => bs "ZLEXCOUNT"
  | .ZREM => bs "ZREM"
  | .ZREMRANGEBYRANK => bs "ZREMRANGEBYRANK"
  | .ZREMRANGEBYSCORE => bs "ZREMRANGEBYSCORE"
  | .ZREMRANGEBYLEX => bs "ZREMRANGEBYLEX"
  | .ZSCAN => bs "ZSCAN"
  | .ZPOPMIN => bs "ZPOPMIN"
  | .ZPOPMAX => bs "ZPOPMAX"
  | .ZRANDMEMBER => bs "ZRANDMEMBER"
  | .ZUNIONSTORE => bs "ZUNIONSTORE"
  | .ZINTERSTORE => bs "ZINTERSTORE"
  | .ZDIFFSTORE => bs "ZDIFFSTORE"
  | .ZUNION => bs "ZUNION"
  | .ZINTER => bs "ZINTER"
  | .ZDIFF => bs "ZDIFF"
  | .SUBSCRIBE => bs "SUBSCRIBE"
  | .UNSUBSCRIBE => bs "UNSUBSCRIBE"
  | .PSUBSCRIBE => bs "PSUBSCRIBE"
  | .PUNSUBSCRIBE => bs "PUNSUBSCRIBE"
  | .PUBLISH => bs "PUBLISH"
  | .PUBSUB => bs "PUBSUB"

/-- The name in lower case, as the error texts and the command tables spell it. -/
def lower (c : Cmd) : Text := Kagni.lower c.name

/-- Every command, in the order of the class. -/
def all : List Cmd :=
  [.WATCH, .UNWATCH, .PING, .ECHO, .COMMAND, .TYPE, .HELLO, .CLIENT, .CONFIG, .INFO, .SET, .SETNX, .SETEX, .PSETEX,
    .GET, .GETDEL, .GETEX, .GETSET, .MGET, .MSET, .MSETNX, .DEL, .EXPIRE, .PEXPIRE, .EXPIREAT, .PEXPIREAT, .PERSIST,
    .EXPIRETIME, .PEXPIRETIME, .TTL, .PTTL, .KEYS, .SCAN, .EXISTS, .TOUCH, .DBSIZE, .INCRBY, .INCR, .INCRBYFLOAT,
    .DECRBY, .DECR, .LCS, .SUBSTR, .GETRANGE, .SETRANGE, .FLUSHDB, .FLUSHALL, .APPEND, .STRLEN, .SADD, .SCARD,
    .SMEMBERS, .SREM, .SDIFF, .SDIFFSTORE, .SINTER, .SINTERCARD, .SINTERSTORE, .SSCAN, .SMISMEMBER, .SISMEMBER, .SMOVE,
    .SPOP, .SRANDMEMBER, .SUNION, .SUNIONSTORE, .SETBIT, .GETBIT, .BITOP, .BITCOUNT, .BITPOS, .BITFIELD, .BITFIELD_RO,
    .HSET, .HMSET, .HSETNX, .HGET, .HMGET, .HEXISTS, .HDEL, .HLEN, .HKEYS, .HVALS, .HGETALL, .HSTRLEN, .HSCAN,
    .HRANDFIELD, .HINCRBY, .HINCRBYFLOAT, .HEXPIRE, .HPEXPIRE, .HEXPIREAT, .HPEXPIREAT, .HTTL, .HPTTL, .HPERSIST,
    .HEXPIRETIME, .HPEXPIRETIME, .LPUSH, .RPUSH, .LPUSHX, .RPUSHX, .LLEN, .LRANGE, .LINDEX, .LPOP, .RPOP, .LSET,
    .LTRIM, .LREM, .LINSERT, .LMOVE, .RPOPLPUSH, .LMPOP, .LPOS, .ZADD, .ZINCRBY, .ZCARD, .ZSCORE, .ZMSCORE, .ZRANK,
    .ZREVRANK, .ZRANGE, .ZREVRANGE, .ZRANGEBYSCORE, .ZREVRANGEBYSCORE, .ZRANGEBYLEX, .ZREVRANGEBYLEX, .ZCOUNT,
    .ZLEXCOUNT, .ZREM, .ZREMRANGEBYRANK, .ZREMRANGEBYSCORE, .ZREMRANGEBYLEX, .ZSCAN, .ZPOPMIN, .ZPOPMAX, .ZRANDMEMBER,
    .ZUNIONSTORE, .ZINTERSTORE, .ZDIFFSTORE, .ZUNION, .ZINTER, .ZDIFF, .SUBSCRIBE, .UNSUBSCRIBE, .PSUBSCRIBE,
    .PUNSUBSCRIBE, .PUBLISH, .PUBSUB]

/-- `min_args`: the parameters without a default. -/
def minArgs : Cmd → Nat
  | .LINSERT | .LMOVE => 4
  | .UNWATCH | .PING | .COMMAND | .HELLO | .CLIENT | .CONFIG | .INFO | .MGET | .MSET | .MSETNX | .DEL | .EXISTS
  | .TOUCH | .DBSIZE | .FLUSHDB | .FLUSHALL | .SDIFF | .SINTER | .SUNION | .UNSUBSCRIBE | .PUNSUBSCRIBE => 0
  | .SETEX | .PSETEX | .SUBSTR | .GETRANGE | .SETRANGE | .SMOVE | .SETBIT | .HSETNX | .HINCRBY | .HINCRBYFLOAT
  | .LRANGE | .LSET | .LTRIM | .LREM | .ZINCRBY | .ZRANGE | .ZREVRANGE | .ZRANGEBYSCORE | .ZREVRANGEBYSCORE
  | .ZRANGEBYLEX | .ZREVRANGEBYLEX | .ZCOUNT | .ZLEXCOUNT | .ZREMRANGEBYRANK | .ZREMRANGEBYSCORE | .ZREMRANGEBYLEX => 3
  | .SET | .SETNX | .GETSET | .EXPIRE | .PEXPIRE | .EXPIREAT | .PEXPIREAT | .INCRBY | .INCRBYFLOAT | .DECRBY | .LCS
  | .APPEND | .SSCAN | .SISMEMBER | .GETBIT | .BITOP | .BITPOS | .HGET | .HEXISTS | .HSTRLEN | .HSCAN | .LINDEX
  | .RPOPLPUSH | .LPOS | .ZSCORE | .ZRANK | .ZREVRANK | .ZSCAN | .ZUNIONSTORE | .ZINTERSTORE | .ZDIFFSTORE | .PUBLISH => 2
  | _ => 1

/-- `max_args`: `none` for a variadic command. -/
def maxArgs : Cmd → Option Nat
  | .LINSERT | .LMOVE => some 4
  | .DBSIZE | .FLUSHDB | .FLUSHALL => some 0
  | .SETEX | .PSETEX | .SUBSTR | .GETRANGE | .SETRANGE | .SMOVE | .SETBIT | .HSETNX | .HINCRBY | .HINCRBYFLOAT
  | .LRANGE | .LSET | .LTRIM | .LREM | .ZINCRBY | .ZCOUNT | .ZLEXCOUNT | .ZREMRANGEBYRANK | .ZREMRANGEBYSCORE
  | .ZREMRANGEBYLEX => some 3
  | .PING | .ECHO | .TYPE | .GET | .GETDEL | .PERSIST | .EXPIRETIME | .PEXPIRETIME | .TTL | .PTTL | .KEYS | .INCR
  | .DECR | .STRLEN | .SCARD | .SMEMBERS | .BITCOUNT | .HLEN | .HKEYS | .HVALS | .HGETALL | .LLEN | .ZCARD => some 1
  | .SETNX | .GETSET | .EXPIRE | .PEXPIRE | .EXPIREAT | .PEXPIREAT | .INCRBY | .INCRBYFLOAT | .DECRBY | .APPEND
  | .SISMEMBER | .SPOP | .SRANDMEMBER | .GETBIT | .BITPOS | .HGET | .HEXISTS | .HSTRLEN | .LINDEX | .LPOP | .RPOP
  | .RPOPLPUSH | .ZSCORE | .ZPOPMIN | .ZPOPMAX => some 2
  | _ => none

/-- `write` or `readonly`, as COMMAND reports it; neither for the others. -/
def accessFlag : Cmd → Option Bytes
  | .SET | .SETNX | .SETEX | .PSETEX | .GETDEL | .GETEX | .GETSET | .MSET | .MSETNX | .DEL | .EXPIRE | .PEXPIRE
  | .EXPIREAT | .PEXPIREAT | .PERSIST | .INCRBY | .INCR | .INCRBYFLOAT | .DECRBY | .DECR | .SETRANGE | .FLUSHDB
  | .FLUSHALL | .APPEND | .SADD | .SREM | .SDIFFSTORE | .SINTERSTORE | .SMOVE | .SPOP | .SUNIONSTORE | .SETBIT
  | .BITOP | .BITFIELD | .HSET | .HMSET | .HSETNX | .HDEL | .HINCRBY | .HINCRBYFLOAT | .HEXPIRE | .HPEXPIRE
  | .HEXPIREAT | .HPEXPIREAT | .HPERSIST | .LPUSH | .RPUSH | .LPUSHX | .RPUSHX | .LPOP | .RPOP | .LSET | .LTRIM
  | .LREM | .LINSERT | .LMOVE | .RPOPLPUSH | .LMPOP | .ZADD | .ZINCRBY | .ZREM | .ZREMRANGEBYRANK | .ZREMRANGEBYSCORE
  | .ZREMRANGEBYLEX | .ZPOPMIN | .ZPOPMAX | .ZUNIONSTORE | .ZINTERSTORE | .ZDIFFSTORE => some (bs "write")
  | .ECHO | .COMMAND | .TYPE | .CONFIG | .INFO | .GET | .MGET | .EXPIRETIME | .PEXPIRETIME | .TTL | .PTTL | .KEYS
  | .SCAN | .EXISTS | .TOUCH | .DBSIZE | .LCS | .SUBSTR | .GETRANGE | .STRLEN | .SCARD | .SMEMBERS | .SDIFF | .SINTER
  | .SINTERCARD | .SSCAN | .SMISMEMBER | .SISMEMBER | .SRANDMEMBER | .SUNION | .GETBIT | .BITCOUNT | .BITPOS
  | .BITFIELD_RO | .HGET | .HMGET | .HEXISTS | .HLEN | .HKEYS | .HVALS | .HGETALL | .HSTRLEN | .HSCAN | .HRANDFIELD
  | .HTTL | .HPTTL | .HEXPIRETIME | .HPEXPIRETIME | .LLEN | .LRANGE | .LINDEX | .LPOS | .ZCARD | .ZSCORE | .ZMSCORE
  | .ZRANK | .ZREVRANK | .ZRANGE | .ZREVRANGE | .ZRANGEBYSCORE | .ZREVRANGEBYSCORE | .ZRANGEBYLEX | .ZREVRANGEBYLEX
  | .ZCOUNT | .ZLEXCOUNT | .ZSCAN | .ZRANDMEMBER | .ZUNION | .ZINTER | .ZDIFF | .SUBSCRIBE | .UNSUBSCRIBE
  | .PSUBSCRIBE | .PUNSUBSCRIBE | .PUBLISH | .PUBSUB => some (bs "readonly")
  | _ => none

/-- The flags COMMAND reports. -/
def flags (c : Cmd) : List Bytes :=
  c.accessFlag.toList ++ if c = .FLUSHALL ∨ c = .FLUSHDB ∨ c = .CONFIG then [bs "admin"] else []

/-- The group COMMAND DOCS reports. -/
def group : Cmd → Bytes
  | .PING | .ECHO | .CLIENT => bs "connection"
  | .COMMAND | .CONFIG | .INFO | .FLUSHDB | .FLUSHALL => bs "server"
  | .SET | .SETNX | .SETEX | .PSETEX | .GET | .GETDEL | .GETEX | .GETSET | .MGET | .MSET | .MSETNX | .INCRBY | .INCR
  | .INCRBYFLOAT | .DECRBY | .DECR | .SUBSTR | .GETRANGE | .SETRANGE | .APPEND | .STRLEN => bs "string"
  | .SADD | .SCARD | .SMEMBERS | .SREM | .SDIFF | .SDIFFSTORE | .SINTER | .SINTERSTORE | .SMISMEMBER | .SISMEMBER
  | .SMOVE | .SPOP | .SRANDMEMBER | .SUNION | .SUNIONSTORE => bs "set"
  | .SETBIT | .GETBIT | .BITOP | .BITCOUNT | .BITPOS => bs "bitmap"
  | .HSET | .HMSET | .HSETNX | .HGET | .HMGET | .HEXISTS | .HDEL | .HLEN | .HKEYS | .HVALS | .HGETALL | .HSTRLEN
  | .HINCRBY | .HINCRBYFLOAT | .HEXPIRE | .HPEXPIRE | .HEXPIREAT | .HPEXPIREAT | .HTTL | .HPTTL | .HPERSIST
  | .HEXPIRETIME | .HPEXPIRETIME => bs "hash"
  | .LPUSH | .RPUSH | .LPUSHX | .RPUSHX | .LLEN | .LRANGE | .LINDEX | .LPOP | .RPOP | .LSET | .LTRIM | .LREM
  | .LINSERT | .LMOVE | .RPOPLPUSH | .LMPOP | .LPOS => bs "list"
  | .ZADD | .ZINCRBY | .ZCARD | .ZSCORE | .ZMSCORE | .ZRANK | .ZREVRANK | .ZRANGE | .ZREVRANGE | .ZRANGEBYSCORE
  | .ZREVRANGEBYSCORE | .ZRANGEBYLEX | .ZREVRANGEBYLEX | .ZCOUNT | .ZLEXCOUNT | .ZREM | .ZREMRANGEBYRANK
  | .ZREMRANGEBYSCORE | .ZREMRANGEBYLEX | .ZPOPMIN | .ZPOPMAX | .ZRANDMEMBER | .ZUNIONSTORE | .ZINTERSTORE
  | .ZDIFFSTORE | .ZUNION | .ZINTER | .ZDIFF => bs "sorted-set"
  | .SUBSCRIBE | .UNSUBSCRIBE | .PSUBSCRIBE | .PUNSUBSCRIBE | .PUBLISH | .PUBSUB => bs "pubsub"
  | _ => bs "generic"

/-- `getattr(self, name, None)`: the command of that name. -/
def ofName (name : Text) : Option Cmd := all.find? fun c => decide (c.name = name)

/-- The arity check: the number of arguments is one the method takes. -/
def Accepts (c : Cmd) (n : Nat) : Prop := c.minArgs ≤ n ∧ ∀ m, c.maxArgs = some m → n ≤ m

instance (c : Cmd) (n : Nat) : Decidable (c.Accepts n) :=
  decidable_of_iff (c.minArgs ≤ n ∧ c.maxArgs.all (fun m => decide (n ≤ m)) = true) (by
    unfold Accepts
    cases c.maxArgs <;> simp)

end Cmd

end Kagni
