import Kagni.Discipline

/-!
# The footprint of a command

Which effects a keyspace command has, read off its arguments: the keys it looks up, those whose fields it looks at, those it
overwrites or removes without having looked them up, those it may create, what it may store, and whether it looks at every
key. What raises before it is stored is left out: a list has no hash, so it is no key, field or member, and what has no length
is no string.
-/

namespace Kagni

/-- A method of strings that starts with the size guard raises on a value without a length. -/
def Value.sized : Value → Bool
  | .bytes _ | .array _ => true
  | _ => false

/-- The argument is a byte string that reads `name` in upper case. -/
def Value.names (v : Value) (name : Bytes) : Bool :=
  match v with
  | .bytes b => decide (upper b = name)
  | _ => false

/-- Whether the options of SET ask for the old value: an option with a value takes the next argument. -/
def setGets : List Value → Bool
  | [] => false
  | [opt] => opt.names (bs "GET")
  | opt :: raw :: rest =>
    if opt.names (bs "GET") then true
    else if opt.names (bs "EX") || opt.names (bs "PX") || opt.names (bs "EXAT") || opt.names (bs "PXAT") then setGets rest
    else setGets (raw :: rest)

/-- A flag of ZADD. -/
def zaddFlag (v : Value) : Bool :=
  v.names (bs "NX") || v.names (bs "XX") || v.names (bs "GT") || v.names (bs "LT") || v.names (bs "CH") || v.names (bs "INCR")

/-- `numkeys key ...`: the keys announced. -/
def counted : List Value → List Value
  | [] => []
  | n :: rest => rest.take ((toLL n).getD 0).toNat

namespace Cmd

/-- The keys a command looks up. -/
def looked (c : Cmd) (args : List Value) : List Value :=
  match c with
  | .MGET | .EXISTS | .TOUCH | .DEL | .SDIFF | .SINTER | .SUNION => args
  | .MSETNX => (pairsOf args).map Prod.fst
  | .SDIFFSTORE | .SINTERSTORE | .SUNIONSTORE => args.tail
  | .BITOP => args.drop 2
  | .LCS | .SMOVE | .LMOVE | .RPOPLPUSH => args.take 2
  | .SINTERCARD | .LMPOP | .ZUNION | .ZINTER | .ZDIFF => counted args
  | .ZUNIONSTORE | .ZINTERSTORE | .ZDIFFSTORE => counted args.tail
  | .MSET | .SETEX | .PSETEX | .PING | .ECHO | .HELLO | .INFO | .KEYS | .SCAN | .DBSIZE => []
  | _ => args.take 1

/-- The keys of the hashes whose fields it looks at. -/
def opened (c : Cmd) (args : List Value) : List Value :=
  match c with
  | .HSET | .HMSET | .HSETNX | .HGET | .HMGET | .HEXISTS | .HDEL | .HLEN | .HKEYS | .HVALS | .HGETALL | .HSTRLEN | .HSCAN
  | .HRANDFIELD | .HINCRBY | .HINCRBYFLOAT | .HEXPIRE | .HPEXPIRE | .HEXPIREAT | .HPEXPIREAT | .HTTL | .HPTTL | .HPERSIST
  | .HEXPIRETIME | .HPEXPIRETIME => args.take 1
  | _ => []

/-- The keys it overwrites or removes without having looked them up. -/
def replaced (c : Cmd) (args : List Value) : List Value :=
  match c with
  | .SET => if setGets (args.drop 2) then [] else args.take 1
  | .SETNX | .SETEX | .PSETEX | .PERSIST => args.take 1
  | .MSET | .MSETNX => (pairsOf args).map Prod.fst
  | .DEL => args
  | .SDIFFSTORE | .SINTERSTORE | .SUNIONSTORE => (args.take 1).filter fun key => decide (key ∉ args.tail)
  | .BITOP => ((args.drop 1).take 1).filter fun key => decide (key ∉ args.drop 2)
  | .ZUNIONSTORE | .ZINTERSTORE | .ZDIFFSTORE => (args.take 1).filter fun key => decide (key ∉ counted args.tail)
  | _ => []

/-- The keys it may store something under. -/
def created (c : Cmd) (args : List Value) : List Value :=
  match c with
  | .SET | .SETNX | .SETEX | .PSETEX | .GETSET | .INCRBY | .INCR | .INCRBYFLOAT | .DECRBY | .DECR | .SETRANGE | .APPEND | .SADD
  | .SDIFFSTORE | .SINTERSTORE | .SUNIONSTORE | .SETBIT | .BITFIELD | .HSET | .HMSET | .HSETNX | .HINCRBY | .HINCRBYFLOAT | .LPUSH
  | .RPUSH | .ZADD | .ZINCRBY | .ZUNIONSTORE | .ZINTERSTORE | .ZDIFFSTORE => args.take 1
  | .MSET | .MSETNX => (pairsOf args).map Prod.fst
  | .BITOP | .SMOVE | .LMOVE | .RPOPLPUSH => (args.drop 1).take 1
  | _ => []

/-- What it may store as the value of a string. -/
def valued (c : Cmd) (args : List Value) : List Value :=
  match c with
  | .SET | .SETNX | .GETSET => ((args.drop 1).take 1).filter Value.sized
  | .MSET | .MSETNX => ((pairsOf args).map Prod.snd).filter Value.sized
  | .SETEX | .PSETEX => (args.drop 2).take 1
  | _ => []

/-- What it may make an item, a member, a field or the value of a field. -/
def stored (c : Cmd) (args : List Value) : List Value :=
  match c with
  | .LSET => (args.drop 2).take 1
  | .SADD => args.tail.filter Value.hashable
  | .LPUSH | .RPUSH | .LPUSHX | .RPUSHX => args.tail
  | .LINSERT => args.drop 3
  | .ZADD => ((pairsOf (args.tail.dropWhile zaddFlag)).map Prod.snd).filter Value.hashable
  | .ZINCRBY => (args.drop 2).filter Value.hashable
  | .HSET | .HMSET | .HSETNX => ((pairsOf args.tail).filter fun p => p.1.hashable).flatMap fun p => [p.1, p.2]
  | .HINCRBY | .HINCRBYFLOAT => ((args.drop 1).take 1).filter Value.hashable
  | _ => []

/-- Whether it looks at every key. -/
def scans (c : Cmd) : Bool := c = .KEYS ∨ c = .SCAN ∨ c = .DBSIZE ∨ c = .INFO

/-- Whether it may store something with a deadline that has passed: SET may, with an absolute deadline. -/
def ages (c : Cmd) (args : List Value) : Bool := c = .SET ∧ args.any fun v => v.names (bs "EXAT") || v.names (bs "PXAT")

/-- Whether it may leave a list, a set or a sorted set empty, if only until it drops the key. -/
def drains (c : Cmd) : Bool :=
  match c with
  | .SREM | .SMOVE | .SPOP | .LPOP | .RPOP | .LMOVE | .RPOPLPUSH | .LMPOP | .ZADD | .ZINCRBY | .ZREM | .ZREMRANGEBYRANK
  | .ZREMRANGEBYSCORE | .ZREMRANGEBYLEX | .ZPOPMIN | .ZPOPMAX => true
  | _ => false

end Cmd

/-- Everything in the footprint of the command is permitted. -/
structure Discipline.Allows (d : Discipline) (c : Cmd) (args : List Value) : Prop where
  look : ∀ key ∈ c.looked args, d.permits (.look key)
  fields : ∀ key ∈ c.opened args, d.permits (.fields key)
  replace : ∀ key ∈ c.replaced args, d.permits (.replace key)
  create : ∀ key ∈ c.created args, key.hashable = true → d.permits (.create key)
  store : ∀ v ∈ c.stored args, d.permits (.store v)
  value : ∀ v ∈ c.valued args, d.permits (.value v)
  scan : c.scans = true → d.permits .scan
  past : c.ages args = true → d.permits .past
  empty : c.drains = true → ¬d.nonempty

end Kagni
