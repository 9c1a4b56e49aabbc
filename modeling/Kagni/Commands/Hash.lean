import Kagni.Commands.Common

/-!
# Hash commands

`commands/hash.py`. A field with a deadline is purged by the first command that finds it expired; the hash is changed in place and
its key neither touched nor announced.
-/

namespace Kagni

open Lib

variable {F : Type}

/-- A stored hash. -/
abbrev Fields := Dict Value FieldEntry

/-- The value and the deadline of a stored entry. -/
def FieldEntry.parts : FieldEntry → Value × Option Int
  | .plain value => (value, none)
  | .timed value deadline => (value, some deadline)

/-- Whether an entry has expired at a wall-clock time. -/
def FieldEntry.expired (e : FieldEntry) (now : Int) : Bool := (e.parts.2.map fun d => decide (d ≤ now)).getD false

/-- `_put`. -/
def _put (cur : Fields) (field value : Value) (deadline : Option Int) : Fields :=
  cur.set field (match deadline with
    | none => .plain value
    | some d => .timed value d)

/-- `_hash`. -/
def _hash (key : Value) : K F (Option Fields) := do
  match ← expect_kind key .hash with
  | some (.hash fields) => return some fields
  | _ => return none

/-- The hash under `key` is changed in place. -/
def storeHash (key : Value) (cur : Fields) : K F Unit := store_value key (.hash cur)

/-- `_field`: the live value under a field, and the hash after the purge. A stored null is no value. -/
def _field (key : Value) (cur : Fields) (field : Value) : K F (Option (Value × Option Int) × Fields) := do
  needHash field
  match cur.get field with
  | none | some (.plain .null) => return (none, cur)
  | some e =>
    if e.expired (← clock).wall then
      storeHash key (cur.erase field)
      return (none, cur.erase field)
    else return (some e.parts, cur)

/-- `_live_pairs`: field, value and deadline, and the hash after the purge. -/
def _live_pairs (key : Value) (cur : Fields) : K F (List (Value × Value × Option Int) × Fields) := do
  let now := (← clock).wall
  let cur := cur.filter fun p => !p.2.expired now
  storeHash key cur
  return (cur.entries.map fun p => (p.1, p.2.parts), cur)

/-- `_drop_if_empty`. -/
def _drop_if_empty (key : Value) (cur : Fields) : K F Unit := do
  if cur.entries = [] then
    let _ ← data_remove key

/-- The hash under `key`, created when there is none. -/
def hashOrNew (key : Value) : K F Fields := do
  match ← _hash key with
  | some cur => return cur
  | none =>
    setitem key (.hash ∅)
    return ∅

/-! ## Writes -/

/-- The loop of `_hset_pairs`. -/
def hsetLoop (key : Value) : List Value → (cur : Fields) → (new_fields : Nat) → K F Nat
  | field :: value :: rest, cur, new_fields => do
    let (live, cur) ← _field key cur field
    storeHash key (_put cur field value none)
    hsetLoop key rest (_put cur field value none) (if live.isNone then new_fields + 1 else new_fields)
  | _, _, new_fields => pure new_fields

/-- `_hset_pairs`. -/
def _hset_pairs (key : Value) (field_values : List Value) : K F Nat := do
  let cur ← hashOrNew key
  let new_fields ← hsetLoop key field_values cur 0
  _after_write key .hset
  return new_fields

def HSET (key : Value) (field_values : List Value) : K F Reply := do
  if field_values.length < 2 ∨ field_values.length % 2 ≠ 0 then throw_ (.arity .HSET)
  return .int (← _hset_pairs key field_values)

def HMSET (key : Value) (field_values : List Value) : K F Reply := do
  if field_values.length < 2 ∨ field_values.length % 2 ≠ 0 then throw_ (.arity .HMSET)
  let _ ← _hset_pairs key field_values
  return .OK

def HSETNX (key field val : Value) : K F Reply := do
  match ← _hash key with
  | none =>
    setitem key (.hash ∅)
    needHash field
    storeHash key (_put ∅ field val none)
    _after_write key .hset
    return .int 1
  | some cur =>
    match ← _field key cur field with
    | (some _, _) => return .int 0
    | (none, cur) =>
      storeHash key (_put cur field val none)
      _after_write key .hset
      return .int 1

/-! ## Reads -/

/-- The live value of one field. -/
def fieldValue (key field : Value) : K F (Option Value) := do
  match ← _hash key with
  | none => return none
  | some cur => return (← _field key cur field).1.map Prod.fst

def HGET (key field : Value) : K F Reply := do return ((← fieldValue key field).map Reply.ofValue).getD .NIL

/-- The loop of HMGET. -/
def hmgetLoop (key : Value) : List Value → Fields → K F (List Reply)
  | [], _ => pure []
  | field :: rest, cur => do
    let (live, cur) ← _field key cur field
    let out ← hmgetLoop key rest cur
    return (live.map fun l => Reply.ofValue l.1).getD .NIL :: out

def HMGET (key : Value) (fields : List Value) : K F Reply := do
  if fields = [] then throw_ (.arity .HMGET)
  match ← _hash key with
  | none => return .list (fields.map fun _ => .NIL)
  | some cur => return .list (← hmgetLoop key fields cur)

def HEXISTS (key field : Value) : K F Reply := do return .int (if (← fieldValue key field).isSome then 1 else 0)

/-- The loop of HDEL: the hash that is left and the number removed. -/
def hdelLoop (key : Value) : List Value → (cur : Fields) → (removed : Nat) → K F (Fields × Nat)
  | [], cur, removed => pure (cur, removed)
  | field :: rest, cur, removed => do
    match ← _field key cur field with
    | (none, cur) => hdelLoop key rest cur removed
    | (some _, cur) =>
      storeHash key (cur.erase field)
      hdelLoop key rest (cur.erase field) (removed + 1)

def HDEL (key : Value) (fields : List Value) : K F Reply := do
  if fields = [] then throw_ (.arity .HDEL)
  match ← _hash key with
  | none => return .int 0
  | some cur =>
    let (cur, removed) ← hdelLoop key fields cur 0
    if removed ≠ 0 then _after_write key .hdel
    if cur.entries = [] then
      let _ ← data_remove key
      if removed ≠ 0 then _notify key .del
    return .int removed

/-- HLEN, HKEYS, HVALS and HGETALL: what they make of the live pairs; a hash with none left is dropped. -/
def hashRead (key : Value) (missing : Reply) (f : List (Value × Value × Option Int) → Reply) : K F Reply := do
  match ← _hash key with
  | none => return missing
  | some cur =>
    let (pairs, cur) ← _live_pairs key cur
    _drop_if_empty key cur
    return f pairs

def HLEN (key : Value) : K F Reply := hashRead key (.int 0) fun pairs => .int pairs.length

def HKEYS (key : Value) : K F Reply := hashRead key (.list []) fun pairs => .values (pairs.map (·.1))

def HVALS (key : Value) : K F Reply := hashRead key (.list []) fun pairs => .values (pairs.map (·.2.1))

def HGETALL (key : Value) : K F Reply := hashRead key (.list []) fun pairs => .values (pairs.flatMap fun p => [p.1, p.2.1])

def HSTRLEN (key field : Value) : K F Reply := do
  match ← fieldValue key field with
  | none => return .int 0
  | some (.bytes b) => return .int b.length
  | some (.array items) => return .int items.length
  | some _ => fail

def HSCAN (key cursor : Value) (options : List Value) : K F Reply := do
  let _ ← parse_scan_cursor cursor
  let pattern ← parse_scan_options none options
  let rgx ← compilePattern pattern
  match ← _hash key with
  | none => return .list [.bytes (bs "0"), .list []]
  | some cur =>
    let (pairs, cur) ← _live_pairs key cur
    let found ← filterM_ (fun p => patternMatches rgx p.1) pairs
    _drop_if_empty key cur
    return .list [.bytes (bs "0"), .values (found.flatMap fun p => [p.1, p.2.1])]

def HRANDFIELD (key : Value) (count : Option Int) (options : List Value) : K F Reply := do
  match count with
  | none =>
    if options ≠ [] then throw_ .SYNTAX
    match ← _hash key with
    | none => return .NIL
    | some cur =>
      let (pairs, cur) ← _live_pairs key cur
      _drop_if_empty key cur
      if pairs = [] then return .NIL
      return .ofValue (← choice pairs).1
  | some count =>
    flagOptions (bs "WITHVALUES") options
    match ← _hash key with
    | none => return .list []
    | some cur =>
      let (pairs, cur) ← _live_pairs key cur
      _drop_if_empty key cur
      if pairs = [] then return .list []
      let picked ← pick pairs count
      return .values (if options = [] then picked.map (·.1) else picked.flatMap fun p => [p.1, p.2.1])

/-! ## Counters -/

/-- The counter a stored field holds: `RE_NUMERIC.match` raises on what is not a byte string. -/
def fieldCounter (v : Value) : K F Int := do
  let raw ← asBytes v
  if RE_NUMERIC raw then orFail (pyInt raw) else throw_ .HASH_NOT_INT

def HINCRBY (key field : Value) (increment : Int) : K F Reply := do
  let cur ← hashOrNew key
  let (live, cur) ← _field key cur field
  let (current, deadline) ← (match live with
    | none => pure (0, none)
    | some (raw, deadline) => do return (← fieldCounter raw, deadline) : K F (Int × Option Int))
  let result := current + increment
  if result < INT64_MIN ∨ INT64_MAX < result then throw_ .OVERFLOW
  storeHash key (_put cur field (.bytes (decimal result)) deadline)
  _after_write key .hincrby
  return .int result

def HINCRBYFLOAT [PyFloat F] (key field increment : Value) : K F Reply := do
  let increment ← floatArg .NOT_FLOAT increment
  if !isfinite increment then throw_ .HASH_NAN_OR_INF
  let cur ← hashOrNew key
  let (live, cur) ← _field key cur field
  let (current, deadline) ← (match live with
    | none => pure (PyFloat.zero, none)
    | some (raw, deadline) => do return (← floatArg .HASH_NOT_FLOAT raw, deadline) : K F (F × Option Int))
  let result := PyFloat.add current increment
  if !isfinite result then throw_ .FLOAT_OVERFLOW
  let text := _format_float result
  storeHash key (_put cur field (.bytes text) deadline)
  _after_write key .hincrbyfloat
  return .bytes text

/-! ## Deadlines of fields -/

/-- `_FIELD_TTL_MAX_MS`. -/
def _FIELD_TTL_MAX_MS : Int := 2 ^ 46 - 1

/-- The flag of the HEXPIRE family: at most one of NX, XX, GT and LT. -/
inductive TtlFlag where
  | NX | XX | GT | LT
  deriving DecidableEq, Repr

/-- The flag an argument names. -/
def TtlFlag.ofName (opt : Bytes) : Option TtlFlag :=
  if opt = bs "NX" then some .NX
  else if opt = bs "XX" then some .XX
  else if opt = bs "GT" then some .GT
  else if opt = bs "LT" then some .LT
  else none

/-- The arguments up to FIELDS: the flag, and what follows FIELDS. -/
def ttlFlags (command : Cmd) (flag : Option TtlFlag) : List Value → K F (Option TtlFlag × List Value)
  | [] => throw_ (.arity command)
  | opt :: rest => do
    let opt ← upperArg opt
    if opt = bs "FIELDS" then return (flag, rest)
    else match TtlFlag.ofName opt, flag with
      | some f, none => ttlFlags command (some f) rest
      | _, _ => throw_ .fieldsMissing

/-- `numfields field ...`: the fields, as many as announced and nothing behind them. -/
def fieldList (command : Cmd) (notPositive : Errors) : List Value → K F (List Value)
  | [] => throw_ (.arity command)
  | n :: fields => do
    let numfields ← orThrow notPositive (toLL n)
    if numfields = 0 then throw_ (.arity command)
    if numfields < 0 then throw_ notPositive
    if (fields.length : Int) ≠ numfields then throw_ .numfieldsMatch
    return fields

/-- Whether a command of the HEXPIRE family takes an absolute time. -/
def hexpireAbsolute (command : Cmd) : Bool := command = .HEXPIREAT ∨ command = .HPEXPIREAT

/-- Whether it takes seconds. -/
def hexpireSeconds (command : Cmd) : Bool := command = .HEXPIRE ∨ command = .HEXPIREAT

/-- `_parse_field_ttl_args`: the time in milliseconds, the flag and the fields. -/
def _parse_field_ttl_args (command : Cmd) : List Value → K F (Int × Option TtlFlag × List Value)
  | [] => throw_ (.arity command)
  | time :: rest => do
    let when_ ← orThrow .NOT_INT (toLL time)
    if when_ < 0 then throw_ .fieldExpireNegative
    let when_ms := when_ * if hexpireSeconds command then 1000 else 1
    let now_ms := (← clock).wall / 10 ^ 6
    let ceiling := if hexpireAbsolute command then _FIELD_TTL_MAX_MS else _FIELD_TTL_MAX_MS - now_ms
    if when_ms > ceiling then throw_ (.expireTime command)
    let (flag, rest) ← ttlFlags command none rest
    let fields ← fieldList command .numFieldsText rest
    return (when_ms, flag, fields)

/-- Whether the flag lets the new deadline replace the current one. -/
def ttlAllowed (flag : Option TtlFlag) (deadline : Option Int) (new_deadline : Int) : Bool :=
  match flag, deadline with
  | none, _ => true
  | some .NX, deadline => deadline.isNone
  | some .XX, deadline => deadline.isSome
  | some .GT, some d => !decide (new_deadline ≤ d)
  | some .GT, none => true
  | some .LT, some d => !decide (new_deadline ≥ d)
  | some .LT, none => false

/-- The loop of `_hexpire`: the replies and the hash that is left. -/
def hexpireLoop (key : Value) (new_deadline : Int) (flag : Option TtlFlag) :
    List Value → (cur : Fields) → (out : List Int) → K F (List Int × Fields)
  | [], cur, out => pure (out, cur)
  | field :: rest, cur, out => do
    match ← _field key cur field with
    | (none, cur) => hexpireLoop key new_deadline flag rest cur (out ++ [-2])
    | (some (value, deadline), cur) =>
      if !ttlAllowed flag deadline new_deadline then hexpireLoop key new_deadline flag rest cur (out ++ [0])
      else if new_deadline ≤ (← clock).wall then
        storeHash key (cur.erase field)
        hexpireLoop key new_deadline flag rest (cur.erase field) (out ++ [2])
      else
        storeHash key (_put cur field value (some new_deadline))
        hexpireLoop key new_deadline flag rest (_put cur field value (some new_deadline)) (out ++ [1])

/-- `_hexpire`. -/
def _hexpire (command : Cmd) (key : Value) (args : List Value) : K F Reply := do
  let (when_ms, flag, fields) ← _parse_field_ttl_args command args
  match ← _hash key with
  | none => return .list (fields.map fun _ => .int (-2))
  | some cur =>
    let now := (← clock).wall
    let new_deadline := if hexpireAbsolute command then when_ms * 10 ^ 6 else now + when_ms * 10 ^ 6
    let (out, cur) ← hexpireLoop key new_deadline flag fields cur []
    if out.any fun r => r = 1 ∨ r = 2 then
      _after_write key .hexpire
      if cur.entries = [] then _notify key .del
    _drop_if_empty key cur
    return .list (out.map .int)

def HEXPIRE (key : Value) (args : List Value) : K F Reply := _hexpire .HEXPIRE key args

def HPEXPIRE (key : Value) (args : List Value) : K F Reply := _hexpire .HPEXPIRE key args

def HEXPIREAT (key : Value) (args : List Value) : K F Reply := _hexpire .HEXPIREAT key args

def HPEXPIREAT (key : Value) (args : List Value) : K F Reply := _hexpire .HPEXPIREAT key args

/-- What a command of the HTTL family does with a field that has a deadline: `none` removes it (HPERSIST), otherwise the reply is
computed from the deadline and the time. -/
abbrev TtlRead := Option (Int → Int → Int)

/-- The loop of `_hexpire_read`: the replies, the hash, and the number of deadlines removed. -/
def hexpireReadLoop (key : Value) (read : TtlRead) (now : Int) :
    List Value → (cur : Fields) → (out : List Int) → (persisted : Nat) → K F (List Int × Fields × Nat)
  | [], cur, out, persisted => pure (out, cur, persisted)
  | field :: rest, cur, out, persisted => do
    match ← _field key cur field with
    | (none, cur) => hexpireReadLoop key read now rest cur (out ++ [-2]) persisted
    | (some (_, none), cur) => hexpireReadLoop key read now rest cur (out ++ [-1]) persisted
    | (some (value, some deadline), cur) =>
      match read with
      | none =>
        storeHash key (_put cur field value none)
        hexpireReadLoop key read now rest (_put cur field value none) (out ++ [1]) (persisted + 1)
      | some f => hexpireReadLoop key read now rest cur (out ++ [f deadline now]) persisted

/-- `_hexpire_read`. A missing key answers -2 for every field, and then drops the key like an emptied hash. -/
def _hexpire_read (command : Cmd) (read : TtlRead) (key : Value) (args : List Value) : K F Reply := do
  if args.length < 2 then throw_ (.arity command)
  match args with
  | [] => throw_ (.arity command)
  | keyword :: rest =>
    if (← upperArg keyword) ≠ bs "FIELDS" then throw_ (.arity command)
    let fields ← fieldList command .numberOfFields rest
    match ← _hash key with
    | none =>
      let _ ← data_remove key
      return .list (fields.map fun _ => .int (-2))
    | some cur =>
      let (out, cur, persisted) ← hexpireReadLoop key read (← clock).wall fields cur [] 0
      if persisted ≠ 0 then _after_write key .hpersist
      _drop_if_empty key cur
      return .list (out.map .int)

/-- Milliseconds up to a deadline, rounded up. -/
def remainingMs (deadline now : Int) : Int := -((now - deadline) / 10 ^ 6)

def HTTL (key : Value) (args : List Value) : K F Reply :=
  _hexpire_read .HTTL (some fun deadline now => (remainingMs deadline now + 500) / 1000) key args

def HPTTL (key : Value) (args : List Value) : K F Reply := _hexpire_read .HPTTL (some remainingMs) key args

def HPERSIST (key : Value) (args : List Value) : K F Reply := _hexpire_read .HPERSIST none key args

def HEXPIRETIME (key : Value) (args : List Value) : K F Reply :=
  _hexpire_read .HEXPIRETIME (some fun deadline _ => deadline / 10 ^ 9) key args

def HPEXPIRETIME (key : Value) (args : List Value) : K F Reply :=
  _hexpire_read .HPEXPIRETIME (some fun deadline _ => deadline / 10 ^ 6) key args

end Kagni
