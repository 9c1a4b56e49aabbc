import Kagni.Commands.Common

/-!
# Strings, expiry and the keyspace

The keyspace commands of `commands/basic.py`. FLUSHDB and FLUSHALL reach the persisted snapshot, WATCH and UNWATCH the session,
CONFIG the notification flags, and COMMAND and CLIENT quote their arguments: these are commands of the server.
-/

namespace Kagni

open Lib

variable {F : Type}

/-- `MAX_STRING_SIZE`. -/
def MAX_STRING_SIZE : Nat := 512 * 1024 * 1024

/-- `len(v)` of an argument: a byte string or a list has one. -/
def pyLen : Value → K F Nat
  | .bytes b => pure b.length
  | .array items => pure items.length
  | _ => fail

/-- The size guard of a stored value. -/
def checkSize (v : Value) : K F Unit := do
  if (← pyLen v) > MAX_STRING_SIZE then throw_ .STRING_OVERFLOW

/-- `_string`. -/
def _string (key : Value) : K F (Option Bytes) := do
  match ← expect_kind key .string with
  | some (.raw (.bytes b)) => return some b
  | _ => return none

/-- A string or nil. -/
def bytesOrNil (v : Option Bytes) : Reply := (v.map Reply.bytes).getD .NIL

/-! ## Expiry options -/

/-- `EX`, `PX`, `EXAT` and `PXAT`. -/
inductive TtlUnit where
  | EX | PX | EXAT | PXAT
  deriving DecidableEq, Repr

/-- The unit an option names. -/
def TtlUnit.ofName (opt : Bytes) : Option TtlUnit :=
  if opt = bs "EX" then some .EX
  else if opt = bs "PX" then some .PX
  else if opt = bs "EXAT" then some .EXAT
  else if opt = bs "PXAT" then some .PXAT
  else none

/-- What `_parse_extended_options` returns: the flags, the unit and its value. -/
structure ExtendedOptions where
  nx : Bool
  xx : Bool
  get : Bool
  keepttl : Bool
  persist : Bool
  ttl : Option (TtlUnit × Value)

/-- No options. -/
def ExtendedOptions.none : ExtendedOptions := ⟨false, false, false, false, false, .none⟩

/-- `_parse_extended_options`. -/
def _parse_extended_options (is_set : Bool) (o : ExtendedOptions) : List Value → K F ExtendedOptions
  | [] => pure o
  | opt :: rest => do
    let opt ← upperArg opt
    if opt = bs "NX" ∧ is_set ∧ !o.xx then _parse_extended_options is_set { o with nx := true } rest
    else if opt = bs "XX" ∧ is_set ∧ !o.nx then _parse_extended_options is_set { o with xx := true } rest
    else if opt = bs "GET" ∧ is_set then _parse_extended_options is_set { o with get := true } rest
    else if opt = bs "KEEPTTL" ∧ is_set ∧ !o.persist ∧ o.ttl.isNone then
      _parse_extended_options is_set { o with keepttl := true } rest
    else if opt = bs "PERSIST" ∧ !is_set ∧ !o.keepttl ∧ o.ttl.isNone then
      _parse_extended_options is_set { o with persist := true } rest
    else match TtlUnit.ofName opt, rest with
      | some unit, raw :: rest =>
        if !o.keepttl ∧ !o.persist ∧ o.ttl.all (fun t => t.1 = unit) then
          _parse_extended_options is_set { o with ttl := some (unit, raw) } rest
        else throw_ .SYNTAX
      | _, _ => throw_ .SYNTAX

/-- `_expire_wall_deadline`: nanoseconds of the wall clock. -/
def _expire_wall_deadline (command : Cmd) (unit : TtlUnit) (raw : Value) : K F Int := do
  let value ← orThrow .NOT_INT (toLL raw)
  if value ≤ 0 then throw_ (.expireTime command)
  if (unit = .EX ∨ unit = .EXAT) ∧ value > (2 ^ 63 - 1) / 1000 then throw_ (.expireTime command)
  let now_ms := (← clock).wall / 1000000
  let ms := match unit with
    | .EX => value * 1000 + now_ms
    | .PX => value + now_ms
    | .EXAT => value * 1000
    | .PXAT => value
  return ms * 1000000

/-! ## Connection commands without a session -/

def PING (message : Option Value) : K F Reply :=
  match message with
  | none | some .null => pure (.response .PONG)
  | some m => pure (.ofValue m)

def ECHO (message : Value) : K F Reply := pure (.ofValue message)

/-- The name TYPE has for a kind. -/
def TYPE_NAMES : Kind → TypeName
  | .string => .string
  | .list => .list
  | .hash => .hash
  | .set => .set
  | .zset => .zset
  | .bitmap => .string

def TYPE (key : Value) : K F Reply := do
  match ← data_get key with
  | none => return .simple .none
  | some obj => return .simple (((kind_of obj).map TYPE_NAMES).getD .none)

/-- The arguments of HELLO: the protocol version. -/
def helloArgs (proto : Int) : List Value → K F Int
  | [] => pure proto
  | arg :: rest => do
    let opt ← upperArg arg
    if opt = bs "AUTH" then if rest.length < 2 then throw_ .SYNTAX else throw_ .helloAuth
    else if opt = bs "SETNAME" then
      match rest with
      | [] => throw_ .SYNTAX
      | _ :: rest => helloArgs proto rest
    else
      let proto ← orThrow .NOT_INT (toLL arg)
      helloArgs proto rest

def HELLO (args : List Value) : K F Reply := do
  let proto ← helloArgs 2 args
  if proto ≠ 2 then throw_ .noproto
  return .list [.bytes (bs "server"), .bytes (bs "redis"), .bytes (bs "version"), .bytes (bs "7.4.0"), .bytes (bs "proto"),
    .int 2, .bytes (bs "id"), .int 1, .bytes (bs "mode"), .bytes (bs "standalone"), .bytes (bs "role"),
    .bytes (bs "master"), .bytes (bs "modules"), .list []]

/-- The sections INFO wants: server and keyspace. -/
def infoSections (wanted : Bool × Bool) : List Value → K F (Bool × Bool)
  | [] => pure wanted
  | s :: rest => do
    let s := lower (← asBytes s)
    if s = bs "all" ∨ s = bs "default" ∨ s = bs "everything" ∨ s = [] then infoSections (true, true) rest
    else if s = bs "server" then infoSections (true, wanted.2) rest
    else if s = bs "keyspace" then infoSections (wanted.1, true) rest
    else infoSections wanted rest

/-- The keyspace block of INFO. -/
def infoKeyspace : K F Text := do
  let (keys, expires, avg_ttl) ← keyspace_stats
  return bs "# Keyspace\r\n" ++ if keys = 0 then [] else
    bs "db0:keys=" ++ decimalNat keys ++ bs ",expires=" ++ decimalNat expires ++ bs ",avg_ttl=" ++ decimal avg_ttl ++
      SYM_CRLF

def INFO (sections : List Value) : K F Reply := do
  let (server, keyspace) ← infoSections (false, false) (if sections = [] then [.bytes (bs "default")] else sections)
  let ctx ← Prog.ask
  let head := if server then [ctx.env.serverInfo ctx.clock ctx.tcp_port] else []
  let blocks ← (if keyspace then do return head ++ [← infoKeyspace] else pure head : K F (List Text))
  return .bytes (SYM_CRLF.intercalate blocks)

/-! ## Strings -/

def SET (key val : Value) (options : List Value) : K F Reply := do
  let o ← _parse_extended_options true .none options
  let deadline ← (match o.ttl with
    | none => pure none
    | some (unit, raw) => do return some (← _expire_wall_deadline .SET unit raw) : K F (Option Int))
  let old ← (if o.get then _string key else pure none : K F (Option Bytes))
  let found ← is_live key
  if (o.nx ∧ found) ∨ (o.xx ∧ !found) then return bytesOrNil old
  checkSize val
  data_set key (.raw val) deadline o.keepttl
  _after_write key .set
  if deadline.isSome then _notify key .expire
  return (old.map Reply.bytes).getD (if o.get then .NIL else .OK)

def SETNX (key val : Value) : K F Reply := do
  if ← is_live key then return .int 0
  checkSize val
  data_set key (.raw val) none false
  _after_write key .set
  return .int 1

/-- SETEX and PSETEX. -/
def setWithTtl (command : Cmd) (unit : TtlUnit) (key : Value) (n : Int) (val : Value) : K F Reply := do
  let deadline ← _expire_wall_deadline command unit (.bytes (decimal n))
  data_set key (.raw val) (some deadline) false
  _after_write key .set
  _notify key .expire
  return .OK

def SETEX (key : Value) (secs : Int) (val : Value) : K F Reply := setWithTtl .SETEX .EX key secs val

def PSETEX (key : Value) (ms : Int) (val : Value) : K F Reply := setWithTtl .PSETEX .PX key ms val

def GET (key : Value) : K F Reply := do return bytesOrNil (← _string key)

def GETDEL (key : Value) : K F Reply := do
  match ← _string key with
  | none => return .NIL
  | some val =>
    let _ ← data_remove key
    _after_write key .del
    return .bytes val

def GETEX (key : Value) (options : List Value) : K F Reply := do
  let o ← _parse_extended_options false .none options
  match ← _string key with
  | none => return .NIL
  | some val =>
    if o.persist then
      let _ ← persist key
      _after_write key .persist
    else
      match o.ttl with
      | none => pure ()
      | some (unit, raw) =>
        let deadline ← _expire_wall_deadline .GETEX unit raw
        if deadline ≤ (← clock).wall then
          let _ ← data_remove key
          _after_write key .del
        else
          data_set key (.raw (.bytes val)) (some deadline) false
          _after_write key .expire
    return .bytes val

def GETSET (key val : Value) : K F Reply := do
  let retval ← _string key
  checkSize val
  setitem key (.raw val)
  _after_write key .set
  return bytesOrNil retval

def MGET (keys : List Value) : K F Reply := do
  if keys = [] then throw_ (.arity .MGET)
  return .list (← mapM_ (fun key => do return bytesOrNil (← _string key)) keys)

/-- `zip(args[::2], args[1::2])`. -/
def pairsOf : List Value → List (Value × Value)
  | key :: val :: rest => (key, val) :: pairsOf rest
  | _ => []

/-- What MSET and MSETNX do with their pairs: every key is stored before any is touched. -/
def storeAll (pairs : List (Value × Value)) : K F Unit := do
  Prog.each (fun p => checkSize p.2) pairs
  Prog.each (fun p => setitem p.1 (.raw p.2)) pairs
  Prog.each (fun p => _after_write p.1 .set) pairs

def MSET (args : List Value) : K F Reply := do
  if args.length < 2 ∨ args.length % 2 ≠ 0 then throw_ (.arity .MSET)
  storeAll (pairsOf args)
  return .OK

/-- `any(key in self.data for key in keys)`. -/
def anyLive : List Value → K F Bool
  | [] => pure false
  | key :: keys => do if ← is_live key then return true else anyLive keys

def MSETNX (args : List Value) : K F Reply := do
  if args.length < 2 ∨ args.length % 2 ≠ 0 then throw_ (.arity .MSETNX)
  if ← anyLive ((pairsOf args).map Prod.fst) then return .int 0
  storeAll (pairsOf args)
  return .int 1

def DEL (keys : List Value) : K F Reply := do
  if keys = [] then throw_ (.arity .DEL)
  let removed ← Prog.fold (fun (removed : Int) key => do
    if ← data_remove key then
      _after_write key .del
      return removed + 1
    else return removed) 0 keys
  return .int removed

/-! ## Expiry -/

/-- `_expire_notify`. -/
def _expire_notify (key : Value) (result live_before : Bool) : K F Unit := do
  if result then
    let live ← (if live_before then is_live key else pure true : K F Bool)
    _after_write key (if live_before ∧ !live then .del else .expire)

/-- EXPIRE, PEXPIRE, EXPIREAT and PEXPIREAT, by the method of `Data` they call. -/
def expireWith (key : Value) (set_expiry : K F Bool) : K F Reply := do
  let live_before ← is_live key
  let result ← set_expiry
  _expire_notify key result live_before
  return .int (if result then 1 else 0)

def EXPIRE (key : Value) (secs : Int) : K F Reply := expireWith key (data_expire key secs)

def PEXPIRE (key : Value) (ms : Int) : K F Reply :=
  expireWith key (do data_expire_at key ((← clock).wall + ms * 1000000))

def EXPIREAT (key : Value) (ts : Int) : K F Reply := expireWith key (data_expire_at key (ts * 1000000000))

def PEXPIREAT (key : Value) (ts : Int) : K F Reply := expireWith key (data_expire_at key (ts * 1000000))

def PERSIST (key : Value) : K F Reply := do
  let result ← persist key
  if result then _after_write key .persist
  return .int (if result then 1 else 0)

def EXPIRETIME (key : Value) : K F Reply := do
  let value ← wall_expiry key
  return .int (if value > 0 then value / 1000000000 else value)

def PEXPIRETIME (key : Value) : K F Reply := do
  let value ← wall_expiry key
  return .int (if value > 0 then value / 1000000 else value)

def TTL (key : Value) : K F Reply := do return .int (← ttl key)

def PTTL (key : Value) : K F Reply := do return .int (← ttl_ms key)

/-! ## The keyspace -/

def KEYS (pattern : Value) : K F Reply := do
  let rgx ← compile_glob pattern
  let keys ← data_keys
  return .values (← filterM_ (matches_ rgx) keys)

/-- The options of SCAN: the MATCH pattern and the TYPE name. -/
def scanOptions (pattern : Option Value) (type_filter : Option Text) : List Value → K F (Option Value × Option Text)
  | [] => pure (pattern, type_filter)
  | [opt] => do
    let _ ← upperArg opt
    throw_ .SYNTAX
  | opt :: value :: rest => do
    let opt ← upperArg opt
    if opt = bs "MATCH" then scanOptions (some value) type_filter rest
    else if opt = bs "COUNT" then
      scanCount value
      scanOptions pattern type_filter rest
    else if opt = bs "TYPE" then
      let name := decodeAscii (lower (← asBytes value))
      scanOptions pattern (some name) rest
    else throw_ .SYNTAX

/-- Whether SCAN's TYPE filter lets a key pass. -/
def typeMatches (type_filter : Option Text) (key : Value) : K F Bool := do
  match type_filter with
  | none => return true
  | some name =>
    match ← data_get key with
    | none => return false
    | some obj => return (kind_of obj).map (fun k => (TYPE_NAMES k).text) = some name

def SCAN (cursor : Value) (options : List Value) : K F Reply := do
  let cursor ← parse_scan_cursor cursor
  if cursor ≠ 0 then return .list [.bytes (bs "0"), .list []]
  let (pattern, type_filter) ← scanOptions none none options
  let rgx ← compilePattern pattern
  let keys ← data_keys
  let found ← filterM_ (fun key => do if ← patternMatches rgx key then typeMatches type_filter key else return false) keys
  return .list [.bytes (bs "0"), .values found]

/-- EXISTS and TOUCH: the number of live keys, counted with repetition. -/
def countLive (command : Cmd) (keys : List Value) : K F Reply := do
  if keys = [] then throw_ (.arity command)
  let live ← filterM_ is_live keys
  return .int live.length

def EXISTS (keys : List Value) : K F Reply := countLive .EXISTS keys

def TOUCH (keys : List Value) : K F Reply := countLive .TOUCH keys

def DBSIZE : K F Reply := do return .int (← data_keys).length

/-! ## Counters -/

/-- The counter a byte string holds. -/
def counterOf (e : Errors) (val : Bytes) : K F Int := if RE_NUMERIC val then orFail (pyInt val) else throw_ e

/-- The guard of a counter's new value. -/
def checkCounter (result : Int) : K F Unit := if result < INT64_MIN ∨ INT64_MAX < result then throw_ .OVERFLOW else pure ()

/-- `_bump`. -/
def _bump (key : Value) (by_ : Int) : K F Reply := do
  let current ← (match ← data_get key with
    | none => pure 0
    | some (.raw (.bytes val)) => counterOf .NOT_INT val
    | some _ => throw_ .WRONGTYPE : K F Int)
  let result := current + by_
  checkCounter result
  data_set key (.raw (.bytes (decimal result))) none true
  _after_write key .incrby
  return .int result

def INCRBY (key : Value) (i : Int) : K F Reply := _bump key i

def INCR (key : Value) : K F Reply := _bump key 1

def DECRBY (key : Value) (i : Int) : K F Reply := _bump key (-i)

def DECR (key : Value) : K F Reply := _bump key (-1)

def INCRBYFLOAT [PyFloat F] (key increment : Value) : K F Reply := do
  let val ← _string key
  let current ← (match val with
    | none => pure PyFloat.zero
    | some val => floatArg .NOT_FLOAT (.bytes val) : K F F)
  let incr ← floatArg .NOT_FLOAT increment
  let result := PyFloat.add current incr
  if !isfinite result then throw_ .FLOAT_OVERFLOW
  let text := _format_float result
  data_set key (.raw (.bytes text)) none true
  _after_write key .incrbyfloat
  return .bytes text

/-! ## LCS -/

/-- One row of the table: the lengths and the directions (1 diagonal, 2 up, 3 left) of the columns from `j` on, given the previous
row from `j - 1` on and the length to the left. -/
def lcsRow (prefer_up : Bool) (ai : UInt8) : Bytes → List Nat → (left : Nat) → List (Nat × Nat)
  | bj :: b, diag :: up :: prev, left =>
    let cell :=
      if ai = bj then (diag + 1, 1)
      else if up > left ∨ (prefer_up ∧ up = left) then (up, 2)
      else (left, 3)
    cell :: lcsRow prefer_up ai b (up :: prev) cell.1
  | _, _, _ => []

/-- The last row of lengths and every row of directions. -/
def lcsTable (prefer_up : Bool) (b : Bytes) : Bytes → (prev : List Nat) → (dirs : List (List Nat)) → List Nat × List (List Nat)
  | [], prev, dirs => (prev, dirs)
  | ai :: a, prev, dirs =>
    let row := lcsRow prefer_up ai b prev 0
    lcsTable prefer_up b a (0 :: row.map Prod.fst) (dirs ++ [0 :: row.map Prod.snd])

/-- A run of matches as `(a_start, a_end, b_start, b_end)`. -/
abbrev LcsMatch := Nat × Nat × Nat × Nat

/-- The match of a run `(a_hi, b_hi, cells)`. -/
def lcsMatch (run : Nat × Nat × Nat) : LcsMatch := (run.1 + 1 - run.2.2, run.1, run.2.1 + 1 - run.2.2, run.2.1)

/-- The walk back through the directions, from the end to the start. -/
def lcsWalk (dirs : List (List Nat)) : (fuel i j : Nat) → (run : Option (Nat × Nat × Nat)) → List LcsMatch → List LcsMatch
  | fuel + 1, i + 1, j + 1, run, found =>
    if ((dirs[i + 1]?).bind (·[j + 1]?)).getD 0 = 1 then
      lcsWalk dirs fuel i j (some ((run.map fun r => (r.1, r.2.1, r.2.2 + 1)).getD (i, j, 1))) found
    else
      let found := found ++ (run.map lcsMatch).toList
      if ((dirs[i + 1]?).bind (·[j + 1]?)).getD 0 = 2 then lcsWalk dirs fuel i (j + 1) none found
      else lcsWalk dirs fuel (i + 1) j none found
  | _, _, _, run, found => found ++ (run.map lcsMatch).toList

/-- `_lcs_runs`. -/
def _lcs_runs (a b : Bytes) (prefer_up : Bool) : Nat × List LcsMatch :=
  if a = [] ∨ b = [] then (0, [])
  else
    let (last, dirs) := lcsTable prefer_up b a (List.replicate (b.length + 1) 0) [[]]
    ((last[b.length]?).getD 0, lcsWalk dirs (a.length + b.length) a.length b.length none [])

/-- The options of LCS. -/
structure LcsOptions where
  len_only : Bool
  idx : Bool
  min_match_len : Int
  with_match_len : Bool

/-- The option loop of `_lcs_command`. -/
def lcsOptions (o : LcsOptions) : List Value → K F LcsOptions
  | [] => pure o
  | opt :: rest => do
    let opt ← upperArg opt
    if opt = bs "LEN" then lcsOptions { o with len_only := true } rest
    else if opt = bs "IDX" then lcsOptions { o with idx := true } rest
    else if opt = bs "MINMATCHLEN" then
      match rest with
      | [] => throw_ .SYNTAX
      | value :: rest =>
        let n ← orThrow .NOT_INT (toLL value)
        lcsOptions { o with min_match_len := max n 1 } rest
    else if opt = bs "WITHMATCHLEN" then lcsOptions { o with with_match_len := true } rest
    else throw_ .SYNTAX

/-- `while i >= 0 and a[i] != char: i -= 1`, for `i + 1` in place of `i`. -/
def seekNat (a : Bytes) (char : UInt8) : Nat → Nat
  | 0 => 0
  | i + 1 => if a[i]? = some char then i + 1 else seekNat a char i

/-- `while i >= 0 and a[i] != char: i -= 1`. -/
def seek (a : Bytes) (char : UInt8) (i : Int) : Int := if i < 0 then i else (seekNat a char (i.toNat + 1) : Int) - 1

/-- One match of the IDX reply, when it is long enough. -/
def idxMatch (o : LcsOptions) (run : Option (Int × Int × Int)) : List Reply :=
  match run with
  | none => []
  | some (a_hi, b_hi, cells) =>
    if cells ≥ o.min_match_len then
      [.list ([.list [.int a_hi, .int (a_hi + cells - 1)], .list [.int b_hi, .int (b_hi + cells - 1)]] ++
        if o.with_match_len then [.int cells] else [])]
    else []

/-- The IDX walk over the subsequence, from its end (`rest` is reversed). -/
def idxWalk (o : LcsOptions) (a b : Bytes) : (rest : Bytes) → (i j : Int) → (run : Option (Int × Int × Int)) → List Reply
  | [], _, _, run => idxMatch o run
  | char :: rest, i, j, run =>
    let i := seek a char i
    let j := seek b char j
    match run with
    | none => idxWalk o a b rest (i - 1) (j - 1) (some (i, j, 1))
    | some (a_hi, b_hi, cells) =>
      if i = a_hi - 1 ∧ j = b_hi - 1 then idxWalk o a b rest (i - 1) (j - 1) (some (a_hi - 1, b_hi - 1, cells + 1))
      else idxMatch o run ++ idxWalk o a b rest (i - 1) (j - 1) (some (i, j, 1))

/-- `b"".join(a[a1:a2 + 1] for a1, a2, _, _ in reversed(matches))`. -/
def lcsText (a : Bytes) (found : List LcsMatch) : Bytes := found.reverse.flatMap fun m => (a.take (m.2.1 + 1)).drop m.1

/-- The type check of LCS, with its own wording. -/
def lcsCheck (key : Value) : K F Unit := do
  match ← data_get key with
  | none => return ()
  | some obj => if kind_of obj ≠ some .string then throw_ .WRONGTYPE_STRING

/-- `_lcs_command`. -/
def LCS (key1 key2 : Value) (options : List Value) : K F Reply := do
  lcsCheck key1
  lcsCheck key2
  let o ← lcsOptions ⟨false, false, 1, false⟩ options
  if o.len_only ∧ o.idx then throw_ .lcsBoth
  let a := (← _string key1).getD []
  let b := (← _string key2).getD []
  let (length, found) := _lcs_runs a b false
  if o.len_only then return .int length
  let lcs := lcsText a found
  if !o.idx then return .bytes lcs
  return .list [.bytes (bs "matches"),
    .list (idxWalk o a b lcs.reverse ((a.length : Int) - 1) ((b.length : Int) - 1) none), .bytes (bs "len"), .int length]

/-! ## Ranges -/

/-- `_getrange`. -/
def _getrange (key : Value) (start stop : Int) : K F Reply := do
  match ← _string key with
  | none => return .bytes []
  | some val => return .bytes (slice val start (if stop ≥ 0 then stop + 1 else val.length + stop + 1))

def SUBSTR (key : Value) (start stop : Int) : K F Reply := _getrange key start stop

def GETRANGE (key : Value) (start stop : Int) : K F Reply := _getrange key start stop

/-- `value` written into `val` at `offset`; a gap is filled with zero bytes. -/
def overwrite (val : Bytes) (offset : Nat) (value : Bytes) : Bytes :=
  if offset > val.length then val ++ List.replicate (offset - val.length) 0 ++ value
  else val.take offset ++ value ++ val.drop (offset + value.length)

def SETRANGE (key : Value) (offset : Int) (value : Value) : K F Reply := do
  if offset < 0 then throw_ .RANGE_OFFSET
  let val := (← _string key).getD []
  if offset + (← pyLen value) > MAX_STRING_SIZE then throw_ .STRING_OVERFLOW
  let val := overwrite val offset.toNat (← asBytes value)
  data_set key (.raw (.bytes val)) none true
  _after_write key .setrange
  return .int val.length

def APPEND (key val : Value) : K F Reply := do
  let current ← _string key
  let value := current.getD [] ++ (← asBytes val)
  if value.length > MAX_STRING_SIZE then throw_ .STRING_OVERFLOW
  data_set key (.raw (.bytes value)) none true
  _after_write key .append
  return .int value.length

def STRLEN (key : Value) : K F Reply := do return .int ((← _string key).getD []).length

end Kagni
