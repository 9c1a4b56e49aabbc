import Kagni.Commands.Lists

/-!
# Sorted-set commands

`commands/zset.py`. Options and bounds are parsed before the key is looked up.
-/

namespace Kagni

open Lib

variable {F : Type}

/-- `_zset`. -/
def _zset (key : Value) : K F (Option (ZSet F)) := do
  match ← expect_kind key .zset with
  | some (.zset z) => return some z
  | _ => return none

/-- The container under `key` is changed in place; `none` is an exception of a comparison. -/
def inPlace {α : Type} (key : Value) (r : Option α × ZSet F) : K F (α × ZSet F) := do
  store_value key (.zset r.2)
  return (← orFail r.1, r.2)

/-- `zset.score(member)`, where no container has no score. -/
def scoreOf (z : Option (ZSet F)) (member : Value) : K F (Option F) := do
  match z with
  | none => return none
  | some z =>
    needHash member
    return z.score member

/-- `_drop_empty`, on a sorted set. -/
def dropEmptyZset (key : Value) (z : ZSet F) : K F Unit := do
  if z.size = 0 then
    let _ ← data_remove key

/-- `_create_zset`. -/
def _create_zset (key : Value) : K F (ZSet F) := do
  setitem key (.zset .empty)
  return .empty

/-- `_lex_bound`: the member (`none` is unbounded), whether it is excluded, and whether the window is degenerate. -/
def _lex_bound (raw : Value) (is_min : Bool) : K F (Option Bytes × Bool × Bool) := do
  match raw with
  | .bytes b =>
    if b = [45] then return (none, false, !is_min)
    else if b = [43] then return (none, false, is_min)
    else match b with
      | 91 :: rest => return (some rest, false, false)
      | 40 :: rest => return (some rest, true, false)
      | _ => throw_ .LEX_RANGE
  | .array _ => throw_ .LEX_RANGE
  | _ => fail

/-- The modes of the range commands: by rank, by score and by member. -/
inductive RangeMode where
  | rank | byscore | bylex
  deriving DecidableEq, Repr

/-- Parsed bounds of a range. -/
inductive Bounds (F : Type) where
  | rank (start stop : Int)
  | score (lo : F) (lo_open : Bool) (hi : F) (hi_open : Bool)
  | lex (lo : Option Bytes) (lo_open : Bool) (hi : Option Bytes) (hi_open : Bool)

/-- The options of the range commands: mode, REV, WITHSCORES and LIMIT. -/
structure RangeOptions where
  mode : RangeMode
  rev : Bool
  withscores : Bool
  limit : Option (Int × Int)

/-- No options. -/
def RangeOptions.none : RangeOptions := ⟨.rank, false, false, .none⟩

/-- `LIMIT offset count`. -/
def parseLimit (limit : Option (Int × Int)) (offset count : Value) : K F (Int × Int) := do
  if limit.isSome then throw_ .SYNTAX
  let offset ← orThrow .NOT_INT (toLL offset)
  let count ← orThrow .NOT_INT (toLL count)
  return (offset, count)

/-- The options a range command knows. -/
structure RangeGrammar where
  mode : Bool
  withscores : Bool
  limit : Bool

/-- The option loop of `_parse_range_options`, and those of the commands that know fewer options. -/
def rangeOptions (g : RangeGrammar) (o : RangeOptions) : List Value → K F RangeOptions
  | [] => pure o
  | opt :: rest => do
    let opt ← upperArg opt
    if g.mode ∧ (opt = bs "BYSCORE" ∨ opt = bs "BYLEX") then
      if o.mode ≠ .rank then throw_ .SYNTAX
      rangeOptions g { o with mode := if opt = bs "BYSCORE" then .byscore else .bylex } rest
    else if g.mode ∧ opt = bs "REV" then
      if o.rev then throw_ .SYNTAX
      rangeOptions g { o with rev := true } rest
    else if g.withscores ∧ opt = bs "WITHSCORES" then rangeOptions g { o with withscores := true } rest
    else if g.limit ∧ opt = bs "LIMIT" then
      match rest with
      | offset :: count :: rest =>
        let limit ← parseLimit o.limit offset count
        rangeOptions g { o with limit := some limit } rest
      | _ => throw_ .SYNTAX
    else throw_ .SYNTAX

/-- `_parse_range_options`. -/
def _parse_range_options (options : List Value) : K F RangeOptions := do
  let o ← rangeOptions ⟨true, true, true⟩ .none options
  if o.withscores ∧ o.mode = .bylex then throw_ .WITHSCORES_BYLEX
  if o.limit.isSome ∧ o.mode = .rank then throw_ .LIMIT_NEEDS_BY
  return o

/-- `_limit_pairs`. -/
def _limit_pairs {α : Type} (pairs : List α) (limit : Option (Int × Int)) : List α :=
  match limit with
  | none => pairs
  | some (offset, count) =>
    if offset < 0 then []
    else
      let count := if count < 0 then (pairs.length : Int) else count
      slice pairs offset (offset + count)

variable [PyFloat F]

/-- `_score_bound`: the score and whether it is excluded. -/
def _score_bound (raw : Value) : K F (F × Bool) := do
  let b ← asBytes raw
  let exclusive := b.head? = some 40
  let value ← floatArg .MIN_MAX_FLOAT (.bytes (if exclusive then b.tail else b))
  return (value, exclusive)

/-- `_parse_bounds`: the bounds, and whether the window is degenerate. With REV the bounds come in reverse order. -/
def _parse_bounds (start_raw stop_raw : Value) (mode : RangeMode) (rev : Bool) : K F (Bounds F × Bool) := do
  let (lo_raw, hi_raw) := if rev then (stop_raw, start_raw) else (start_raw, stop_raw)
  match mode with
  | .rank =>
    let start ← orThrow .NOT_INT (toLL start_raw)
    let stop ← orThrow .NOT_INT (toLL stop_raw)
    return (.rank start stop, false)
  | .byscore =>
    let (lo, lo_open) ← _score_bound lo_raw
    let (hi, hi_open) ← _score_bound hi_raw
    return (.score lo lo_open hi hi_open, false)
  | .bylex =>
    let (lo, lo_open, lo_dead) ← _lex_bound lo_raw true
    let (hi, hi_open, hi_dead) ← _lex_bound hi_raw false
    return (.lex lo lo_open hi hi_open, lo_dead || hi_dead)

/-- `_format_float(score).encode()`. -/
def scoreReply (score : F) : Reply := .bytes (_format_float score)

/-- `_interleave`. -/
def _interleave (pairs : List (F × Value)) (withscores : Bool) : Reply :=
  .list (pairs.flatMap fun p => .ofValue p.2 :: if withscores then [scoreReply p.1] else [])

/-- `_range_pairs`. -/
def _range_pairs (z : ZSet F) (parsed : Bounds F) (rev : Bool) : K F (List (F × Value)) := do
  match parsed with
  | .rank start stop => return sliceRanks (if rev then z.sorted.reverse else z.sorted) start stop
  | .score lo lo_open hi hi_open =>
    let pairs := z.score_pairs lo lo_open hi hi_open
    return if rev then pairs.reverse else pairs
  | .lex lo lo_open hi hi_open =>
    let pairs ← orFail (z.member_pairs lo lo_open hi hi_open)
    return if rev then pairs.reverse else pairs

/-! ## ZADD -/

/-- The flags of ZADD. -/
structure ZaddFlags where
  nx : Bool
  xx : Bool
  gt : Bool
  lt : Bool
  ch : Bool
  incr : Bool

/-- The flag loop: it stops at the first argument that is no flag. -/
def zaddFlags (fl : ZaddFlags) : List Value → K F (ZaddFlags × List Value)
  | [] => pure (fl, [])
  | arg :: rest => do
    let opt ← upperArg arg
    if opt = bs "NX" then zaddFlags { fl with nx := true } rest
    else if opt = bs "XX" then zaddFlags { fl with xx := true } rest
    else if opt = bs "GT" then zaddFlags { fl with gt := true } rest
    else if opt = bs "LT" then zaddFlags { fl with lt := true } rest
    else if opt = bs "CH" then zaddFlags { fl with ch := true } rest
    else if opt = bs "INCR" then zaddFlags { fl with incr := true } rest
    else return (fl, arg :: rest)

/-- `_parse_zadd_flags`. -/
def _parse_zadd_flags (args : List Value) : K F (ZaddFlags × List Value) := do
  let (fl, rest) ← zaddFlags ⟨false, false, false, false, false, false⟩ args
  if fl.nx ∧ fl.xx then throw_ .ZADD_XX_NX
  if (fl.gt ∧ fl.lt) ∨ (fl.nx ∧ (fl.gt ∨ fl.lt)) then throw_ .ZADD_CONFLICT
  return (fl, rest)

/-- The (score, member) pairs of ZADD. -/
def zaddPairs : List Value → K F (List (F × Value))
  | score :: member :: rest => do
    let score ← floatArg .NOT_FLOAT score
    let pairs ← zaddPairs rest
    return (score, member) :: pairs
  | _ => pure []

/-- The container to write to. -/
def zsetOrNew (key : Value) (z : Option (ZSet F)) : K F (ZSet F) :=
  match z with
  | some z => pure z
  | none => _create_zset key

/-- ZADD with INCR: one pair. -/
def zaddIncr (key : Value) (fl : ZaddFlags) (z : Option (ZSet F)) (pair : F × Value) : K F Reply := do
  let current ← scoreOf z pair.2
  if (current.isNone ∧ fl.xx) ∨ (current.isSome ∧ fl.nx) then return .NIL
  let score := PyFloat.add (current.getD PyFloat.zero) pair.1
  if PyFloat.isNaN score then throw_ .NAN_RESULT
  if current.any fun c => (fl.gt && PyFloat.le score c) || (fl.lt && PyFloat.le c score) then return .NIL
  let z ← zsetOrNew key z
  let _ ← inPlace key (z.add pair.2 score)
  _after_write key .zadd
  return scoreReply score

/-- The loop of ZADD: the numbers of members added and of scores changed. -/
def zaddLoop (key : Value) (fl : ZaddFlags) : List (F × Value) → (z : Option (ZSet F)) → (added changed : Nat) → K F (Nat × Nat)
  | [], _, added, changed => pure (added, changed)
  | (score, member) :: rest, z, added, changed => do
    match ← scoreOf z member with
    | none =>
      if fl.xx then zaddLoop key fl rest z added changed
      else
        let z ← zsetOrNew key z
        let (_, z) ← inPlace key (z.add member score)
        zaddLoop key fl rest (some z) (added + 1) changed
    | some current =>
      if fl.nx ∨ (fl.gt ∧ PyFloat.le score current) ∨ (fl.lt ∧ PyFloat.le current score) then
        zaddLoop key fl rest z added changed
      else match z with
        | none => fail
        | some z =>
          let (updated, z) ← inPlace key (z.add member score)
          zaddLoop key fl rest (some z) added (if updated then changed + 1 else changed)

def ZADD (key : Value) (args : List Value) : K F Reply := do
  let (fl, rest) ← _parse_zadd_flags (F := F) args
  if args.length < 2 then throw_ (.arity .ZADD)
  if rest.length % 2 ≠ 0 then throw_ .SYNTAX
  if fl.incr ∧ rest.length ≠ 2 then throw_ .ZADD_INCR_PAIR
  let pairs ← zaddPairs rest
  let z ← _zset key
  if z.isNone ∧ fl.xx then return (if fl.incr then .NIL else .int 0)
  match fl.incr, pairs with
  | true, [pair] => zaddIncr key fl z pair
  | true, _ => fail
  | false, pairs =>
    let (added, changed) ← zaddLoop key fl pairs z 0 0
    if added ≠ 0 ∨ changed ≠ 0 then _after_write key .zadd
    return .int (if fl.ch then added + changed else added)

def ZINCRBY (key increment member : Value) : K F Reply := do
  let increment ← floatArg .NOT_FLOAT increment
  let z ← _zset key
  let current ← scoreOf z member
  let new_score := PyFloat.add (current.getD PyFloat.zero) increment
  if PyFloat.isNaN new_score then throw_ .NAN_RESULT
  let z ← zsetOrNew key z
  let _ ← inPlace key (z.add member new_score)
  _after_write key .zincr
  return scoreReply new_score

/-! ## Reads -/

omit [PyFloat F] in
def ZCARD (key : Value) : K F Reply := do return .int (((← _zset key).map ZSet.size).getD 0)

/-- A score or nil. -/
def scoreOrNil (score : Option F) : Reply := (score.map scoreReply).getD .NIL

def ZSCORE (key member : Value) : K F Reply := do return scoreOrNil (← scoreOf (← _zset key) member)

def ZMSCORE (key : Value) (vals : List Value) : K F Reply := do
  if vals = [] then throw_ (.arity .ZMSCORE)
  let z ← _zset key
  return .list (← mapM_ (fun member => do return scoreOrNil (← scoreOf z member)) vals)

/-- `_zrank`. -/
def _zrank (key member : Value) (options : List Value) (reverse : Bool) : K F Reply := do
  flagOptions (bs "WITHSCORE") options
  let z ← _zset key
  let rank ← (match z with
    | none => pure none
    | some z => orFail (z.rank member) : K F (Option Nat))
  match z, rank with
  | some z, some rank =>
    let rank : Int := if reverse then (z.size : Int) - 1 - rank else rank
    if options = [] then return .int rank
    else return .list [.int rank, scoreReply (← orFail (z.score member))]
  | _, _ => return (if options = [] then .NIL else .NIL_ARRAY)

def ZRANK (key member : Value) (options : List Value) : K F Reply := _zrank key member options false

def ZREVRANK (key member : Value) (options : List Value) : K F Reply := _zrank key member options true

/-- What the range commands do once their options are parsed. -/
def zrangeWith (key start stop : Value) (o : RangeOptions) (rev : Bool) : K F Reply := do
  let (parsed, empty) ← _parse_bounds start stop o.mode o.rev
  match ← _zset key with
  | none => return .list []
  | some z =>
    if empty then return .list []
    let pairs ← _range_pairs z parsed rev
    return _interleave (_limit_pairs pairs o.limit) o.withscores

def ZRANGE (key start stop : Value) (options : List Value) : K F Reply := do
  let o ← _parse_range_options options
  zrangeWith key start stop o o.rev

def ZREVRANGE (key start stop : Value) (options : List Value) : K F Reply := do
  let o ← rangeOptions ⟨false, true, false⟩ .none options
  zrangeWith key start stop { o with rev := true } true

/-- `_legacy_score_range`: the bounds come as minimum and maximum. -/
def _legacy_score_range (key first second : Value) (options : List Value) (reverse : Bool) : K F Reply := do
  let o ← rangeOptions ⟨false, true, true⟩ .none options
  zrangeWith key first second { o with mode := .byscore } reverse

def ZRANGEBYSCORE (key min_ max_ : Value) (options : List Value) : K F Reply :=
  _legacy_score_range key min_ max_ options false

def ZREVRANGEBYSCORE (key max_ min_ : Value) (options : List Value) : K F Reply :=
  _legacy_score_range key min_ max_ options true

/-- `_legacy_lex_range`. -/
def _legacy_lex_range (key first second : Value) (options : List Value) (reverse : Bool) : K F Reply := do
  let o ← rangeOptions ⟨false, false, true⟩ .none options
  zrangeWith key first second { o with mode := .bylex } reverse

def ZRANGEBYLEX (key min_ max_ : Value) (options : List Value) : K F Reply :=
  _legacy_lex_range key min_ max_ options false

def ZREVRANGEBYLEX (key max_ min_ : Value) (options : List Value) : K F Reply :=
  _legacy_lex_range key min_ max_ options true

def ZCOUNT (key min_ max_ : Value) : K F Reply := do
  let (lo, lo_open) ← _score_bound min_
  let (hi, hi_open) ← _score_bound max_
  match ← _zset key with
  | none => return .int 0
  | some z => return .int (z.score_pairs lo lo_open hi hi_open).length

def ZLEXCOUNT (key min_ max_ : Value) : K F Reply := do
  let (parsed, empty) ← _parse_bounds min_ max_ .bylex false
  match ← _zset key with
  | none => return .int 0
  | some z => if empty then return .int 0 else return .int (← _range_pairs z parsed false).length

/-! ## Removals -/

/-- The loop of ZREM: the container that is left and the number removed. -/
def zremLoop (key : Value) : List Value → (z : ZSet F) → (removed : Nat) → K F (ZSet F × Nat)
  | [], z, removed => pure (z, removed)
  | member :: rest, z, removed => do
    let (was, z) ← inPlace key (z.remove member)
    zremLoop key rest z (if was then removed + 1 else removed)

omit [PyFloat F] in
/-- What follows a removal: the event when something was removed, and the end of an emptied key. -/
def afterRemoval (key : Value) (z : ZSet F) (removed : Nat) (event : Event) : K F Reply := do
  if removed ≠ 0 then _after_write key event
  dropEmptyZset key z
  return .int removed

def ZREM (key : Value) (vals : List Value) : K F Reply := do
  if vals = [] then throw_ (.arity .ZREM)
  match ← _zset key with
  | none => return .int 0
  | some z =>
    let (z, removed) ← zremLoop key vals z 0
    afterRemoval key z removed .zrem

omit [PyFloat F] in
def ZREMRANGEBYRANK (key : Value) (start stop : Int) : K F Reply := do
  match ← _zset key with
  | none => return .int 0
  | some z =>
    let (removed, z) ← inPlace key (z.remove_rank start stop)
    afterRemoval key z removed .zremrangebyrank

def ZREMRANGEBYSCORE (key min_ max_ : Value) : K F Reply := do
  let (lo, lo_open) ← _score_bound min_
  let (hi, hi_open) ← _score_bound max_
  match ← _zset key with
  | none => return .int 0
  | some z =>
    let (removed, z) ← inPlace key (z.remove_score lo lo_open hi hi_open)
    afterRemoval key z removed .zremrangebyscore

omit [PyFloat F] in
def ZREMRANGEBYLEX (key min_ max_ : Value) : K F Reply := do
  let (lo, lo_open, lo_dead) ← _lex_bound min_ true
  let (hi, hi_open, hi_dead) ← _lex_bound max_ false
  match ← _zset key with
  | none => return .int 0
  | some z =>
    if lo_dead || hi_dead then return .int 0
    let (removed, z) ← inPlace key (z.remove_member lo lo_open hi hi_open)
    afterRemoval key z removed .zremrangebylex

/-- `_zpop`. -/
def _zpop (key : Value) (count : Option Int) (left : Bool) : K F Reply := do
  if count.any (· < 0) then throw_ .NOT_POSITIVE
  match ← _zset key with
  | none => return .list []
  | some z =>
    if count = some 0 then return .list []
    let n := count.getD 1
    let (start, stop) := if left then (0, n - 1) else (-n, -1)
    let taken := sliceRanks z.sorted start stop
    let z ← (if taken = [] then pure z else do return (← inPlace key (z.remove_rank start stop)).2 : K F (ZSet F))
    _after_write key (if left then .zpopmin else .zpopmax)
    dropEmptyZset key z
    if !(← is_live key) then _notify key .del
    return _interleave (if left then taken else taken.reverse) true

def ZPOPMIN (key : Value) (count : Option Int) : K F Reply := _zpop key count true

def ZPOPMAX (key : Value) (count : Option Int) : K F Reply := _zpop key count false

def ZSCAN (key cursor : Value) (options : List Value) : K F Reply := do
  let _ ← parse_scan_cursor cursor
  let pattern ← parse_scan_options none options
  let rgx ← compilePattern pattern
  match ← _zset key with
  | none => return .list [.bytes (bs "0"), .list []]
  | some z => return .list [.bytes (bs "0"), _interleave (← filterM_ (fun p => patternMatches rgx p.2) z.sorted) true]

def ZRANDMEMBER (key : Value) (count : Option Int) (options : List Value) : K F Reply := do
  match count with
  | none =>
    if options ≠ [] then throw_ .SYNTAX
    let z := (← _zset key).getD .empty
    if z.size = 0 then return .NIL
    return .ofValue (← choice z.members)
  | some count =>
    flagOptions (bs "WITHSCORES") options
    let z := (← _zset key).getD .empty
    if z.size = 0 then return .list []
    let picked ← pick z.members count
    if options = [] then return .values picked
    let pairs ← mapM_ (fun member => do return (← orFail (z.score member), member)) picked
    return _interleave pairs true

/-! ## Aggregates -/

/-- `AGGREGATE`. -/
inductive Aggregate where
  | SUM | MIN | MAX
  deriving DecidableEq, Repr

/-- The aggregate an argument names. -/
def Aggregate.ofName (name : Bytes) : Option Aggregate :=
  if name = bs "SUM" then some .SUM
  else if name = bs "MIN" then some .MIN
  else if name = bs "MAX" then some .MAX
  else none

/-- What `_parse_zset_op` reads after the keys. -/
structure ZsetOp (F : Type) where
  weights : Option (List F)
  aggregate : Option Aggregate
  withscores : Bool

/-- The option loop of `_parse_zset_op`; `fuel` bounds the number of options. -/
def zsetOpOptions (numkeys : Nat) (allow_weights allow_withscores : Bool) :
    (fuel : Nat) → ZsetOp F → List Value → K F (ZsetOp F)
  | _, o, [] => pure o
  | 0, _, _ => throw_ .SYNTAX
  | fuel + 1, o, opt :: rest => do
    let opt ← upperArg opt
    if opt = bs "WEIGHTS" ∧ allow_weights then
      if o.weights.isSome ∨ rest.length < numkeys then throw_ .SYNTAX
      let weights ← mapM_ (floatArg .WEIGHT_FLOAT) (rest.take numkeys)
      zsetOpOptions numkeys allow_weights allow_withscores fuel { o with weights := some weights } (rest.drop numkeys)
    else if opt = bs "AGGREGATE" ∧ allow_weights then
      match rest with
      | [] => throw_ .SYNTAX
      | name :: rest =>
        if o.aggregate.isSome then throw_ .SYNTAX
        match Aggregate.ofName (← upperArg name) with
        | none => throw_ .SYNTAX
        | some a => zsetOpOptions numkeys allow_weights allow_withscores fuel { o with aggregate := some a } rest
    else if opt = bs "WITHSCORES" ∧ allow_withscores then
      zsetOpOptions numkeys allow_weights allow_withscores fuel { o with withscores := true } rest
    else throw_ .SYNTAX

/-- `_parse_zset_op`: the keys with their weights, the aggregate, and WITHSCORES. -/
def _parse_zset_op (command : Cmd) (allow_weights allow_withscores : Bool) (numkeys : Int) (rest : List Value) :
    K F (List (Value × F) × Aggregate × Bool) := do
  if numkeys < 1 then throw_ (.no_keys command)
  if numkeys > rest.length then throw_ .SYNTAX
  let n := numkeys.toNat
  let o ← zsetOpOptions n allow_weights allow_withscores rest.length ⟨none, none, false⟩ (rest.drop n)
  let weights := o.weights.getD (List.replicate n PyFloat.one)
  return ((rest.take n).zip weights, o.aggregate.getD .SUM, o.withscores)

/-- `_combine`. -/
def _combine (a b : F) : Aggregate → F
  | .MIN => if PyFloat.lt b a then b else a
  | .MAX => if PyFloat.lt a b then b else a
  | .SUM => PyFloat.add a b

/-- The set operations on sorted sets. -/
inductive ZOp where
  | zunion | zinter | zdiff
  deriving DecidableEq, Repr

/-- The scores of the union. -/
def unionScores (aggregate : Aggregate) (sources : List (Option (ZSet F) × F)) : Dict Value F :=
  sources.foldl (fun agg source => match source.1 with
    | none => agg
    | some z => z.sorted.foldl (fun agg p =>
        let value := PyFloat.mul p.1 source.2
        agg.set p.2 (match agg.get p.2 with
          | none => value
          | some old => _combine old value aggregate)) agg) ∅

/-- The score of a member of the first set in the intersection, when every other set has it. -/
def interScore (aggregate : Aggregate) (member : Value) : (value : F) → List (Option (ZSet F) × F) → Option F
  | value, [] => some value
  | value, (z, weight) :: rest => match z.bind (·.score member) with
    | none => none
    | some score => interScore aggregate member (_combine value (PyFloat.mul score weight) aggregate) rest

/-- The scores `_aggregate` computes. -/
def aggregateScores (op : ZOp) (aggregate : Aggregate) : List (Option (ZSet F) × F) → Dict Value F
  | [] => ∅
  | (first, weight) :: rest =>
    match op with
    | .zunion => unionScores aggregate ((first, weight) :: rest)
    | .zinter => ((first.map ZSet.sorted).getD []).foldl (fun agg p =>
        match interScore aggregate p.2 (PyFloat.mul p.1 weight) rest with
        | none => agg
        | some value => agg.set p.2 value) ∅
    | .zdiff => ((first.map ZSet.sorted).getD []).foldl (fun agg p =>
        if rest.any fun z => (z.1.map fun z => decide (p.2 ∈ z.members)).getD false then agg else agg.set p.2 p.1) ∅

/-- `_aggregate`: the result, built member by member. -/
def _aggregate (op : ZOp) (keys : List (Value × F)) (aggregate : Aggregate) : K F (ZSet F) := do
  let sources ← mapM_ (fun k => do return (← _zset k.1, k.2)) keys
  let agg := aggregateScores op aggregate sources
  Prog.fold (fun (z : ZSet F) p =>
    match z.add p.1 (if PyFloat.isNaN p.2 then PyFloat.zero else p.2) with
    | (some _, z') => pure z'
    | (none, _) => fail) .empty agg.entries

/-- ZUNIONSTORE, ZINTERSTORE and ZDIFFSTORE. -/
def zopStore (op : ZOp) (command : Cmd) (event : Event) (allow_weights : Bool) (dest : Value) (numkeys : Int)
    (rest : List Value) : K F Reply := do
  let (keys, aggregate, _) ← _parse_zset_op command allow_weights false numkeys rest
  let result ← _aggregate (F := F) op keys aggregate
  if result.size = 0 then
    let _ ← data_remove dest
    return .int 0
  setitem dest (.zset result)
  _after_write dest event
  return .int result.size

def ZUNIONSTORE (dest : Value) (numkeys : Int) (rest : List Value) : K F Reply :=
  zopStore .zunion .ZUNIONSTORE .zunionstore true dest numkeys rest

def ZINTERSTORE (dest : Value) (numkeys : Int) (rest : List Value) : K F Reply :=
  zopStore .zinter .ZINTERSTORE .zinterstore true dest numkeys rest

def ZDIFFSTORE (dest : Value) (numkeys : Int) (rest : List Value) : K F Reply :=
  zopStore .zdiff .ZDIFFSTORE .zdiffstore false dest numkeys rest

/-- ZUNION, ZINTER and ZDIFF. -/
def zopRead (op : ZOp) (command : Cmd) (allow_weights : Bool) (numkeys : Int) (rest : List Value) : K F Reply := do
  let (keys, aggregate, withscores) ← _parse_zset_op command allow_weights true numkeys rest
  let result ← _aggregate (F := F) op keys aggregate
  return _interleave result.sorted withscores

def ZUNION (numkeys : Int) (rest : List Value) : K F Reply := zopRead .zunion .ZUNION true numkeys rest

def ZINTER (numkeys : Int) (rest : List Value) : K F Reply := zopRead .zinter .ZINTER true numkeys rest

def ZDIFF (numkeys : Int) (rest : List Value) : K F Reply := zopRead .zdiff .ZDIFF false numkeys rest

end Kagni
