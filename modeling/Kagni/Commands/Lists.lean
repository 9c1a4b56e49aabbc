import Kagni.Commands.Common

/-!
# List commands

`commands/lists.py`. A stored list is a `deque`; a plain Python list, which a client can store as the value of a SET, counts as a
list too, but has no `popleft`, `appendleft` or `extendleft`.
-/

namespace Kagni

open Lib

variable {F : Type}

/-- A stored list: its items, and whether it is a `deque`. -/
structure ListRef where
  isDeque : Bool
  items : List Value

/-- The stored value. -/
def ListRef.obj (l : ListRef) : Obj F := if l.isDeque then .deque l.items else .raw (.array l.items)

/-- `_list`. -/
def _list (key : Value) : K F (Option ListRef) := do
  match ← expect_kind key .list with
  | some (.deque items) => return some ⟨true, items⟩
  | some (.raw (.array items)) => return some ⟨false, items⟩
  | _ => return none

/-- A method only a `deque` has. -/
def needDeque (l : ListRef) (left : Bool) : K F Unit := if left ∧ !l.isDeque then fail else pure ()

/-- `_drop_empty`. -/
def _drop_empty (key : Value) (items : List Value) : K F Unit := do
  if items = [] then
    let _ ← data_remove key

/-- `_pop_notify`: the pop, and `del` when the list is gone. -/
def _pop_notify (key : Value) (left : Bool) : K F Unit := do
  _after_write key (if left then .lpop else .rpop)
  if !(← is_live key) then _notify key .del

/-- Values pushed at one end: at the left the last one ends up at the head. -/
def pushed (items vals : List Value) (left : Bool) : List Value := if left then vals.reverse ++ items else items ++ vals

/-- `_push`. -/
def _push (key : Value) (vals : List Value) (left xx : Bool) : K F Reply := do
  match ← _list key with
  | none =>
    if xx then return .int 0
    setitem key (.deque (pushed [] vals left))
    _after_write key (if left then .lpush else .rpush)
    return .int vals.length
  | some lst =>
    needDeque lst left
    store_value key (ListRef.obj { lst with items := pushed lst.items vals left })
    _after_write key (if left then .lpush else .rpush)
    return .int (pushed lst.items vals left).length

/-- LPUSH, RPUSH, LPUSHX and RPUSHX. -/
def push (command : Cmd) (left xx : Bool) (key : Value) (vals : List Value) : K F Reply := do
  if vals = [] then throw_ (.arity command)
  _push key vals left xx

def LPUSH (key : Value) (vals : List Value) : K F Reply := push .LPUSH true false key vals

def RPUSH (key : Value) (vals : List Value) : K F Reply := push .RPUSH false false key vals

def LPUSHX (key : Value) (vals : List Value) : K F Reply := push .LPUSHX true true key vals

def RPUSHX (key : Value) (vals : List Value) : K F Reply := push .RPUSHX false true key vals

def LLEN (key : Value) : K F Reply := do
  match ← _list key with
  | none => return .int 0
  | some lst => return .int lst.items.length

def LRANGE (key : Value) (start stop : Int) : K F Reply := do
  match ← _list key with
  | none => return .list []
  | some lst => return .values (sliceRanks lst.items start stop)

/-- The position an index denotes: a negative one counts from the end. -/
def position (length : Nat) (index : Int) : Option Nat :=
  let i := if index ≥ 0 then index else length + index
  if i < 0 ∨ i ≥ length then none else some i.toNat

def LINDEX (key : Value) (index : Int) : K F Reply := do
  match ← _list key with
  | none => return .NIL
  | some lst => return (((position lst.items.length index).bind (lst.items[·]?)).map Reply.ofValue).getD .NIL

/-- `n` pops at one end: what is popped, in order, and what is left. -/
def popped (items : List Value) (n : Nat) (left : Bool) : List Value × List Value :=
  if left then (items.take n, items.drop n)
  else ((items.drop (items.length - n)).reverse, items.take (items.length - n))

/-- `n` pops in place, `_drop_empty` and `_pop_notify`. -/
def popInPlace (key : Value) (lst : ListRef) (n : Nat) (left : Bool) : K F (List Value) := do
  needDeque lst left
  let (vals, rest) := popped lst.items n left
  store_value key (ListRef.obj { lst with items := rest })
  _drop_empty key rest
  _pop_notify key left
  return vals

/-- `_pop`. -/
def _pop (key : Value) (count : Option Int) (left : Bool) : K F Reply := do
  if count.any (· < 0) then throw_ .NOT_POSITIVE
  match ← _list key with
  | none => return (if count = none then .NIL else .NIL_ARRAY)
  | some lst =>
    if count = some 0 then return .list []
    if lst.items = [] then
      let _ ← data_remove key
      return (if count = none then .NIL else .NIL_ARRAY)
    match count with
    | none =>
      match ← popInPlace key lst 1 left with
      | [val] => return .ofValue val
      | _ => fail
    | some count => return .values (← popInPlace key lst (min count.toNat lst.items.length) left)

def LPOP (key : Value) (count : Option Int) : K F Reply := _pop key count true

def RPOP (key : Value) (count : Option Int) : K F Reply := _pop key count false

def LSET (key : Value) (index : Int) (val : Value) : K F Reply := do
  match ← _list key with
  | none => throw_ .NOKEY
  | some lst =>
    match position lst.items.length index with
    | none => throw_ .INDEX_RANGE
    | some i =>
      store_value key (ListRef.obj { lst with items := lst.items.set i val })
      _after_write key .lset
      return .OK

def LTRIM (key : Value) (start stop : Int) : K F Reply := do
  match ← _list key with
  | none => return .OK
  | some lst =>
    match ZSet.rankWindow lst.items.length start stop with
    | none =>
      -- trimmed to nothing: no touch and no event
      let _ ← data_remove key
      return .OK
    | some (i, j) =>
      _after_write key .ltrim
      if i = 0 ∧ j = lst.items.length then return .OK
      data_set key (.deque ((lst.items.take j).drop i)) none true
      return .OK

/-- The loop of LREM from the head: the items kept and the number removed. `count = 0` removes every match. -/
def lremLoop (val : Value) (count : Nat) : List Value → (removed : Nat) → List Value × Nat
  | [], removed => ([], removed)
  | item :: rest, removed =>
    if item = val ∧ (count = 0 ∨ removed < count) then lremLoop val count rest (removed + 1)
    else
      let (kept, removed') := lremLoop val count rest removed
      (item :: kept, removed')

def LREM (key : Value) (count : Int) (val : Value) : K F Reply := do
  match ← _list key with
  | none => return .int 0
  | some lst =>
    let (kept, removed) :=
      if count ≥ 0 then lremLoop val count.toNat lst.items 0
      else
        let (kept, removed) := lremLoop val count.natAbs lst.items.reverse 0
        (kept.reverse, removed)
    if removed ≠ 0 then
      _after_write key .lrem
      if kept ≠ [] then data_set key (.deque kept) none true
      else
        let _ ← data_remove key
        _notify key .del
    return .int removed

def LINSERT (key «where» pivot val : Value) : K F Reply := do
  let side ← upperArg «where»
  let offset ← (if side = bs "BEFORE" then pure 0 else if side = bs "AFTER" then pure 1 else throw_ .SYNTAX : K F Nat)
  match ← _list key with
  | none => return .int 0
  | some lst =>
    match lst.items.findIdx? fun item => decide (item = pivot) with
    | none => return .int (-1)
    | some i =>
      store_value key (ListRef.obj { lst with items := lst.items.insertIdx (i + offset) val })
      _after_write key .linsert
      return .int (lst.items.length + 1)

/-- `_list_side`: whether it is LEFT. -/
def _list_side («where» : Value) : K F Bool := do
  let side ← upperArg «where»
  if side = bs "LEFT" then return true
  else if side = bs "RIGHT" then return false
  else throw_ .SYNTAX

/-- `_move`. -/
def _move (source destination : Value) (from_left to_left : Bool) : K F Reply := do
  match ← _list source with
  | none => return .NIL
  | some src =>
    if src.items = [] then
      let _ ← data_remove source
      return .NIL
    let dst ← (if destination = source then pure (some src) else _list destination : K F (Option ListRef))
    needDeque src from_left
    match popped src.items 1 from_left with
    | ([value], rest) =>
      store_value source (ListRef.obj { src with items := rest })
      match dst with
      | none => setitem destination (.deque [value])
      | some dst =>
        needDeque dst to_left
        -- with one key for both, the list is rotated
        let items := if destination = source then rest else dst.items
        store_value destination (ListRef.obj { dst with items := pushed items [value] to_left })
      _after_write destination (if to_left then .lpush else .rpush)
      _after_write source (if from_left then .lpop else .rpop)
      if destination ≠ source ∧ rest = [] then
        let _ ← data_remove source
        _notify source .del
      return .ofValue value
    | _ => fail

def LMOVE (source destination wherefrom whereto : Value) : K F Reply := do
  let from_left ← _list_side wherefrom
  let to_left ← _list_side whereto
  _move source destination from_left to_left

def RPOPLPUSH (source destination : Value) : K F Reply := _move source destination false true

/-- The options of LMPOP: COUNT once, and nothing after it. -/
def lmpopOptions : List Value → K F Int
  | [] => pure 1
  | [opt] => do
    let _ ← upperArg opt
    throw_ .SYNTAX
  | opt :: value :: rest => do
    if (← upperArg opt) = bs "COUNT" then
      let count ← orThrow .NOT_INT (toLL value)
      if count < 1 then throw_ .countPositive
      if rest ≠ [] then throw_ .SYNTAX
      return count
    else throw_ .SYNTAX

/-- The loop of LMPOP over the keys. -/
def lmpopLoop (count : Int) (from_left : Bool) : List Value → K F Reply
  | [] => pure .NIL_ARRAY
  | key :: keys => do
    match ← _list key with
    | none => lmpopLoop count from_left keys
    | some lst =>
      if lst.items = [] then
        let _ ← data_remove key
        lmpopLoop count from_left keys
      else
        let vals ← popInPlace key lst (min count.toNat lst.items.length) from_left
        return .list [.ofValue key, .values vals]

def LMPOP (numkeys : Int) (rest : List Value) : K F Reply := do
  if numkeys < 1 then throw_ .numkeys
  match rest.drop numkeys.toNat with
  | [] => throw_ .SYNTAX
  | side :: options =>
    let from_left ← _list_side side
    let count ← lmpopOptions options
    lmpopLoop count from_left (rest.take numkeys.toNat)

/-- The options of LPOS: rank, count (`none` when not given) and maxlen. -/
def lposOptions : (rank : Int) → (count : Option Int) → (maxlen : Int) → List Value → K F (Int × Option Int × Int)
  | rank, count, maxlen, [] => pure (rank, count, maxlen)
  | _, _, _, [opt] => do
    let _ ← upperArg opt
    throw_ .SYNTAX
  | rank, count, maxlen, opt :: value :: rest => do
    let option ← upperArg opt
    if option ≠ bs "RANK" ∧ option ≠ bs "COUNT" ∧ option ≠ bs "MAXLEN" then throw_ .SYNTAX
    let value ← orThrow .NOT_INT (toLL value)
    if option = bs "RANK" then
      if value = 0 then throw_ .RANK_ZERO
      lposOptions value count maxlen rest
    else if option = bs "COUNT" then
      if value < 0 then throw_ .COUNT_NEG
      lposOptions rank (some value) maxlen rest
    else
      if value < 0 then throw_ .MAXLEN_NEG
      lposOptions rank count value rest

/-- The scan of LPOS: `index` is the distance from the end the scan starts at. The positions found, in scan order; a scan without
COUNT stops at the first. -/
def lposLoop (element : Value) (rank : Int) (count : Option Int) (maxlen : Int) :
    List Value → (index matched : Nat) → (found : List Nat) → List Nat
  | [], _, _, found => found
  | item :: rest, index, matched, found =>
    if maxlen ≠ 0 ∧ (index : Int) ≥ maxlen then found
    else if item ≠ element then lposLoop element rank count maxlen rest (index + 1) matched found
    else if (matched + 1 : Int) < rank then lposLoop element rank count maxlen rest (index + 1) (matched + 1) found
    else
      let found := found ++ [index]
      match count with
      | none => found
      | some c =>
        if c ≠ 0 ∧ (found.length : Int) ≥ c then found
        else lposLoop element rank count maxlen rest (index + 1) (matched + 1) found

def LPOS (key element : Value) (options : List Value) : K F Reply := do
  let (rank, count, maxlen) ← lposOptions 1 none 0 options
  match ← _list key with
  | none => return (if count = none then .NIL else .list [])
  | some lst =>
    let from_tail := rank < 0
    let items := if from_tail then lst.items.reverse else lst.items
    let found := (lposLoop element rank.natAbs count maxlen items 0 0 []).map fun index =>
      if from_tail then lst.items.length - 1 - index else index
    if count = none then return ((found.head?.map fun i => .int i).getD .NIL)
    else return .list (found.map fun i => .int i)

end Kagni
