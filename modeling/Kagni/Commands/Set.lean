import Kagni.Commands.Common

/-!
# Set commands

`commands/set.py`. The elements of a Python set come in no particular order; here they come in the order they were added, and
`pop` takes a random one. A list among the members raises in the middle of an `update`: the members before it have been added
by then.
-/

namespace Kagni

open Lib

variable {F : Type}

/-- `_set`. -/
def _set (key : Value) : K F (Option (OrdSet Value)) := do
  match ← expect_kind key .set with
  | some (.set s) => return some s
  | _ => return none

/-- `_sets`: a missing key is an empty set. -/
def _sets (keys : List Value) : K F (List (OrdSet Value)) :=
  mapM_ (fun key => do
    match ← data_get key with
    | none => return ∅
    | some (.set s) => return s
    | some _ => throw_ .WRONGTYPE) keys

/-- `_assert_keys` and `_assert_members`. -/
def _assert_keys (keys : List Value) (command : Cmd) : K F Unit :=
  if keys = [] then throw_ (.arity command) else pure ()

/-- The values before the first that has no hash. -/
def hashables (vals : List Value) : List Value := vals.takeWhile Value.hashable

/-- Raise when some value has no hash. -/
def needHashes (vals : List Value) : K F Unit := if vals.all Value.hashable then pure () else fail

/-- `len` of an optional collection and the list of its elements. -/
def members (s : OrdSet Value) : Reply := .values s.elems

def SADD (key : Value) (vals : List Value) : K F Reply := do
  _assert_keys vals .SADD
  match ← _set key with
  | none =>
    needHashes vals
    setitem key (.set (.ofList vals))
    _after_write key .sadd
    return .int (OrdSet.ofList vals).card
  | some cur =>
    let cur' := cur.insertAll (hashables vals)
    store_value key (.set cur')
    needHashes vals
    let added := cur'.card - cur.card
    if added ≠ 0 then _after_write key .sadd
    return .int added

def SCARD (key : Value) : K F Reply := do
  match ← _set key with
  | none => return .int 0
  | some cur => return .int cur.card

def SMEMBERS (key : Value) : K F Reply := do
  match ← _set key with
  | none => return .list []
  | some cur => return members cur

/-- The loop of SREM: the set that is left and the number removed. -/
def sremLoop : List Value → OrdSet Value → (removed : Nat) → OrdSet Value × Nat
  | [], cur, removed => (cur, removed)
  | member :: rest, cur, removed =>
    if member ∈ cur then sremLoop rest (cur.erase member) (removed + 1) else sremLoop rest cur removed

def SREM (key : Value) (val : List Value) : K F Reply := do
  _assert_keys val .SREM
  match ← _set key with
  | none => return .int 0
  | some cur =>
    let (cur', removed) := sremLoop (hashables val) cur 0
    store_value key (.set cur')
    needHashes val
    if removed ≠ 0 then _after_write key .srem
    if cur'.elems = [] then
      let _ ← data_remove key
      if removed ≠ 0 then _notify key .del
    return .int removed

/-- `reduce(op, sets[1:], set(sets[0]))`. -/
def setReduce (op : OrdSet Value → OrdSet Value → OrdSet Value) : List (OrdSet Value) → OrdSet Value
  | [] => ∅
  | s :: rest => rest.foldl op s

/-- SDIFF, SINTER and SUNION. -/
def setOp (op : OrdSet Value → OrdSet Value → OrdSet Value) (command : Cmd) (keys : List Value) : K F Reply := do
  _assert_keys keys command
  let sets ← _sets keys
  return members (setReduce op sets)

/-- `_store_result`: an empty result deletes the target, with no touch and no event. -/
def _store_result (target : Value) (result : OrdSet Value) (event : Event) : K F Reply := do
  if result.elems ≠ [] then
    setitem target (.set result)
    _after_write target event
  else
    let _ ← data_remove target
  return .int result.card

/-- SDIFFSTORE, SINTERSTORE and SUNIONSTORE. -/
def setOpStore (op : OrdSet Value → OrdSet Value → OrdSet Value) (command : Cmd) (event : Event) (target : Value)
    (keys : List Value) : K F Reply := do
  _assert_keys keys command
  let sets ← _sets keys
  _store_result target (setReduce op sets) event

def SDIFF (keys : List Value) : K F Reply := setOp .diff .SDIFF keys

def SDIFFSTORE (target : Value) (keys : List Value) : K F Reply := setOpStore .diff .SDIFFSTORE .sdiffstore target keys

def SINTER (keys : List Value) : K F Reply := setOp .inter .SINTER keys

def SINTERSTORE (target : Value) (keys : List Value) : K F Reply :=
  setOpStore .inter .SINTERSTORE .sinterstore target keys

def SUNION (keys : List Value) : K F Reply := setOp .union .SUNION keys

def SUNIONSTORE (target : Value) (keys : List Value) : K F Reply :=
  setOpStore .union .SUNIONSTORE .sunionstore target keys

/-- The options of SINTERCARD. -/
def intercardOptions (limit : Int) : List Value → K F Int
  | [] => pure limit
  | [opt] => do
    let _ ← upperArg opt
    throw_ .SYNTAX
  | opt :: value :: rest => do
    if (← upperArg opt) = bs "LIMIT" then
      let limit := (toLL value).getD (-1)
      if limit < 0 then throw_ .limitNegative
      intercardOptions limit rest
    else throw_ .SYNTAX

/-- The counting loop of SINTERCARD. -/
def intercardLoop (others : List (OrdSet Value)) (limit : Int) : List Value → (count : Nat) → Nat
  | [], count => count
  | member :: rest, count =>
    if others.all fun other => decide (member ∈ other) then
      if limit ≠ 0 ∧ (count + 1 : Int) ≥ limit then count + 1 else intercardLoop others limit rest (count + 1)
    else intercardLoop others limit rest count

def SINTERCARD (numkeys : Int) (rest : List Value) : K F Reply := do
  if numkeys < 1 then throw_ .numkeys
  if numkeys > rest.length then throw_ .manyKeys
  let limit ← intercardOptions 0 (rest.drop numkeys.toNat)
  match ← _sets (rest.take numkeys.toNat) with
  | [] => fail
  | first :: others => return .int (intercardLoop others limit first.elems 0)

def SSCAN (key cursor : Value) (options : List Value) : K F Reply := do
  let _ ← parse_scan_cursor cursor
  let pattern ← parse_scan_options none options
  let rgx ← compilePattern pattern
  match ← _set key with
  | none => return .list [.bytes (bs "0"), .list []]
  | some cur => return .list [.bytes (bs "0"), .values (← filterM_ (patternMatches rgx) cur.elems)]

def SMISMEMBER (key : Value) (vals : List Value) : K F Reply := do
  if vals = [] then throw_ (.arity .SMISMEMBER)
  match ← _set key with
  | none => return .list (vals.map fun _ => .int 0)
  | some cur =>
    needHashes vals
    return .list (vals.map fun member => .int (if member ∈ cur then 1 else 0))

def SISMEMBER (key val : Value) : K F Reply := do
  match ← _set key with
  | none => return .int 0
  | some cur =>
    needHash val
    return .int (if val ∈ cur then 1 else 0)

def SMOVE (source target val : Value) : K F Reply := do
  match ← _set source with
  | none => return .int 0
  | some src =>
    needHash val
    if val ∉ src then return .int 0
    -- the target is checked before the member leaves the source
    let dst ← _set target
    let src' := src.erase val
    store_value source (.set src')
    match dst with
    | none => setitem target (.set (OrdSet.insert ∅ val))
    | some dst =>
      -- with one key for both, the member goes back where it was taken from
      store_value target (.set ((if source = target then src' else dst).insert val))
    let src'' := if source = target then src'.insert val else src'
    _after_write source .srem
    if src''.elems = [] then
      let _ ← data_remove source
      _notify source .del
    _after_write target .sadd
    return .int 1

/-- `cur.pop()`, in place. -/
def popMember (key : Value) (cur : OrdSet Value) : K F (Value × OrdSet Value) := do
  let val ← choice cur.elems
  store_value key (.set (cur.erase val))
  return (val, cur.erase val)

/-- `[cur.pop() for _ in range(count)]`. -/
def popMembers (key : Value) : Nat → OrdSet Value → K F (List Value)
  | 0, _ => pure []
  | count + 1, cur => do
    let (val, cur') ← popMember key cur
    let vals ← popMembers key count cur'
    return val :: vals

def SPOP (key : Value) (count : Option Int) : K F Reply := do
  if count.any (· < 0) then throw_ .NOT_POSITIVE
  let cur := (← _set key).getD ∅
  if cur.elems = [] then return (if count = none then .NIL else .list [])
  match count with
  | none =>
    let (val, cur') ← popMember key cur
    _after_write key .spop
    if cur'.elems = [] then
      let _ ← data_remove key
      _notify key .del
    return .ofValue val
  | some count =>
    if count = 0 then return .list []
    if count ≥ cur.card then
      _after_write key .spop
      let _ ← data_remove key
      _notify key .del
      return members cur
    _after_write key .spop
    return .values (← popMembers key count.toNat cur)

def SRANDMEMBER (key : Value) (count : Option Int) : K F Reply := do
  let cur := (← _set key).getD ∅
  if cur.elems = [] then return (if count = none then .NIL else .list [])
  match count with
  | none => return .ofValue (← choice cur.elems)
  | some count => return .values (← pick cur.elems count)

end Kagni
