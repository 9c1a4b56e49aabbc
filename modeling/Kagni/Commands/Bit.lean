import Kagni.Commands.Set
import Mathlib.Order.Lattice.Nat

/-!
# Bitmap commands

`commands/bit.py`. A pyroaring `BitMap` is a finite set of 32-bit numbers: asking for, adding or discarding any other raises.
BITFIELD writes into the stored bitmap as it goes, so what it wrote before an exception stays written.
-/

namespace Kagni

open Lib

variable {F : Type}

/-- The indexes a `BitMap` takes are below this. -/
def BITMAP_LIMIT : Nat := 2 ^ 32

/-- `bmap.max()` of a bitmap that is not empty. -/
def bitMax (bmap : Finset Nat) : Nat := bmap.sup id

/-- `bmap.min()`. -/
def bitMin (bmap : Finset Nat) : Option Nat := (bmap.sort (· ≤ ·)).head?

/-- `_byte_length`. -/
def _byte_length (max_bit : Nat) : Nat := max_bit / 8 + 1

/-- `_universe`. -/
def _universe (bmap : Finset Nat) : Nat := _byte_length (bitMax bmap) * 8

/-- `bmap.flip(0, stop)`. -/
def flip (bmap : Finset Nat) (stop : Nat) : Finset Nat := (Finset.range stop \ bmap) ∪ (bmap \ Finset.range stop)

/-- `_bitmap`. -/
def _bitmap (key : Value) : K F (Option (Finset Nat)) := do
  match ← expect_kind key .bitmap with
  | some (.bitmap b) => return some b
  | _ => return none

def SETBIT (key : Value) (bit val : Int) : K F Reply := do
  if bit < 0 ∨ bit > 2 ^ 32 - 1 then throw_ .BIT_OFFSET
  if val ≠ 0 ∧ val ≠ 1 then throw_ .BIT_VALUE
  let previous : Int ← (do
    match ← _bitmap key with
    | none =>
      setitem key (.bitmap (if val = 1 then {bit.toNat} else ∅))
      return 0
    | some bmap =>
      store_value key (.bitmap (if val = 1 then insert bit.toNat bmap else bmap.erase bit.toNat))
      return if bit.toNat ∈ bmap then 1 else 0 : K F Int)
  if previous ≠ val then _after_write key .setbit
  return .int previous

def GETBIT (key : Value) (bit : Int) : K F Reply := do
  if bit < 0 then throw_ .BIT_OFFSET
  match ← _bitmap key with
  | none => return .int 0
  | some bmap => if bit < BITMAP_LIMIT then return .int (if bit.toNat ∈ bmap then 1 else 0) else fail

/-- The operators of BITOP with several sources. -/
def bitOperator (op : Bytes) : Option (Finset Nat → Finset Nat → Finset Nat) :=
  if op = bs "AND" then some (· ∩ ·)
  else if op = bs "OR" then some (· ∪ ·)
  else if op = bs "XOR" then some fun a b => (a \ b) ∪ (b \ a)
  else none

/-- The result of BITOP over its operands. -/
def bitopResult (op : Bytes) (maps : List (Finset Nat)) : K F (Finset Nat) :=
  if op = bs "NOT" then
    match maps with
    | [source] => pure (if source = ∅ then ∅ else flip source (_universe source))
    | _ => throw_ .bitopNot
  else match bitOperator op, maps with
    | some f, m :: rest => pure (rest.foldl f m)
    | some _, [] => fail
    | none, _ => throw_ .SYNTAX

def BITOP (op dest_name : Value) (keys : List Value) : K F Reply := do
  _assert_keys keys .BITOP
  let op ← upperArg op
  let maps ← mapM_ (fun key => do return (← _bitmap key).getD ∅) keys
  let longest := (maps.map bitMax).foldl max 0
  let result ← bitopResult op maps
  if result ≠ ∅ then
    setitem dest_name (.bitmap result)
    _after_write dest_name .set
  else
    let _ ← data_remove dest_name
  return .int (if longest = 0 then 0 else _byte_length longest)

def BITCOUNT (key : Value) : K F Reply := do return .int ((← _bitmap key).getD ∅).card

def BITPOS (key bit : Value) : K F Reply := do
  if bit ≠ .bytes (bs "0") ∧ bit ≠ .bytes (bs "1") then throw_ .BIT_ARG
  match ← _bitmap key with
  | none => return .int (-1)
  | some bmap =>
    if bmap = ∅ then return .int (if bit = .bytes (bs "0") then 0 else -1)
    else if bit = .bytes (bs "1") then return .int (((bitMin bmap).map fun n => (n : Int)).getD (-1))
    else return .int (((bitMin (flip bmap (_universe bmap))).map fun n => (n : Int)).getD (-1))

/-! ## BITFIELD -/

/-- The overflow modes. -/
inductive Overflow where
  | WRAP | SAT | FAIL
  deriving DecidableEq, Repr

/-- The mode an argument names. -/
def Overflow.ofName (name : Bytes) : Option Overflow :=
  if name = bs "WRAP" then some .WRAP
  else if name = bs "SAT" then some .SAT
  else if name = bs "FAIL" then some .FAIL
  else none

/-- A type of BITFIELD: signed or not, and a width. -/
structure FieldType where
  signed : Bool
  width : Nat

/-- A parsed subcommand: GET, or a write (SET or INCRBY) with its amount and the overflow mode in force. -/
inductive Sub where
  | get (type : FieldType) (offset : Nat)
  | write (incrby : Bool) (type : FieldType) (offset : Nat) (amount : Int) (overflow : Overflow)

/-- `_bitfield_type`, on an argument. -/
def _bitfield_type (raw : Value) : K F FieldType := do
  match ← asBytes raw with
  | c :: digits =>
    if (c = 105 ∨ c = 117) ∧ digits ≠ [] ∧ digits.all isDigit then
      let width ← orFail (pyInt digits)
      if width < 1 ∨ width > 64 ∨ (c = 117 ∧ width = 64) then throw_ .BITFIELD_TYPE
      return ⟨c = 105, width.toNat⟩
    else throw_ .BITFIELD_TYPE
  | [] => throw_ .BITFIELD_TYPE

/-- `_bitfield_offset`. -/
def _bitfield_offset (raw : Value) (width : Nat) : K F Nat := do
  match raw with
  | .bytes b =>
    let multiplier := b.head? = some 35
    let offset ← orThrow .BIT_OFFSET (string2ll (if multiplier then b.tail else b))
    if offset < 0 ∨ offset > 2 ^ 32 - 1 then throw_ .BIT_OFFSET
    return if multiplier then offset.toNat * width else offset.toNat
  | .array _ => throw_ .BIT_OFFSET
  | _ => fail

/-- The subcommands, parsed and validated before any of them runs. -/
def bitfieldSubs (ro : Bool) (overflow : Overflow) : List Value → K F (List Sub)
  | [] => pure []
  | opt :: rest => do
    let opt ← upperArg opt
    if opt = bs "OVERFLOW" then
      match rest with
      | [] => throw_ .SYNTAX
      | mode :: rest =>
        match Overflow.ofName (← upperArg mode) with
        | none => throw_ .BITFIELD_OVERFLOW
        | some overflow => bitfieldSubs ro overflow rest
    else if opt = bs "GET" then
      match rest with
      | type :: offset :: rest =>
        let type ← _bitfield_type type
        let offset ← _bitfield_offset offset type.width
        return .get type offset :: (← bitfieldSubs ro overflow rest)
      | _ => throw_ .SYNTAX
    else if opt = bs "SET" ∨ opt = bs "INCRBY" then
      match rest with
      | type :: offset :: amount :: rest =>
        let type ← _bitfield_type type
        let offset ← _bitfield_offset offset type.width
        if ro then throw_ .BITFIELD_RO
        let amount ← orThrow .NOT_INT (toLL amount)
        return .write (opt = bs "INCRBY") type offset amount overflow :: (← bitfieldSubs ro overflow rest)
      | _ => throw_ .SYNTAX
    else throw_ .SYNTAX

/-- `_extract_bits`; `none` when an index is out of range. -/
def _extract_bits (bmap : Finset Nat) (offset width : Nat) : Option Nat :=
  (List.range width).foldl (fun value k => match value with
    | none => none
    | some value => if offset + k < BITMAP_LIMIT then some (2 * value + if offset + k ∈ bmap then 1 else 0) else none) (some 0)

/-- The second loop of `_store_bits`: the bits of `value` below position `n` of the field. -/
def storeLoop (offset : Nat) : (n value : Nat) → Finset Nat → Finset Nat
  | 0, _, bmap => bmap
  | n + 1, value, bmap =>
    if value = 0 then bmap else storeLoop offset n (value / 2) (if value % 2 = 1 then insert (offset + n) bmap else bmap)

/-- `_store_bits`. -/
def _store_bits (bmap : Finset Nat) (offset width value : Nat) : Finset Nat :=
  storeLoop offset width value (bmap.filter fun i => i < offset ∨ offset + width ≤ i)

/-- `_interpret`. -/
def _interpret (value : Nat) (type : FieldType) : Int :=
  if type.signed ∧ value ≥ 2 ^ (type.width - 1) then (value : Int) - 2 ^ type.width else value

/-- `_bitfield_overflow`: `none` is FAIL. -/
def _bitfield_overflow (value : Int) (type : FieldType) (mode : Overflow) : Option Int :=
  let span : Int := 2 ^ type.width
  let lo : Int := if type.signed then -2 ^ (type.width - 1) else 0
  let hi : Int := if type.signed then 2 ^ (type.width - 1) - 1 else span - 1
  if lo ≤ value ∧ value ≤ hi then some value
  else match mode with
    | .SAT => some (if value < lo then lo else hi)
    | .WRAP =>
      let value := value % span
      some (if type.signed ∧ value ≥ 2 ^ (type.width - 1) then value - span else value)
    | .FAIL => none

/-- The execution loop. An existing bitmap is written in place; a new one is stored at the end. -/
def bitfieldLoop (key : Value) (created : Bool) :
    List Sub → (bmap : Finset Nat) → (out : List Reply) → (wrote : Bool) → K F (Finset Nat × List Reply × Bool)
  | [], bmap, out, wrote => pure (bmap, out, wrote)
  | .get type offset :: subs, bmap, out, wrote => do
    let bits ← orFail (_extract_bits bmap offset type.width)
    bitfieldLoop key created subs bmap (out ++ [.int (_interpret bits type)]) wrote
  | .write incrby type offset amount overflow :: subs, bmap, out, wrote => do
    let current := _interpret (← orFail (_extract_bits bmap offset type.width)) type
    match _bitfield_overflow (if incrby then current + amount else amount) type overflow with
    | none => bitfieldLoop key created subs bmap (out ++ [.NIL]) wrote
    | some value =>
      let bmap := _store_bits bmap offset type.width (value % 2 ^ type.width).toNat
      if !created then store_value key (.bitmap bmap)
      bitfieldLoop key created subs bmap (out ++ [.int (if incrby then value else current)]) true

/-- `_bitfield`. -/
def _bitfield (key : Value) (args : List Value) (ro : Bool) : K F Reply := do
  let subs ← bitfieldSubs ro .WRAP args
  let stored ← _bitmap key
  let (bmap, out, wrote) ← bitfieldLoop key stored.isNone subs (stored.getD ∅) [] false
  if stored.isNone ∧ wrote then setitem key (.bitmap bmap)
  if wrote then _after_write key .setbit
  return .list out

def BITFIELD (key : Value) (args : List Value) : K F Reply := _bitfield key args false

def BITFIELD_RO (key : Value) (args : List Value) : K F Reply := _bitfield key args true

end Kagni
