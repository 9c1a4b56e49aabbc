import Kagni.Keyspace

/-!
# What the command modules share

`commands/common.py` and the casts of `commands/decorator.py`. A parameter without an annotation, or annotated with `bytes` or a
`List`, is passed on as it came: nothing checks that it is a byte string. So an option may be an integer or a list, and `upper`
raises on it.
-/

namespace Kagni

open Lib

variable {F : Type}

/-- `INT64_MIN`. -/
def INT64_MIN : Int := -2 ^ 63

/-- `INT64_MAX`. -/
def INT64_MAX : Int := 2 ^ 63 - 1

/-- `string2ll` on a byte string; `none` is `ValueError`. -/
def string2ll (raw : Bytes) : Option Int :=
  if raw = [] then none
  else if raw = [48] then some 0
  else
    let negative := raw.head? = some 45
    let digits := if negative then raw.tail else raw
    if digits = [] ∨ digits.head? = some 48 then none
    else if digits.any fun c => !isDigit c then none
    else if digits.length > MAX_STR_DIGITS then none
    else
      let value : Int := if negative then -digitsValue digits else digitsValue digits
      if value < INT64_MIN ∨ INT64_MAX < value then none else some value

/-- `string2ll` on any argument: what is not a byte string is a `ValueError` too. -/
def toLL : Value → Option Int
  | .bytes b => string2ll b
  | _ => none

/-- An argument annotated with `int`. -/
def intArg (v : Value) : K F Int :=
  match toLL v with
  | some n => pure n
  | none => throw_ .NOT_INT

/-- An optional argument annotated with `int`. -/
def intArg? : Option Value → K F (Option Int)
  | none => pure none
  | some v => do return some (← intArg v)

/-- `string2ll(arg)` where a `ValueError` becomes the error `e`. -/
def orThrow (e : Errors) : Option Int → K F Int
  | some n => pure n
  | none => throw_ e

/-- A method call on an argument that only byte strings have: `AttributeError` otherwise. -/
def asBytes : Value → K F Bytes
  | .bytes b => pure b
  | _ => fail

/-- `arg.upper()`. -/
def upperArg (v : Value) : K F Bytes := do return upper (← asBytes v)

/-- `RE_NUMERIC.match`: an optional minus sign and digits. -/
def RE_NUMERIC (b : Bytes) : Bool :=
  let digits := if b.head? = some 45 then b.tail else b
  digits ≠ [] ∧ digits.all isDigit

/-- Whitespace for `str.strip`, among the ASCII characters. -/
def isStrSpace (c : UInt8) : Bool := isSpace c ∨ (28 ≤ c ∧ c ≤ 31)

/-- `text != text.strip()`. -/
def hasOuterSpace (b : Bytes) : Bool := (b.head?.map isStrSpace).getD false ∨ (b.getLast?.map isStrSpace).getD false

section Float

variable [PyFloat F]

/-- `_parse_float` on a byte string; `none` is `NOT_FLOAT`. A literal that overflows to infinity or underflows to zero is
refused. -/
def _parse_float (raw : Bytes) : Option F :=
  if raw.any (fun c => !decide (c < 128)) ∨ raw = [] ∨ hasOuterSpace raw then none
  else match PyFloat.parse raw with
    | none => none
    | some value =>
      if PyFloat.isNaN value then none
      else if PyFloat.isInf value then
        let core := (lower raw).dropWhile fun c => c = 43 ∨ c = 45
        if core = bs "inf" ∨ core = bs "infinity" then some value else none
      else if PyFloat.eq value (PyFloat.zero : F) ∧ raw.any (fun c => 49 ≤ c ∧ c ≤ 57) then none
      else some value

/-- `_parse_float(arg)`, the error being `e`: `decode` is an `AttributeError` on what is not a byte string. -/
def floatArg (e : Errors) (v : Value) : K F F := do
  match _parse_float (← asBytes v) with
  | some x => return x
  | none => throw_ e

/-- `_format_float`. -/
def _format_float (value : F) : Text :=
  let text := PyFloat.repr value
  let text := if (bs ".0").isSuffixOf text then text.take (text.length - 2) else text
  if text = bs "-0" then bs "0" else text

/-- `math.isfinite`. -/
def isfinite (value : F) : Bool := !PyFloat.isNaN value && !PyFloat.isInf value

end Float

/-- `parse_scan_cursor`. -/
def parse_scan_cursor (raw : Value) : K F Int := do
  let value ← orThrow .INVALID_CURSOR (toLL raw)
  if value < 0 then throw_ .INVALID_CURSOR else return value

/-- `COUNT` of the SCAN family: a hint, but a positive integer. -/
def scanCount (value : Value) : K F Unit := do
  let count ← orThrow .NOT_INT (toLL value)
  if count < 1 then throw_ .SYNTAX

/-- `parse_scan_options`: the MATCH pattern. -/
def parse_scan_options (pattern : Option Value) : List Value → K F (Option Value)
  | [] => pure pattern
  | [opt] => do
    let _ ← upperArg opt
    throw_ .SYNTAX
  | opt :: value :: rest => do
    let opt ← upperArg opt
    if opt = bs "MATCH" then parse_scan_options (some value) rest
    else if opt = bs "COUNT" then
      scanCount value
      parse_scan_options pattern rest
    else throw_ .SYNTAX

/-- `compile_glob(pattern)`, where no pattern, which is Python's `None` as much as an absent option, matches everything. -/
def compilePattern : Option Value → K F (Option (Bytes → Bool))
  | none | some .null => pure none
  | some p => do return some (← compile_glob p)

/-- `rgx is None or rgx.match(v)`. -/
def patternMatches (rgx : Option (Bytes → Bool)) (v : Value) : K F Bool :=
  match rgx with
  | none => pure true
  | some matcher => matches_ matcher v

/-- `[x for x in xs if p(x)]`. -/
def filterM_ {α : Type} (p : α → K F Bool) : List α → K F (List α)
  | [] => pure []
  | x :: xs => do
    let keep ← p x
    let rest ← filterM_ p xs
    return if keep then x :: rest else rest

/-- `[f(x) for x in xs]`. -/
def mapM_ {α β : Type} (f : α → K F β) : List α → K F (List β)
  | [] => pure []
  | x :: xs => do
    let y ← f x
    let ys ← mapM_ f xs
    return y :: ys

/-- The options of a command that knows one flag, which may be repeated. -/
def flagOptions (name : Bytes) : List Value → K F Unit
  | [] => pure ()
  | opt :: rest => do
    if (← upperArg opt) = name then flagOptions name rest else throw_ .SYNTAX

/-- A negative index counts from the end, and the window of `[start, stop]`: the LRANGE conventions. -/
def sliceRanks {α : Type} (items : List α) (start stop : Int) : List α :=
  match ZSet.rankWindow items.length start stop with
  | none => []
  | some (i, j) => (items.take j).drop i

/-- A Python slice bound: negative ones count from the end, and both are brought into the list. -/
def sliceBound (length : Nat) (i : Int) : Nat :=
  if i < 0 then (i + length).toNat else min i.toNat length

/-- `items[start:stop]`. -/
def slice {α : Type} (items : List α) (start stop : Int) : List α :=
  (items.take (sliceBound items.length stop)).drop (sliceBound items.length start)

end Kagni
