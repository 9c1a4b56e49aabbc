import Kagni.Hiredis

/-!
# RESP values on the wire

A stream of framed values, with null values and simple strings among them and nested in any way, and what the engine relies on
when the C reader is given one. A value keeps the line of its header, so a number may be spelled in more than one way.
-/

namespace Kagni

/-- A line that spells a number: digits, with a sign or without one. -/
inductive Spells : Bytes → Int → Prop
  | plain {ds : Bytes} : ds ≠ [] → (∀ c ∈ ds, isDigit c = true) → Spells ds (digitsValue ds)
  | plus {ds : Bytes} : ds ≠ [] → (∀ c ∈ ds, isDigit c = true) → Spells (43 :: ds) (digitsValue ds)
  | minus {ds : Bytes} : ds ≠ [] → (∀ c ∈ ds, isDigit c = true) → Spells (45 :: ds) (-digitsValue ds)

/-- A RESP value with the line that stands behind its marker. -/
inductive WireValue where
  | simple (line : Bytes)
  | int (line : Bytes) (n : Int)
  | bulk (line : Bytes) (payload : Bytes)
  | nullBulk
  | nullArray
  | array (line : Bytes) (items : List WireValue)

namespace WireValue

mutual

/-- The bytes of a value. -/
def encode : WireValue → Bytes
  | simple line => 43 :: (line ++ SYM_CRLF)
  | int line _ => 58 :: (line ++ SYM_CRLF)
  | bulk line payload => 36 :: (line ++ SYM_CRLF ++ (payload ++ SYM_CRLF))
  | nullBulk => bs "$-1\r\n"
  | nullArray => bs "*-1\r\n"
  | array line items => 42 :: (line ++ SYM_CRLF ++ encodeAll items)

/-- The bytes of values that follow each other. -/
def encodeAll : List WireValue → Bytes
  | [] => []
  | w :: ws => w.encode ++ encodeAll ws

end

mutual

/-- What a reader returns: the payload of a string, an int, `None` for a null, a list. -/
def value : WireValue → Value
  | simple line => .bytes line
  | int _ n => .int n
  | bulk _ payload => .bytes payload
  | nullBulk => .null
  | nullArray => .null
  | array _ items => .array (valueAll items)

/-- What it returns for values that follow each other. -/
def valueAll : List WireValue → List Value
  | [] => []
  | w :: ws => w.value :: valueAll ws

end

mutual

/-- There is a null in the value. -/
def hasNull : WireValue → Bool
  | nullBulk => true
  | nullArray => true
  | array _ items => hasNullAll items
  | _ => false

/-- There is one in some of the values. -/
def hasNullAll : List WireValue → Bool
  | [] => false
  | w :: ws => w.hasNull || hasNullAll ws

end

mutual

/-- How many bytes more the canonical encoding of the value takes: a simple string is written as a bulk string, with the line
of its length, and a number with its own digits. -/
def excess : WireValue → Int
  | simple line => (decimalNat line.length).length + 2
  | int line n => (decimal n).length - line.length
  | bulk line payload => (decimalNat payload.length).length - line.length
  | nullBulk => 0
  | nullArray => 0
  | array line items => (decimalNat items.length).length - line.length + excessAll items

/-- How many more those of the values take together. -/
def excessAll : List WireValue → Int
  | [] => 0
  | w :: ws => w.excess + excessAll ws

end

/-- A simple string is one line, and the line of a header spells the number it is for. -/
inductive WellFormed : WireValue → Prop
  | simple {line : Bytes} : CrlfFree line → WellFormed (.simple line)
  | int {line : Bytes} {n : Int} : Spells line n → WellFormed (.int line n)
  | bulk {line payload : Bytes} : Spells line payload.length → WellFormed (.bulk line payload)
  | nullBulk : WellFormed .nullBulk
  | nullArray : WellFormed .nullArray
  | array {line : Bytes} {items : List WireValue} : Spells line items.length → (∀ w ∈ items, WellFormed w) →
    WellFormed (.array line items)

/-- After so many bytes of the stream the totals coincide in the middle of a value: there is no null before it, and as much of
it has come as the canonical encodings of the values before it are longer. -/
def Misled (longer : Int) : List WireValue → (fed : Nat) → Prop
  | [], _ => False
  | w :: ws, fed =>
    if w.encode.length ≤ fed then w.hasNull = false ∧ Misled (longer + w.excess) ws (fed - w.encode.length)
    else 0 < fed ∧ (fed : Int) = longer

end WireValue

open WireValue

/-- What the engine relies on for a stream of values: `Unread s b`, "the reader in state `s` holds the bytes `b`", under which
a value at the front is returned and taken off, and a part of one is not a value yet. The reader may raise: it has limits of
its own. -/
structure HiredisReader.Incremental (R : HiredisReader) (Unread : R.σ → Bytes → Prop) : Prop where
  new : Unread R.new []
  feed : ∀ {s b}, Unread s b → ∀ d, Unread (R.feed s d) (b ++ d)
  unique : ∀ {s b b'}, Unread s b → Unread s b' → b = b'
  value : ∀ {s} {w : WireValue} {rest}, w.WellFormed → Unread s (w.encode ++ rest) →
    (R.gets s).1 = .error () ∨ ∃ s', R.gets s = (.ok (some w.value), s') ∧ Unread s' rest
  part : ∀ {s b z} {w : WireValue}, w.WellFormed → Unread s b → b ++ z = w.encode → z ≠ [] →
    (R.gets s).1 = .error () ∨ ∃ s', R.gets s = (.ok none, s') ∧ Unread s' b

variable {R : HiredisReader}

/-- The state of the engine after calls of `feed` that all return. -/
def afterHiredis : RESPReader R → (chunks : List Bytes) → Option (RESPReader R)
  | r, [] => some r
  | r, c :: cs =>
    match _feed_hiredis r c with
    | (.ok _, r') => afterHiredis r' cs
    | (.error _, _) => none

/-- The boundary tracking is exact on these chunks: whenever `feed` returns with the engine not engaged, the C reader holds
nothing. -/
def BoundariesExact (Unread : R.σ → Bytes → Prop) (r : RESPReader R) (chunks : List Bytes) : Prop :=
  ∀ pre, pre <+: chunks → ∀ r', afterHiredis r pre = some r' → r'.engaged = false → Unread r'.reader []

end Kagni
