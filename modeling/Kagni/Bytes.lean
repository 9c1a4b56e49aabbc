import Mathlib.Data.Nat.Digits.Defs
import Mathlib.Tactic.Common

/-!
# Byte strings

A Python `bytes` object is a list of bytes. A Python `str` occurs in the program only as the text of a reply, so it is represented
by its UTF-8 encoding (`Text`): `encode()` is the identity on it, and `decode("ascii", "replace")` puts the encoding of U+FFFD in
place of every byte that is not ASCII.
-/

namespace Kagni

/-- A Python `bytes` object. -/
abbrev Bytes := List UInt8

/-- A Python `str`, by its UTF-8 encoding. -/
abbrev Text := Bytes

/-- The bytes of a literal. -/
def bs (s : String) : Bytes := s.toUTF8.data.toList

/-- `SYM_CRLF`. -/
def SYM_CRLF : Bytes := [13, 10]

/-- `c.upper()` on one byte: ASCII letters only. -/
def upperByte (c : UInt8) : UInt8 := if 97 ≤ c ∧ c ≤ 122 then c - 32 else c

/-- `c.lower()` on one byte. -/
def lowerByte (c : UInt8) : UInt8 := if 65 ≤ c ∧ c ≤ 90 then c + 32 else c

/-- `b.upper()`. -/
def upper (b : Bytes) : Bytes := b.map upperByte

/-- `b.lower()`. -/
def lower (b : Bytes) : Bytes := b.map lowerByte

/-- `b.decode("ascii", "replace")`. -/
def decodeAscii (b : Bytes) : Text := b.flatMap fun c => if c < 128 then [c] else [239, 191, 189]

/-- `b.decode("ascii", "replace").encode("ascii", "replace")`: what is not ASCII becomes a question mark. -/
def asciiOrQuestion (b : Bytes) : Bytes := b.map fun c => if c < 128 then c else 63

/-- ASCII whitespace, as `bytes.split` and `int` see it. -/
def isSpace (c : UInt8) : Bool := c = 32 ∨ (9 ≤ c ∧ c ≤ 13)

/-- `b.split()`: runs of whitespace separate the tokens; `cur` is the token being read, reversed. -/
def splitFrom (cur : Bytes) : Bytes → List Bytes
  | [] => if cur = [] then [] else [cur.reverse]
  | c :: rest =>
    if isSpace c then (if cur = [] then splitFrom [] rest else cur.reverse :: splitFrom [] rest)
    else splitFrom (c :: cur) rest

/-- `b.split()`. -/
def split (b : Bytes) : List Bytes := splitFrom [] b

/-- Whitespace removed at both ends. -/
def strip (b : Bytes) : Bytes := ((b.dropWhile isSpace).reverse.dropWhile isSpace).reverse

/-- `a < b` on byte strings: lexicographic. -/
def bytesLt : Bytes → Bytes → Bool
  | _, [] => false
  | [], _ :: _ => true
  | a :: as, b :: bs => decide (a < b) || (decide (a = b) && bytesLt as bs)

/-- An ASCII digit. -/
def isDigit (c : UInt8) : Bool := 48 ≤ c ∧ c ≤ 57

/-- The value of a string of digits. -/
def digitsValue (b : Bytes) : Nat := b.foldl (fun n c => 10 * n + (c.toNat - 48)) 0

/-- `b"%d" % n` for a natural number. -/
def decimalNat (n : Nat) : Bytes :=
  if n = 0 then [48] else (Nat.digits 10 n).reverse.map fun d => UInt8.ofNat (48 + d)

/-- `b"%d" % n`. -/
def decimal (n : Int) : Bytes := if n < 0 then 45 :: decimalNat n.natAbs else decimalNat n.natAbs

/-- The longest digit string `int` converts (`sys.int_info.default_max_str_digits`). -/
def MAX_STR_DIGITS : Nat := 4300

/-- The digits of an `int` literal: single underscores may stand between two digits. `some ds` holds the digits without them. -/
def literalDigits : Bytes → Option Bytes
  | [] => none
  | [c] => if isDigit c then some [c] else none
  | c :: d :: rest =>
    if isDigit c then
      if d = 95 then (literalDigits rest).map (c :: ·) else (literalDigits (d :: rest)).map (c :: ·)
    else none

/-- The sign of an `int` literal, and what follows it. -/
def sign : Bytes → Bool × Bytes
  | 45 :: rest => (true, rest)
  | 43 :: rest => (false, rest)
  | t => (false, t)

/-- `int(b)` for a byte string, `none` being `ValueError`: whitespace around it, a sign, underscores between digits, and not more
digits than the interpreter converts. -/
def pyInt (b : Bytes) : Option Int :=
  match literalDigits (sign (strip b)).2 with
  | none => none
  | some ds =>
    if ds.length > MAX_STR_DIGITS then none
    else some (if (sign (strip b)).1 then -(digitsValue ds : Int) else digitsValue ds)

example : pyInt (bs " -1_0 ") = some (-10) := by decide +kernel

/-- `buf.find(b"\r\n")`: the first position of a CRLF. -/
def findCrlf : Bytes → Option Nat
  | [] => none
  | [_] => none
  | c :: d :: rest => if c = 13 ∧ d = 10 then some 0 else (findCrlf (d :: rest)).map (· + 1)

/-- A line: bytes that hold no CRLF. -/
def CrlfFree (b : Bytes) : Prop := findCrlf b = none

instance (b : Bytes) : Decidable (CrlfFree b) := inferInstanceAs (Decidable (_ = _))

end Kagni
