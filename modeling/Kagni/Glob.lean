import Kagni.Bytes
import Kagni.Lib.Wildcard

/-!
# Glob patterns

`compile_glob` decodes a pattern to text, lets `fnmatch.translate` turn the text into a regular expression, encodes that and hands
the bytes to `re.compile`. The standard library's part is written out here for Python 3.11 and later: the text is a list of code
points, with `0xDC80` to `0xDCFF` for the bytes that are no UTF-8, the regular expression a list of pieces, and the compiled one a
list of tokens over bytes. Below it stands how redis reads the same bytes.
-/

namespace Kagni.Glob

open Lib.Wildcard

/-- A decoded pattern, by its code points. -/
abbrev Points := List Nat

/-! ## UTF-8 with `surrogateescape` -/

/-- The bits of `n` continuation bytes, behind those of `c`. -/
def continued : Nat → Nat → Bytes → Option Nat
  | 0, c, _ => some c
  | _ + 1, _, [] => none
  | n + 1, c, b :: s => if 128 ≤ b ∧ b < 192 then continued n (c * 64 + (b.toNat - 128)) s else none

/-- A code point that takes `n` continuation bytes: none that a shorter sequence has, no surrogate, none beyond the last. -/
def longer (n least c : Nat) (s : Bytes) : Option (Nat × Nat) :=
  (continued n c s).bind fun c => if least ≤ c ∧ ¬(0xD800 ≤ c ∧ c < 0xE000) ∧ c < 0x110000 then some (c, n) else none

/-- The code point of the well-formed sequence that starts with `a`, and the number of bytes it takes after `a`. -/
def sequence (a : UInt8) (s : Bytes) : Option (Nat × Nat) :=
  if a < 128 then some (a.toNat, 0)
  else if a < 192 then none
  else if a < 224 then longer 1 0x80 (a.toNat - 192) s
  else if a < 240 then longer 2 0x800 (a.toNat - 224) s
  else if a < 248 then longer 3 0x10000 (a.toNat - 240) s
  else none

/-- `decode("utf-8", "surrogateescape")`, behind `skip` bytes that the last sequence took. -/
def decodeFrom : (skip : Nat) → Bytes → Points
  | _, [] => []
  | skip + 1, _ :: s => decodeFrom skip s
  | 0, a :: s =>
    match sequence a s with
    | some (c, n) => c :: decodeFrom n s
    | none => (0xDC00 + a.toNat) :: decodeFrom 0 s

/-- `pattern.decode("utf-8", "surrogateescape")`. -/
def decode (pattern : Bytes) : Points := decodeFrom 0 pattern

/-- `encode("utf-8", "surrogateescape")` of one code point. -/
def encodePoint (c : Nat) : Bytes :=
  if c < 0x80 then [.ofNat c]
  else if c < 0x800 then [.ofNat (192 + c / 64), .ofNat (128 + c % 64)]
  else if 0xDC80 ≤ c ∧ c < 0xDD00 then [.ofNat (c - 0xDC00)]
  else if c < 0x10000 then [.ofNat (224 + c / 4096), .ofNat (128 + c / 64 % 64), .ofNat (128 + c % 64)]
  else [.ofNat (240 + c / 262144 % 8), .ofNat (128 + c / 4096 % 64), .ofNat (128 + c / 64 % 64), .ofNat (128 + c % 64)]

/-- `encode("utf-8", "surrogateescape")`. -/
def encode (cs : Points) : Bytes := cs.flatMap encodePoint

/-! ## `fnmatch.translate` -/

/-- A piece of the translated pattern. In a set, `none` is a hyphen that is not escaped. -/
inductive Piece where
  | star
  | any
  | never
  | lit (c : Nat)
  | set (negated : Bool) (stuff : List (Option Nat))
  deriving DecidableEq

/-- The text of a class up to its `]`, which is literal in the first place and behind a `!` there; `none` where it is not
closed. -/
def classBody (cs : Points) : Option Points :=
  let j := if cs.head? = some 33 then 1 else 0
  let j := if (cs.drop j).head? = some 93 then j + 1 else j
  let j := j + ((cs.drop j).takeWhile (· ≠ 93)).length
  if j < cs.length then some (cs.take j) else none

/-- The chunks between the hyphens of a class; a hyphen counts once `wait` code points of its chunk have gone by, and the last one
    of the class never does. -/
def chunks : (wait : Nat) → (chunk : Points) → Points → List Points
  | _, chunk, [] => [chunk]
  | wait + 1, chunk, c :: cs => chunks wait (chunk ++ [c]) cs
  | 0, chunk, c :: cs => if c = 45 ∧ cs ≠ [] then chunk :: chunks 2 [] cs else chunks 0 (chunk ++ [c]) cs

/-- Empty ranges go: two chunks become one, less the code points on either side of the hyphen between them. -/
def dropReversed : List Points → List Points
  | [] => []
  | chunk :: rest =>
    match dropReversed rest with
    | [] => [chunk]
    | next :: more => if next.headD 0 < chunk.getLastD 0 then (chunk.dropLast ++ next.tail) :: more else chunk :: next :: more

/-- A class as the regular expression has it. -/
def stuff (body : Points) : List (Option Nat) :=
  [none].intercalate ((dropReversed (chunks (if body.head? = some 33 then 2 else 1) [] body)).map (List.map some))

/-- The piece for a class. -/
def setPiece (body : Points) : Piece :=
  match stuff body with
  | [] => .never
  | [some 33] => .any
  | some 33 :: items => .set true items
  | items => .set false items

/-- `fnmatch.translate`, behind `skip` code points that the last class took. -/
def translateFrom : (skip : Nat) → Points → List Piece
  | _, [] => []
  | skip + 1, _ :: cs => translateFrom skip cs
  | 0, c :: cs =>
    if c = 42 then .star :: translateFrom 0 cs
    else if c = 63 then .any :: translateFrom 0 cs
    else if c = 91 then
      match classBody cs with
      | some body => setPiece body :: translateFrom (body.length + 1) cs
      | none => .lit c :: translateFrom 0 cs
    else .lit c :: translateFrom 0 cs

/-- `fnmatch.translate(text)`. -/
def translate (text : Points) : List Piece := translateFrom 0 text

/-! ## `re.compile` -/

/-- Whether one of the ranges has the byte. -/
def inRanges (ranges : List (UInt8 × UInt8)) (b : UInt8) : Bool := ranges.any fun r => decide (r.1 ≤ b ∧ b ≤ r.2)

/-- The token of a literal byte. -/
def byte (b : UInt8) : Tok UInt8 := .one (· == b)

/-- The ranges of a set, or `re.error` for one that runs backwards. -/
def setRanges : List (Option UInt8) → Option (List (UInt8 × UInt8))
  | x :: none :: y :: items =>
    if y.getD 45 < x.getD 45 then none else (setRanges items).map ((x.getD 45, y.getD 45) :: ·)
  | x :: items => (setRanges items).map ((x.getD 45, x.getD 45) :: ·)
  | [] => some []

/-- The bytes of a set, once encoded. -/
def encodeItem : Option Nat → List (Option UInt8)
  | some c => (encodePoint c).map some
  | none => [none]

/-- The tokens of a piece, once encoded. -/
def Piece.compile : Piece → Option (List (Tok UInt8))
  | .star => some [.star]
  | .any => some [.one fun _ => true]
  | .never => some [.one fun _ => false]
  | .lit c => some ((encodePoint c).map byte)
  | .set negated stuff => (setRanges (stuff.flatMap encodeItem)).map fun ranges => [.one fun b => negated ^^ inRanges ranges b]

/-- `re.compile(re_pattern.encode("utf-8", "surrogateescape"))`; `none` is `re.error`. -/
def re_compile : List Piece → Option (List (Tok UInt8))
  | [] => some []
  | piece :: pieces => do return (← piece.compile) ++ (← re_compile pieces)

/-- `compile_glob` on a pattern, with `match` on a subject. -/
def fnmatchGlob (pattern : Bytes) : Option (Bytes → Bool) := (re_compile (translate (decode pattern))).map globMatch

/-! ## How redis reads a pattern

What a pattern is to mean, and not what the program makes of it. -/

/-- One more range in front. -/
def addRange (x y : UInt8) (c : List (UInt8 × UInt8) × Bytes) : List (UInt8 × UInt8) × Bytes := ((x, y) :: c.1, c.2)

/-- The ranges of a class and what follows its `]`, or follows the pattern where the class is not closed: a backslash makes
the next byte literal, and the bounds of a range stand in either order. -/
def redisRanges : Bytes → List (UInt8 × UInt8) × Bytes
  | [] => ([], [])
  | x :: s =>
    if x = 93 then ([], s)
    else match s with
      | [] => ([(x, x)], [])
      | y :: t =>
        if x = 92 then addRange y y (redisRanges t)
        else match t with
          | [] => addRange x x (redisRanges [y])
          | z :: u => if y = 45 then addRange (min x z) (max x z) (redisRanges u) else addRange x x (redisRanges (y :: z :: u))

/-- The set of a class, and what follows it. -/
def redisClass (s : Bytes) : (UInt8 → Bool) × Bytes :=
  if s.head? = some 94 then (fun b => !inRanges (redisRanges s.tail).1 b, (redisRanges s.tail).2)
  else (inRanges (redisRanges s).1, (redisRanges s).2)

/-- The tokens of a pattern, behind `skip` bytes that the last class or escape took. -/
def redisFrom : (skip : Nat) → Bytes → List (Tok UInt8)
  | _, [] => []
  | skip + 1, _ :: s => redisFrom skip s
  | 0, c :: s =>
    if c = 42 then .star :: redisFrom 0 s
    else if c = 63 then .one (fun _ => true) :: redisFrom 0 s
    else if c = 91 then .one (redisClass s).1 :: redisFrom (s.length - (redisClass s).2.length) s
    else if c = 92 then byte (s.headD 92) :: redisFrom 1 s
    else byte c :: redisFrom 0 s

/-- The subjects that match a pattern as a whole. -/
def redisLanguage (pattern : Bytes) : Language UInt8 := language (redisFrom 0 pattern)

end Kagni.Glob
