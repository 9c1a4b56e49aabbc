import Kagni.Resp

/-!
# The grammar of messages

What the parser accepts, as a grammar that mentions no parser and no position: a message is a line, a header line with a
payload, or a header line with the messages it announces. `Message n` are the messages with at most `n` levels of arrays.
`Deep n` are the streams that open one level more before they end or go wrong.
-/

namespace Kagni

/-- One message, over what its items may be. -/
inductive Frame (item : Value → Bytes → Prop) : Value → Bytes → Prop
  | bulk {line payload : Bytes} (hline : CrlfFree line) (hlen : pyInt line = some (payload.length : Int)) :
    Frame item (.bytes payload) (36 :: line ++ SYM_CRLF ++ (payload ++ SYM_CRLF))
  | nullBulk {line : Bytes} (hline : CrlfFree line) (hlen : pyInt line = some (-1)) : Frame item .null (36 :: line ++ SYM_CRLF)
  | int {line : Bytes} {n : Int} (hline : CrlfFree line) (hn : pyInt line = some n) : Frame item (.int n) (58 :: line ++ SYM_CRLF)
  | simple {line : Bytes} (hline : CrlfFree line) (hmark : line.head? = some 43 ∨ line.head? = some 45) :
    Frame item (.bytes line) (line ++ SYM_CRLF)
  | inline {line : Bytes} (hline : CrlfFree line) (hmark : ∀ c, line.head? = some c → c ∉ [42, 36, 58, 43, 45]) :
    Frame item (.array ((split line).map .bytes)) (line ++ SYM_CRLF)
  | nullArray {line : Bytes} (hline : CrlfFree line) (hlen : pyInt line = some (-1)) : Frame item .null (42 :: line ++ SYM_CRLF)
  | array {line : Bytes} {items : List Value} {frames : List Bytes} (hline : CrlfFree line)
    (hlen : pyInt line = some (items.length : Int))
    (hitems : List.Forall₂ item items frames) : Frame item (.array items) (42 :: line ++ SYM_CRLF ++ frames.flatten)

/-- A message with at most `n` levels, and the value it is read as. -/
def Message : Nat → Value → Bytes → Prop
  | 0 => fun _ _ => False
  | n + 1 => Frame (Message n)

/-- An array that was opened, some of its items, and then one that is too deep. -/
inductive Opens (item : Value → Bytes → Prop) (deep : Bytes → Prop) : Bytes → Prop
  | mk {line : Bytes} {count : Nat} {items : List Value} {frames : List Bytes} {rest : Bytes} (hline : CrlfFree line)
    (hlen : pyInt line = some (count : Int)) (hitems : List.Forall₂ item items frames) (hcount : items.length < count)
    (hrest : deep rest) :
    Opens item deep (42 :: line ++ SYM_CRLF ++ (frames.flatten ++ rest))

/-- A stream that opens more than `n` levels of arrays before its first message ends. -/
def Deep : Nat → Bytes → Prop
  | 0 => fun _ => True
  | n + 1 => Opens (Message n) (Deep n)

/-! ## What the encoder is given -/

namespace Value

/-- Byte strings, 64-bit integers and lists of these. A length has at most as many digits as the interpreter converts. -/
inductive Plain : Value → Prop
  | bytes {b : Bytes} (hlen : b.length < 10 ^ MAX_STR_DIGITS) : Plain (.bytes b)
  | int {n : Int} (hlow : -2 ^ 63 ≤ n) (hhigh : n < 2 ^ 63) : Plain (.int n)
  | array {items : List Value} (hlen : items.length < 10 ^ MAX_STR_DIGITS) (hitems : ∀ v ∈ items, Plain v) : Plain (.array items)

mutual

/-- The levels of nesting. -/
def levels : Value → Nat
  | .array items => levelsList items + 1
  | _ => 1

/-- The levels of the deepest of the items. -/
def levelsList : List Value → Nat
  | [] => 0
  | v :: vs => max (levels v) (levelsList vs)

end

theorem levels_le_of_mem {v : Value} {items : List Value} (h : v ∈ items) : v.levels ≤ levelsList items := by
  induction items with
  | nil => cases h
  | cons w items ih =>
    rw [levelsList]
    rcases List.mem_cons.1 h with rfl | h
    · exact le_max_left ..
    · exact (ih h).trans (le_max_right ..)

end Value

end Kagni
