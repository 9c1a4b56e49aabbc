import Kagni.Bytes

/-!
# Values and replies

A RESP message, once parsed, is a byte string, an integer, null or an array of messages; a request is an array, and nothing in the
parser or the dispatcher makes its elements byte strings. What a command returns is a reply: the same shapes, and the constants
of `constants.Response` and the simple strings of TYPE besides.
-/

namespace Kagni

/-- A parsed RESP message: Python `bytes`, `int`, `None` or `list`. -/
inductive Value where
  | bytes (b : Bytes)
  | int (n : Int)
  | null
  | array (items : List Value)
  deriving Inhabited

namespace Value

mutual

/-- `==` on messages. -/
def decEq : (v w : Value) → Decidable (v = w)
  | .bytes a, .bytes b => decidable_of_iff (a = b) (by simp)
  | .int a, .int b => decidable_of_iff (a = b) (by simp)
  | .null, .null => isTrue rfl
  | .array a, .array b => match decEqList a b with
    | isTrue h => isTrue (by rw [h])
    | isFalse h => isFalse (by simpa using h)
  | .bytes _, .int _ | .bytes _, .null | .bytes _, .array _ => isFalse nofun
  | .int _, .bytes _ | .int _, .null | .int _, .array _ => isFalse nofun
  | .null, .bytes _ | .null, .int _ | .null, .array _ => isFalse nofun
  | .array _, .bytes _ | .array _, .int _ | .array _, .null => isFalse nofun

/-- `==` on lists of messages. -/
def decEqList : (v w : List Value) → Decidable (v = w)
  | [], [] => isTrue rfl
  | [], _ :: _ => isFalse nofun
  | _ :: _, [] => isFalse nofun
  | a :: as, b :: bs => match decEq a b, decEqList as bs with
    | isTrue h, isTrue h' => isTrue (by rw [h, h'])
    | isFalse h, _ => isFalse fun e => h (List.cons.inj e).1
    | _, isFalse h => isFalse fun e => h (List.cons.inj e).2

end

instance : DecidableEq Value := decEq

/-- The message is a byte string. -/
def IsBytes : Value → Prop
  | .bytes _ => True
  | _ => False

instance (v : Value) : Decidable v.IsBytes := by
  cases v <;> unfold IsBytes <;> infer_instance

theorem isBytes_iff (v : Value) : v.IsBytes ↔ ∃ b, v = .bytes b := by
  cases v <;> simp [IsBytes]

@[simp] theorem isBytes_bytes (b : Bytes) : (Value.bytes b).IsBytes := trivial

end Value

/-- `constants.Response`. -/
inductive Response where
  | OK
  | QUEUED
  | PONG
  | NIL
  | NIL_ARRAY
  deriving DecidableEq, Repr

/-- The kinds of stored values (`common.KIND_*`). -/
inductive Kind where
  | string
  | hash
  | set
  | bitmap
  | list
  | zset
  deriving DecidableEq, Repr

/-- What a `SimpleString` holds: TYPE is the only command that builds one, from a type name or "none". -/
inductive TypeName where
  | none
  | string
  | list
  | hash
  | set
  | zset
  deriving DecidableEq, Repr

/-- The text of a type name. -/
def TypeName.text : TypeName → Text
  | .none => bs "none"
  | .string => bs "string"
  | .list => bs "list"
  | .hash => bs "hash"
  | .set => bs "set"
  | .zset => bs "zset"

/-- What a command method returns: Python `bytes`, `int`, `None`, a list, a `Response` or a `SimpleString`. -/
inductive Reply where
  | bytes (b : Bytes)
  | int (n : Int)
  | none
  | list (items : List Reply)
  | response (r : Response)
  | simple (name : TypeName)
  deriving Inhabited

namespace Reply

mutual

/-- A stored value handed out as it is. -/
def ofValue : Value → Reply
  | .bytes b => .bytes b
  | .int n => .int n
  | .null => .none
  | .array items => .list (ofValues items)

/-- A list of stored values, handed out one by one. -/
def ofValues : List Value → List Reply
  | [] => []
  | v :: vs => ofValue v :: ofValues vs

end

theorem ofValues_eq_map (vs : List Value) : ofValues vs = vs.map ofValue := by
  induction vs with
  | nil => rfl
  | cons v vs ih => rw [ofValues, ih, List.map_cons]

/-- `Response.OK`. -/
abbrev OK : Reply := .response .OK

/-- `Response.NIL`. -/
abbrev NIL : Reply := .response .NIL

/-- `Response.NIL_ARRAY`. -/
abbrev NIL_ARRAY : Reply := .response .NIL_ARRAY

/-- A list of stored values. -/
def values (vs : List Value) : Reply := .list (ofValues vs)

end Reply

/-- `constants.Error`: a class and a message. -/
structure Error where
  class_ : Text
  message : Text
  deriving DecidableEq

end Kagni
