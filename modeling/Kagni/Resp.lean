import Kagni.Errors

/-!
# The wire format

`resp.py`: the encoder of replies, the pure parser and the reader that feeds it. Positions are indexes into the whole buffer,
as in the source. The two parsing functions call each other once for every level of array nesting; `depth` is the number of
levels the interpreter's call stack still allows, and running out of it is Python's `RecursionError`.
-/

namespace Kagni

/-- The lines of a `Response` (`responses_dict`). -/
def Response.line : Response → Bytes
  | .OK => bs "+OK"
  | .NIL => bs "$-1"
  | .NIL_ARRAY => bs "*-1"
  | .QUEUED => bs "+QUEUED"
  | .PONG => bs "+PONG"

mutual

/-- `_resp_dumps`: the lines of a reply; `none` is the `NotImplementedError` of a Python `None`. -/
def _resp_dumps : Reply → Option (List Bytes)
  | .bytes b => some [36 :: decimalNat b.length, b]
  | .int n => some [58 :: decimal n]
  | .list items => (_resp_dumps_items items).map fun lines => (42 :: decimalNat items.length) :: lines
  | .response r => some [r.line]
  | .simple name => some [43 :: name.text]
  | .none => none

/-- The loop over the items of a list. -/
def _resp_dumps_items : List Reply → Option (List Bytes)
  | [] => some []
  | item :: items => match _resp_dumps item, _resp_dumps_items items with
    | some a, some b => some (a ++ b)
    | _, _ => none

end

/-- `SYM_CRLF.join(lines) + SYM_CRLF`. -/
def joinLines (lines : List Bytes) : Bytes := lines.flatMap (· ++ SYM_CRLF)

/-- `protocolBuilder` on a reply. -/
def protocolBuilder (r : Reply) : Option Bytes := (_resp_dumps r).map joinLines

/-- The line of an `Error` in `_resp_dumps`. -/
def Error.line (e : Error) : Bytes := 45 :: e.class_ ++ (if e.message = [] then [] else 32 :: e.message)

/-- `protocolBuilder` on an `Error`. -/
def Error.frame (e : Error) : Bytes := joinLines [e.line]

/-- `_wire_length`: the size of the canonical encoding of a parsed message. -/
def _wire_length (message : Value) : Option Nat := (protocolBuilder (.ofValue message)).map List.length

/-- The texts of `ProtocolError`. -/
inductive ProtocolError where
  | invalidInteger
  | invalidMultibulkLength
  | invalidBulkLength
  | bulkNotTerminated
  | requestTooLarge
  | hiredis
  deriving DecidableEq, Repr

/-- What parsing may raise. -/
inductive ParseExc where
  | protocol (e : ProtocolError)
  | recursion
  deriving DecidableEq, Repr

/-- `_read_line`: the line that starts at `pos`, without its CRLF, and the position after it. -/
def _read_line (buf : Bytes) (pos : Nat) : Option (Bytes × Nat) :=
  (findCrlf (buf.drop pos)).map fun n => ((buf.drop pos).take n, pos + n + 2)

/-- `_parse_bulk`. -/
def _parse_bulk (buf : Bytes) (pos : Nat) : Except ParseExc (Option (Value × Nat)) :=
  match _read_line buf (pos + 1) with
  | none => .ok none
  | some (line, npos) =>
    match pyInt line with
    | none => .error (.protocol .invalidBulkLength)
    | some length =>
      if length = -1 then .ok (some (.null, npos))
      else if length < -1 then .error (.protocol .invalidBulkLength)
      else if buf.length < npos + length.toNat + 2 then .ok none
      else if (buf.drop (npos + length.toNat)).take 2 ≠ SYM_CRLF then .error (.protocol .bulkNotTerminated)
      else .ok (some (.bytes ((buf.drop npos).take length.toNat), npos + length.toNat + 2))

/-- The loop of `_parse_array`: `count` more items from `npos`, each by `parse`. -/
def _parse_items (parse : Nat → Except ParseExc (Option (Value × Nat))) (npos : Nat) (items : List Value) :
    Nat → Except ParseExc (Option (Value × Nat))
  | 0 => .ok (some (.array items, npos))
  | count + 1 =>
    match parse npos with
    | .error e => .error e
    | .ok none => .ok none
    | .ok (some (item, npos')) => _parse_items parse npos' (items ++ [item]) count

/-- `_parse_array`, over the parser of its items. -/
def _parse_array (parse : Nat → Except ParseExc (Option (Value × Nat))) (buf : Bytes) (pos : Nat) :
    Except ParseExc (Option (Value × Nat)) :=
  match _read_line buf (pos + 1) with
  | none => .ok none
  | some (line, npos) =>
    match pyInt line with
    | none => .error (.protocol .invalidMultibulkLength)
    | some count =>
      if count = -1 then .ok (some (.null, npos))
      else if count < -1 then .error (.protocol .invalidMultibulkLength)
      else _parse_items parse npos [] count.toNat

/-- `_parse_message`: one value at `pos`; `ok none` asks for more data. -/
def _parse_message (buf : Bytes) : (depth : Nat) → (pos : Nat) → Except ParseExc (Option (Value × Nat))
  | 0, _ => .error .recursion
  | depth + 1, pos =>
    match buf[pos]? with
    | none => .ok none
    | some marker =>
      if marker = 42 then _parse_array (_parse_message buf depth) buf pos
      else if marker = 36 then _parse_bulk buf pos
      else if marker = 58 then
        match _read_line buf (pos + 1) with
        | none => .ok none
        | some (line, npos) =>
          match pyInt line with
          | none => .error (.protocol .invalidInteger)
          | some n => .ok (some (.int n, npos))
      else if marker = 43 ∨ marker = 45 then
        match _read_line buf pos with
        | none => .ok none
        | some (line, npos) => .ok (some (.bytes line, npos))
      else
        -- an inline command
        match _read_line buf pos with
        | none => .ok none
        | some (line, npos) => .ok (some (.array ((split line).map .bytes), npos))

/-- `RESPReader.MAX_BUFFER`. -/
def MAX_BUFFER : Nat := 512 * 1024 * 1024

/-- The drain loop of `_feed_python`: every complete message at the front of the buffer. The messages are in `messages`, and the
buffer that is left is the second component, also when the loop raises. Every message takes at least one byte, so the length of
the buffer bounds the number of rounds. -/
def drain (depth : Nat) : (fuel : Nat) → (buffer : Bytes) → (messages : List Value) →
    Except ParseExc (List Value) × Bytes
  | 0, buffer, messages => (.ok messages, buffer)
  | fuel + 1, buffer, messages =>
    match _parse_message buffer depth 0 with
    | .error e => (.error e, buffer)
    | .ok none => (.ok messages, buffer)
    | .ok (some (value, consumed)) => drain depth fuel (buffer.drop consumed) (messages ++ [value])

/-- `RESPReader._feed_python`, on the internal buffer. -/
def _feed_python (depth : Nat) (buffer data : Bytes) : Except ParseExc (List Value) × Bytes :=
  let buffer := buffer ++ data
  if buffer.length > MAX_BUFFER then (.error (.protocol .requestTooLarge), buffer)
  else drain depth (buffer.length + 1) buffer []

/-- The calls of `feed` on the chunks a connection receives, until one raises: the list each call returned, what the last one
raised, and the internal buffer. -/
def feedAll (depth : Nat) : (buffer : Bytes) → (chunks : List Bytes) → List (List Value) × Option ParseExc × Bytes
  | buffer, [] => ([], none, buffer)
  | buffer, c :: cs =>
    match _feed_python depth buffer c with
    | (.ok messages, buffer') => (messages :: (feedAll depth buffer' cs).1, (feedAll depth buffer' cs).2)
    | (.error e, buffer') => ([], some e, buffer')

end Kagni
