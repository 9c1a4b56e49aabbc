import Kagni.Resp

/-!
# The hiredis engine

`RESPReader` with `engine="hiredis"`. The C reader is not part of the repository, so it is a parameter (`HiredisReader`), and what
the engine relies on is a hypothesis about it (`HiredisReader.Exact`). Around it the engine reads inline commands itself while the
connection is at a message boundary, which it knows by counting the bytes it hands over and the bytes of what it gets back.
-/

namespace Kagni

/-- `hiredis.Reader`: `gets` returns a message, `False` (`none`) while there is no complete one, or raises `HiredisError`. -/
structure HiredisReader where
  σ : Type
  new : σ
  feed : σ → Bytes → σ
  gets : σ → Except Unit (Option Value) × σ

/-- `_RESP_MARKERS`. -/
def _RESP_MARKERS : List UInt8 := [42, 36, 58, 43, 45]

/-- The state of a reader: `_buffer`, `_engaged`, `_boundary_unknown`, `_fed`, `_consumed` and the C reader. -/
structure RESPReader (R : HiredisReader) where
  buffer : Bytes
  engaged : Bool
  boundary_unknown : Bool
  fed : Nat
  consumed : Nat
  reader : R.σ

/-- `RESPReader(engine="hiredis")`. -/
def RESPReader.init (R : HiredisReader) : RESPReader R := ⟨[], false, false, 0, 0, R.new⟩

/-- How the inline loop ends: at a framed message, at an incomplete line, or with the buffer used up. -/
inductive Boundary where
  | framed (data : Bytes)
  | incomplete
  | exhausted

/-- The inline loop of `_feed_hiredis`: the lines at the front of the buffer, and what is left in it. Every line takes at
least two bytes, so the length of the buffer bounds the number of rounds. -/
def inlineLoop : (fuel : Nat) → (buffer : Bytes) → (messages : List Value) → List Value × Bytes × Boundary
  | 0, buffer, messages => (messages, buffer, .exhausted)
  | fuel + 1, buffer, messages =>
    match buffer with
    | [] => (messages, [], .exhausted)
    | c :: rest =>
      if c ∈ _RESP_MARKERS then (messages, [], .framed (c :: rest))
      else match findCrlf (c :: rest) with
        | none => (messages, c :: rest, .incomplete)
        | some n =>
          inlineLoop fuel ((c :: rest).drop (n + 2)) (messages ++ [.array ((split ((c :: rest).take n)).map .bytes)])

variable {R : HiredisReader}

/-- The loop over `gets`. A message takes at least one of the bytes fed, so their number bounds the number of rounds. -/
def getsLoop : (fuel : Nat) → RESPReader R → (messages : List Value) → Except ProtocolError (List Value) × RESPReader R
  | 0, r, messages => (.ok messages, r)
  | fuel + 1, r, messages =>
    match R.gets r.reader with
    | (.error (), s) => (.error .hiredis, { r with reader := s })
    | (.ok none, s) => (.ok messages, { r with reader := s })
    | (.ok (some message), s) =>
      match _wire_length message with
      | none => getsLoop fuel { r with reader := s, boundary_unknown := true } (messages ++ [message])
      | some wire_len => getsLoop fuel { r with reader := s, consumed := r.consumed + wire_len } (messages ++ [message])

/-- The end of `_feed_hiredis`: back at a boundary when every byte handed over has been parsed. -/
def resume (r : RESPReader R) : RESPReader R :=
  if r.engaged ∧ ¬r.boundary_unknown ∧ r.fed ≠ 0 ∧ r.fed = r.consumed then { r with engaged := false, fed := 0, consumed := 0 }
  else r

/-- The second half of `_feed_hiredis`: `data` goes to the C reader. -/
def engage (r : RESPReader R) (data : Bytes) (messages : List Value) : Except ProtocolError (List Value) × RESPReader R :=
  let r := if data = [] then r else { r with reader := R.feed r.reader data, fed := r.fed + data.length }
  if data ≠ [] ∧ ¬r.boundary_unknown ∧ (r.fed : Int) - r.consumed > MAX_BUFFER then (.error .requestTooLarge, r)
  else match getsLoop (r.fed + 1) r messages with
    | (.error e, r') => (.error e, r')
    | (.ok messages, r') => (.ok messages, resume r')

/-- `RESPReader._feed_hiredis`. -/
def _feed_hiredis (r : RESPReader R) (data : Bytes) : Except ProtocolError (List Value) × RESPReader R :=
  if ¬r.engaged ∧ ¬r.boundary_unknown then
    let buffer := r.buffer ++ data
    if buffer.length > MAX_BUFFER then (.error .requestTooLarge, { r with buffer := buffer })
    else match inlineLoop (buffer.length + 1) buffer [] with
      | (messages, buffer', .incomplete) => (.ok messages, { r with buffer := buffer' })
      | (messages, buffer', .framed data) => engage { r with buffer := buffer', engaged := true } data messages
      | (messages, buffer', .exhausted) => engage { r with buffer := buffer' } [] messages
  else engage r data []

/-- The calls of `feed` on the chunks a connection receives, until one raises: the list each call returned, and what the last one
raised. -/
def feedAllHiredis : RESPReader R → (chunks : List Bytes) → List (List Value) × Option ProtocolError
  | _, [] => ([], none)
  | r, c :: cs =>
    match _feed_hiredis r c with
    | (.ok messages, r') => (messages :: (feedAllHiredis r' cs).1, (feedAllHiredis r' cs).2)
    | (.error e, _) => ([], some e)

/-- A bulk string on the wire. -/
def bulk (b : Bytes) : Bytes := 36 :: decimalNat b.length ++ SYM_CRLF ++ (b ++ SYM_CRLF)

/-- A command on the wire: a RESP array of bulk strings. -/
def command (args : List Bytes) : Bytes := 42 :: decimalNat args.length ++ SYM_CRLF ++ args.flatMap bulk

/-- What the engine relies on: there is a relation `Unread s b`, "the reader in state `s` has parsed all but `b` of what it was
fed", under which a new reader has nothing unread, `feed` appends, a complete command at the front is returned and taken off, a
proper prefix of a command is not a message yet, and a message that starts with a byte that is no RESP marker raises. Nothing is
asked about commands larger than the engine lets through. -/
structure HiredisReader.Exact (R : HiredisReader) (Unread : R.σ → Bytes → Prop) : Prop where
  new : Unread R.new []
  feed : ∀ {s b}, Unread s b → ∀ d, Unread (R.feed s d) (b ++ d)
  command : ∀ {s args rest}, (command args).length ≤ MAX_BUFFER → Unread s (command args ++ rest) →
    ∃ s', R.gets s = (.ok (some (.array (args.map .bytes))), s') ∧ Unread s' rest
  partial_ : ∀ {s b w args}, (Kagni.command args).length ≤ MAX_BUFFER → Unread s b → b ++ w = Kagni.command args → w ≠ [] →
    ∃ s', R.gets s = (.ok none, s') ∧ Unread s' b
  marker : ∀ {s c rest}, Unread s (c :: rest) → c ∉ _RESP_MARKERS → (R.gets s).1 = .error ()

/-- One command of a client's stream: framed, or an inline line (without its CRLF). -/
inductive Item where
  | framed (args : List Bytes)
  | inline (line : Bytes)

namespace Item

/-- The command on the wire. -/
def wire : Item → Bytes
  | .framed args => command args
  | .inline line => line ++ SYM_CRLF

/-- The message a reader makes of it. -/
def message : Item → Value
  | .framed args => .array (args.map .bytes)
  | .inline line => .array ((split line).map .bytes)

/-- An inline line holds no CRLF and does not start with a RESP marker. -/
def WellFormed : Item → Prop
  | .framed _ => True
  | .inline line => CrlfFree line ∧ ∀ c, (line ++ SYM_CRLF).head? = some c → c ∉ _RESP_MARKERS

/-- A well-formed command that is not larger than the engine lets through. -/
def Fits (i : Item) : Prop := i.WellFormed ∧ i.wire.length ≤ MAX_BUFFER

end Item

/-- A stream of commands. -/
def wires (items : List Item) : Bytes := items.flatMap Item.wire

/-- Every inline line directly behind a framed command starts a chunk: a chunk ends where the framed command does. -/
def InlineStartsChunk (items : List Item) (cs : List Bytes) : Prop :=
  ∀ xs args line ys, items = xs ++ .framed args :: .inline line :: ys →
    ∃ pre post, cs = pre ++ post ∧ pre.flatten = wires (xs ++ [.framed args])

end Kagni
