import Kagni.Atomics.Commands
import Kagni.Lemmas.Runs
import Kagni.Theorems.SetOptions

/-!
# Commands and deadlines

A command that changes a value in place keeps the deadline of its key, one that stores a new value clears it, and none changes the
deadline of a key that is not among its arguments.
-/

namespace Kagni

open Lib

/-- The commands that change a value in place. -/
def inPlaceCommands : List Cmd :=
  [.APPEND, .SETRANGE, .INCR, .DECR, .INCRBY, .DECRBY, .INCRBYFLOAT, .SETBIT, .BITFIELD,
    .LPUSH, .RPUSH, .LPUSHX, .RPUSHX, .LPOP, .RPOP, .LMPOP, .LSET, .LINSERT, .LREM, .LTRIM, .LMOVE, .RPOPLPUSH,
    .SADD, .SREM, .SPOP, .SMOVE,
    .HSET, .HMSET, .HSETNX, .HDEL, .HINCRBY, .HINCRBYFLOAT, .HEXPIRE, .HPEXPIRE, .HEXPIREAT, .HPEXPIREAT, .HPERSIST,
    .ZADD, .ZINCRBY, .ZREM, .ZREMRANGEBYRANK, .ZREMRANGEBYSCORE, .ZREMRANGEBYLEX, .ZPOPMIN, .ZPOPMAX]

/-- The commands that store what they compute under their first argument. -/
def storeCommands : List Cmd := [.SDIFFSTORE, .SINTERSTORE, .SUNIONSTORE, .ZUNIONSTORE, .ZINTERSTORE, .ZDIFFSTORE]

/-- The command works in place. SET does so with KEEPTTL. -/
inductive Cmd.InPlace : Cmd → List Value → Prop
  | SET {key val : Value} {options : List Value} {gs : List OptionGroup} :
    Splits options gs → .flag .KEEPTTL ∈ gs → InPlace .SET (key :: val :: options)
  | listed {c : Cmd} {args : List Value} : c ∈ inPlaceCommands → InPlace c args

variable {F : Type}

/-- The command stores a new value under the key, without a deadline. SET does so if no option says otherwise and NX or XX
does not hold it back. -/
inductive Cmd.Replaces (m : Content F) : Cmd → List Value → Value → Prop
  | SET {key val : Value} {options : List Value} {gs : List OptionGroup} :
    Splits options gs → .flag .KEEPTTL ∉ gs → (∀ unit raw, .ttl unit raw ∉ gs) →
    (.flag .NX ∈ gs → m.lookup key = none) → (.flag .XX ∈ gs → m.lookup key ≠ none) → Replaces m .SET (key :: val :: options) key
  | GETSET {key val : Value} : Replaces m .GETSET [key, val] key
  | MSET {args : List Value} {p : Value × Value} : p ∈ pairsOf args → Replaces m .MSET args p.1
  | store {c : Cmd} {dest : Value} {rest : List Value} : c ∈ storeCommands → Replaces m c (dest :: rest) dest
  | BITOP {op dest : Value} {keys : List Value} : Replaces m .BITOP (op :: dest :: keys) dest

variable [PyFloat F]

/-- The reply to a command and the content it leaves, run at once or from the queue of a transaction. -/
def Server.after (s : Server F) (env : Env) (clock : Clock) (c : Cmd) (args : List Value) (state : Option SessionId) :
    Except Unit (Option Bytes) × Content F :=
  let out := runHandler (handler c) state args (env, clock) s
  (out.1, out.2.data.toStore.content clock.mono)

/-- What every command does to deadlines, whoever sends it and whatever becomes of its events. A key is what can be a key of a
Python `dict`; an expired entry is no longer in the content. `set` reads the clock for itself, `later` than the look at the
key that goes before it in the same command. -/
structure Server.KeepsDeadlines (env : Env) (clock later : Clock) (s : Server F) : Prop where
  inPlace : ∀ (c : Cmd) (args : List Value) (state : Option SessionId), c.InPlace args → ∀ (key : Value) (e e' : Entry F),
    key.hashable = true → (s.data.toStore.content clock.mono).lookup key = some e → e.expires_at ≠ none →
    (s.after env clock c args state).2.lookup key = some e' → e'.expires_at = e.expires_at
  created : ∀ (c : Cmd) (args : List Value) (state : Option SessionId), c.InPlace args → ∀ (key : Value) (e' : Entry F),
    (s.data.toStore.content clock.mono).lookup key = none → (s.after env clock c args state).2.lookup key = some e' →
      e'.expires_at = none
  replaced : ∀ (c : Cmd) (args : List Value) (state : Option SessionId) (key : Value),
    c.Replaces (s.data.toStore.content clock.mono) args key → ∀ e' : Entry F,
      (s.after env clock c args state).2.lookup key = some e' →
    (∃ frame, (s.after env clock c args state).1 = .ok (some frame) ∧ frame.head? ≠ some 45) ∨
      (s.data.toStore.content clock.mono).lookup key ≠ some e' → e'.expires_at = none
  unnamed : ∀ (c : Cmd) (args : List Value) (state : Option SessionId) (key : Value) (e e' : Entry F), key ∉ args →
    key.hashable = true → (s.data.toStore.content clock.mono).lookup key = some e →
    (s.after env clock c args state).2.lookup key = some e' → e'.expires_at = e.expires_at
  reread : ∀ (key : Value) (e e' : Entry F) (v : Obj F), key.hashable = true →
    (s.data.toStore.content clock.mono).lookup key = some e →
    e.expires_at ≠ none → (data_set key v none true (s.ctx env later) s.kstate).2.store.storage.get key = some e' →
    e'.expires_at = e.expires_at

end Kagni
