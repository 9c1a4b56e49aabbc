import Kagni.Cmd

/-!
# The errors of the keyspace commands

`constants.Errors` and the errors the command modules build inline. Every one of them is a fixed text, at most with the name of a
command in it: none holds a byte a client sent. The three commands whose error texts quote an argument (COMMAND, CLIENT and
CONFIG) and the subcommand error of PUBSUB are not here; they raise an `Error` directly.
-/

namespace Kagni

/-- The errors a keyspace command raises. -/
inductive Errors where
  -- constants.Errors
  | INVALID_CURSOR | NOT_INT | WRONGTYPE | SYNTAX | NOKEY | INDEX_RANGE | RANK_ZERO | COUNT_NEG | MAXLEN_NEG | NOT_FLOAT
  | FLOAT_OVERFLOW | BIT_OFFSET | BIT_VALUE | BIT_ARG | RANGE_OFFSET | NOT_POSITIVE | OVERFLOW | STRING_OVERFLOW
  | MIN_MAX_FLOAT | LEX_RANGE | NAN_RESULT | ZADD_CONFLICT | ZADD_XX_NX | ZADD_INCR_PAIR | LIMIT_NEEDS_BY
  | WITHSCORES_BYLEX | WEIGHT_FLOAT | HASH_NOT_INT | HASH_NOT_FLOAT | HASH_NAN_OR_INF | BITFIELD_TYPE | BITFIELD_OVERFLOW
  | BITFIELD_RO | WRONGTYPE_STRING
  | arity (command : Cmd)
  | no_keys (command : Cmd)
  -- raised inline
  | expireTime (command : Cmd)
  | lcsBoth | helloAuth | noproto | numkeys | manyKeys | limitNegative | countPositive | bitopNot | fieldExpireNegative
  | fieldsMissing | numFieldsText | numfieldsMatch | numberOfFields
  deriving DecidableEq

namespace Errors

/-- `Error("ERR", msg)`. -/
def err (msg : Text) : Error := ⟨bs "ERR", msg⟩

/-- The class and the message of an error. -/
def error : Errors → Error
  | INVALID_CURSOR => err (bs "invalid cursor")
  | NOT_INT => err (bs "value is not an integer or out of range")
  | WRONGTYPE => ⟨bs "WRONGTYPE", bs "Operation against a key holding the wrong kind of value"⟩
  | SYNTAX => err (bs "syntax error")
  | NOKEY => err (bs "no such key")
  | INDEX_RANGE => err (bs "index out of range")
  | RANK_ZERO => err (bs "RANK can't be zero: use 1 to start from the first match, 2 from the second ... or use " ++
      bs "negative to start from the end of the list")
  | COUNT_NEG => err (bs "COUNT can't be negative")
  | MAXLEN_NEG => err (bs "MAXLEN can't be negative")
  | NOT_FLOAT => err (bs "value is not a valid float")
  | FLOAT_OVERFLOW => err (bs "increment would produce NaN or Infinity")
  | BIT_OFFSET => err (bs "bit offset is not an integer or out of range")
  | BIT_VALUE => err (bs "bit is not an integer or out of range")
  | BIT_ARG => err (bs "The bit argument must be 1 or 0.")
  | RANGE_OFFSET => err (bs "offset is out of range")
  | NOT_POSITIVE => err (bs "value is out of range, must be positive")
  | OVERFLOW => err (bs "increment or decrement would overflow")
  | STRING_OVERFLOW => err (bs "string exceeds maximum allowed size (proto-max-bulk-len)")
  | MIN_MAX_FLOAT => err (bs "min or max is not a float")
  | LEX_RANGE => err (bs "min or max not valid string range item")
  | NAN_RESULT => err (bs "resulting score is not a number (NaN)")
  | ZADD_CONFLICT => err (bs "GT, LT, and/or NX options at the same time are not compatible")
  | ZADD_XX_NX => err (bs "XX and NX options at the same time are not compatible")
  | ZADD_INCR_PAIR => err (bs "INCR option supports a single increment-element pair")
  | LIMIT_NEEDS_BY => err (bs "syntax error, LIMIT is only supported in combination with either BYSCORE or BYLEX")
  | WITHSCORES_BYLEX => err (bs "syntax error, WITHSCORES not supported in combination with BYLEX")
  | WEIGHT_FLOAT => err (bs "weight value is not a float")
  | HASH_NOT_INT => err (bs "hash value is not an integer")
  | HASH_NOT_FLOAT => err (bs "hash value is not a float")
  | HASH_NAN_OR_INF => err (bs "value is NaN or Infinity")
  | BITFIELD_TYPE => err (bs "Invalid bitfield type. Use something like i16 u8. Note that u64 is not supported but i64 is.")
  | BITFIELD_OVERFLOW => err (bs "Invalid OVERFLOW type specified")
  | BITFIELD_RO => err (bs "BITFIELD_RO only supports the GET subcommand")
  | WRONGTYPE_STRING => err (bs "The specified keys must contain string values")
  | arity c => err (bs "wrong number of arguments for '" ++ c.lower ++ bs "' command")
  | no_keys c => err (bs "at least 1 input key is needed for '" ++ c.lower ++ bs "' command")
  | expireTime c => err (bs "invalid expire time in '" ++ c.lower ++ bs "' command")
  | lcsBoth => err (bs "If you want both the length and indexes, please just use IDX.")
  | helloAuth => err (bs "AUTH <password> called without any password configured for the default user. Are you sure " ++
      bs "your configuration is correct?")
  | noproto => ⟨bs "NOPROTO", bs "unsupported protocol version"⟩
  | numkeys => err (bs "numkeys should be greater than 0")
  | manyKeys => err (bs "Number of keys can't be greater than number of args")
  | limitNegative => err (bs "LIMIT can't be negative")
  | countPositive => err (bs "count should be greater than 0")
  | bitopNot => err (bs "BITOP NOT must be called with a single source key")
  | fieldExpireNegative => err (bs "invalid expire time, must be >= 0")
  | fieldsMissing => err (bs "Mandatory argument FIELDS is missing or not at the right position")
  | numFieldsText => err (bs "Parameter `numFields` should be greater than 0")
  | numfieldsMatch => err (bs "The `numfields` parameter must match the number of arguments")
  | numberOfFields => err (bs "Number of fields must be a positive integer")

end Errors

/-- What a command method may raise: one of the program's own errors, or any other Python exception (`TypeError`, `ValueError`,
`re.error` and so on), which the dispatcher answers with an internal error. -/
inductive Exc (ε : Type) where
  | error (e : ε)
  | other

end Kagni
