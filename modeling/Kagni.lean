import Kagni.Asyncio
import Kagni.Atomic
import Kagni.Atomics.Basic
import Kagni.Atomics.Commands
import Kagni.Atomics.Hash
import Kagni.Atomics.Lists
import Kagni.Atomics.Set
import Kagni.Atomics.Zset
import Kagni.Bitfield
import Kagni.Bytes
import Kagni.Clients
import Kagni.Cmd
import Kagni.Commands.Basic
import Kagni.Commands.Bit
import Kagni.Commands.Common
import Kagni.Commands.Hash
import Kagni.Commands.Lists
import Kagni.Commands.Set
import Kagni.Commands.Zset
import Kagni.Content
import Kagni.Db
import Kagni.Deadlines
import Kagni.Discipline
import Kagni.Dispatch
import Kagni.Dumper
import Kagni.Errors
import Kagni.Events
import Kagni.Expiry
import Kagni.Extended
import Kagni.Footprint
import Kagni.Footprints.Aggregate
import Kagni.Footprints.Basic
import Kagni.Footprints.Bit
import Kagni.Footprints.Drain
import Kagni.Footprints.Hash
import Kagni.Footprints.Lists
import Kagni.Footprints.Set
import Kagni.Footprints.Zset
import Kagni.Glob
import Kagni.Grammar
import Kagni.Hiredis
import Kagni.Keyspace
import Kagni.Lemmas.Apart
import Kagni.Lemmas.Aside
import Kagni.Lemmas.Atomic
import Kagni.Lemmas.Clients
import Kagni.Lemmas.Computes
import Kagni.Lemmas.Content
import Kagni.Lemmas.Deadlines
import Kagni.Lemmas.Discipline
import Kagni.Lemmas.Dispatch
import Kagni.Lemmas.Drain
import Kagni.Lemmas.Events
import Kagni.Lemmas.Expiry
import Kagni.Lemmas.Fields
import Kagni.Lemmas.Flush
import Kagni.Lemmas.Footprint
import Kagni.Lemmas.Frame
import Kagni.Lemmas.Glob
import Kagni.Lemmas.Grammar
import Kagni.Lemmas.Happenings
import Kagni.Lemmas.Hiredis
import Kagni.Lemmas.Hub
import Kagni.Lemmas.Lists
import Kagni.Lemmas.Locality
import Kagni.Lemmas.Lockstep
import Kagni.Lemmas.Methods
import Kagni.Lemmas.Numbers
import Kagni.Lemmas.Outcome
import Kagni.Lemmas.Parse
import Kagni.Lemmas.Readers
import Kagni.Lemmas.Runs
import Kagni.Lemmas.Server
import Kagni.Lemmas.Sessions
import Kagni.Lemmas.Settled
import Kagni.Lemmas.SortedSet
import Kagni.Lemmas.Sparing
import Kagni.Lemmas.Steady
import Kagni.Lemmas.Subscriptions
import Kagni.Lemmas.Tandem
import Kagni.Lemmas.Threads
import Kagni.Lemmas.Untouching
import Kagni.Lemmas.Windows
import Kagni.Lemmas.Wire
import Kagni.Lemmas.WireReader
import Kagni.Lemmas.WireValue
import Kagni.Lemmas.ZSet
import Kagni.Lemmas.ZsetRuns
import Kagni.Lib.Alike
import Kagni.Lib.Ascending
import Kagni.Lib.Bits
import Kagni.Lib.Built
import Kagni.Lib.Dict
import Kagni.Lib.Extremum
import Kagni.Lib.Feed
import Kagni.Lib.Finmap
import Kagni.Lib.Occurrences
import Kagni.Lib.Prog
import Kagni.Lib.Subsequence
import Kagni.Lib.Trace
import Kagni.Lib.Unwinding
import Kagni.Lib.Wildcard
import Kagni.PubSub
import Kagni.Resp
import Kagni.Server
import Kagni.Settled
import Kagni.SortedSet
import Kagni.Subscriptions
import Kagni.Theorems.Additions
import Kagni.Theorems.Backpressure
import Kagni.Theorems.Bitfield
import Kagni.Theorems.Bitmaps
import Kagni.Theorems.Boundaries
import Kagni.Theorems.Collections
import Kagni.Theorems.Counters
import Kagni.Theorems.Deadlines
import Kagni.Theorems.Decimals
import Kagni.Theorems.Dumper
import Kagni.Theorems.Dumping
import Kagni.Theorems.Engines
import Kagni.Theorems.Escape
import Kagni.Theorems.Expiry
import Kagni.Theorems.FailedCommands
import Kagni.Theorems.FanOut
import Kagni.Theorems.FieldExpiry
import Kagni.Theorems.Fragmentation
import Kagni.Theorems.Globs
import Kagni.Theorems.Isolation
import Kagni.Theorems.Lcs
import Kagni.Theorems.ListWindows
import Kagni.Theorems.Moves
import Kagni.Theorems.Nesting
import Kagni.Theorems.Persistence
import Kagni.Theorems.Positions
import Kagni.Theorems.PubSub
import Kagni.Theorems.Ranges
import Kagni.Theorems.Ranks
import Kagni.Theorems.Readers
import Kagni.Theorems.Removals
import Kagni.Theorems.Replay
import Kagni.Theorems.Replies
import Kagni.Theorems.Restore
import Kagni.Theorems.RoundTrip
import Kagni.Theorems.Sessions
import Kagni.Theorems.SetOptions
import Kagni.Theorems.SortedSets
import Kagni.Theorems.Streams
import Kagni.Theorems.Typing
import Kagni.Theorems.Untouched
import Kagni.Theorems.Weights
import Kagni.Theorems.Windows
import Kagni.Theorems.WireOrder
import Kagni.Trio
import Kagni.Value
import Kagni.WireValue
import Kagni.ZSet
