import Kagni.Atomics.Commands
import Kagni.Lemmas.Untouching

/-!
# Commands that only read

The commands that COMMAND reports as `readonly`, by their methods. None touches a key. The hash commands among them drop the
fields they find expired; the others leave the content as it is.
-/

namespace Kagni

open Lib Lib.Prog

variable {F : Type} {key : Value}

/-! ## Strings and the keyspace -/

theorem untouching_PING (message : Option Value) : Untouching (PING message : K F Reply) := by
  unfold PING
  split
  all_goals exact .pure

/-- TYPE looks at the value. -/
theorem untouching_TYPE (key : Value) : Untouching (TYPE key : K F Reply) := by
  refine .bind (untouching_get key) ?_
  intro o
  cases o with
  | none => exact .pure
  | some obj => exact .pure

/-- HELLO replies what the server is. -/
theorem untouching_HELLO (args : List Value) : Untouching (HELLO args : K F Reply) :=
  .bind (untouching_of_computes (computes_helloArgs 2 args)) fun _ => untouching_check .pure

/-- INFO counts the keys, and purges the expired ones on the way. -/
theorem untouching_INFO (sections : List Value) : Untouching (INFO sections : K F Reply) := by
  refine .bind (untouching_of_computes (computes_infoSections _ _)) ?_
  intro wanted
  refine .bind .ask ?_
  intro ctx
  refine .bind (.ite (fun _ => ?_) fun _ => .pure) fun _ => .pure
  exact .bind (.bind untouching_keyspace_stats fun _ => .pure) fun _ => .pure

theorem untouching_GET (key : Value) : Untouching (GET key : K F Reply) := .bind (untouching_string key) fun _ => .pure

/-- MGET reads one string after the other. -/
theorem untouching_MGET (keys : List Value) : Untouching (MGET keys : K F Reply) := by
  unfold MGET
  exact untouching_check (.bind (untouching_mapM fun key _ => .bind (untouching_string key) fun _ => .pure) fun _ => .pure)

/-- KEYS matches each key of a scan. -/
theorem untouching_KEYS (pattern : Value) : Untouching (KEYS pattern : K F Reply) := by
  refine .bind (untouching_of_computes (computes_compile_glob pattern)) ?_
  intro rgx
  refine .bind untouching_keys ?_
  intro keys
  refine .bind ?_ fun _ => .pure
  exact untouching_filterM fun key _ => untouching_of_computes (computes_matches rgx key)

/-- The TYPE option of SCAN looks at each key. -/
theorem untouching_typeMatches (type_filter : Option Text) (key : Value) :
    Untouching (typeMatches type_filter key : K F Bool) := by
  cases type_filter with
  | none => exact .pure
  | some name =>
    refine .bind (untouching_get key) ?_
    intro o
    cases o with
    | none => exact .pure
    | some obj => exact .pure

/-- SCAN reads its options, then filters the keys. -/
theorem untouching_SCAN (cursor : Value) (options : List Value) : Untouching (SCAN cursor options : K F Reply) := by
  refine .bind (untouching_of_computes (computes_parse_scan_cursor cursor)) ?_
  intro _
  refine .ite (fun _ => .pure) ?_
  intro _
  refine .bind (untouching_of_computes (computes_scanOptions none none options)) ?_
  intro o
  refine .bind (untouching_of_computes (computes_compilePattern o.1)) ?_
  intro rgx
  refine .bind untouching_keys ?_
  intro keys
  refine .bind ?_ fun _ => .pure
  refine untouching_filterM ?_
  intro key _
  refine .bind (untouching_of_computes (computes_patternMatches rgx key)) ?_
  intro _
  refine .ite (fun _ => ?_) fun _ => .pure
  exact untouching_typeMatches _ key

/-- EXISTS and TOUCH count the live keys. -/
theorem untouching_countLive (command : Cmd) (keys : List Value) : Untouching (countLive command keys : K F Reply) := by
  unfold countLive
  exact untouching_check (.bind (untouching_filterM fun key _ => untouching_is_live key) fun _ => .pure)

/-- A range of a string is cut from what was read. -/
theorem untouching_getrange (key : Value) (start stop : Int) : Untouching (_getrange key start stop : K F Reply) := by
  refine .bind (untouching_string key) ?_
  intro o
  cases o with
  | none => exact .pure
  | some val => exact .pure

/-- LCS checks the kinds of its keys. -/
theorem untouching_lcsCheck (key : Value) : Untouching (lcsCheck key : K F Unit) := by
  refine .bind (untouching_get key) ?_
  intro o
  cases o with
  | none => exact .pure
  | some obj => exact .ite (fun _ => .raise) fun _ => .pure

/-- LCS compares the two strings that were read. -/
theorem untouching_LCS (key1 key2 : Value) (options : List Value) : Untouching (LCS key1 key2 options : K F Reply) := by
  refine .bind (untouching_lcsCheck key1) ?_
  intro _
  refine .bind (untouching_lcsCheck key2) ?_
  intro _
  refine .bind (untouching_of_computes (computes_lcsOptions _ options)) fun o => untouching_check ?_
  refine .bind (untouching_string key1) ?_
  intro _
  refine .bind (untouching_string key2) ?_
  intro _
  refine .ite (fun _ => .pure) ?_
  intro _
  exact .ite (fun _ => .pure) fun _ => .pure

/-! ## Sets and bitmaps -/

/-- A command that only reads a set, and replies for a missing one. -/
theorem untouching_setRead (key : Value) {missing : Reply} {f : OrdSet Value → K F Reply} (h : ∀ cur, Untouching (f cur)) :
    Untouching (do match ← _set key with | none => return missing | some cur => f cur : K F Reply) := by
  refine .bind (untouching_set key) ?_
  intro o
  cases o with
  | none => exact .pure
  | some cur => exact h cur

/-- The sets of some keys are read in turn. -/
theorem untouching_sets (keys : List Value) : Untouching (_sets keys : K F _) := by
  refine untouching_mapM ?_
  intro key _
  refine .bind (untouching_get key) ?_
  intro o
  split
  · exact .pure
  · exact .pure
  · exact .raise

/-- SUNION, SINTER and SDIFF fold what was read. -/
theorem untouching_setOp (op : OrdSet Value → OrdSet Value → OrdSet Value) (command : Cmd) (keys : List Value) :
    Untouching (setOp op command keys : K F Reply) := by
  refine .bind (untouching_of_computes (computes_assert_keys keys command)) ?_
  intro _
  exact .bind (untouching_sets keys) fun _ => .pure

/-- SINTERCARD counts an intersection, up to its limit. -/
theorem untouching_SINTERCARD (numkeys : Int) (rest : List Value) : Untouching (SINTERCARD numkeys rest : K F Reply) := by
  unfold SINTERCARD
  refine untouching_check (untouching_check
    (.bind (untouching_of_computes (computes_intercardOptions 0 _)) fun _ => .bind (untouching_sets _) fun sets => ?_))
  cases sets with
  | nil => exact .raise
  | cons first others => exact .pure

/-- SSCAN filters the members. -/
theorem untouching_SSCAN (key cursor : Value) (options : List Value) : Untouching (SSCAN key cursor options : K F Reply) := by
  refine .bind (untouching_of_computes (computes_parse_scan_cursor cursor)) ?_
  intro _
  refine .bind (untouching_of_computes (computes_parse_scan_options none options)) ?_
  intro pattern
  refine .bind (untouching_of_computes (computes_compilePattern pattern)) ?_
  intro rgx
  refine untouching_setRead key ?_
  intro cur
  exact .bind (untouching_filterM fun v _ => untouching_of_computes (computes_patternMatches rgx v)) fun _ => .pure

/-- SMISMEMBER asks for each member. -/
theorem untouching_SMISMEMBER (key : Value) (vals : List Value) : Untouching (SMISMEMBER key vals : K F Reply) := by
  unfold SMISMEMBER
  exact untouching_check (untouching_setRead key fun _ => .bind (untouching_of_computes (computes_needHashes vals)) fun _ =>
    .pure)

theorem untouching_SISMEMBER (key val : Value) : Untouching (SISMEMBER key val : K F Reply) := by
  refine untouching_setRead key ?_
  intro _
  exact .bind (untouching_of_computes (computes_needHash val)) fun _ => .pure

/-- SRANDMEMBER draws members and leaves them. -/
theorem untouching_SRANDMEMBER (key : Value) (count : Option Int) : Untouching (SRANDMEMBER key count : K F Reply) := by
  refine .bind (untouching_set key) ?_
  intro o
  refine .ite (fun _ => .pure) ?_
  intro _
  cases count with
  | none => exact .bind (untouching_choice _) fun _ => .pure
  | some count => exact .bind (untouching_pick _ count) fun _ => .pure

theorem untouching_GETBIT (key : Value) (bit : Int) : Untouching (GETBIT key bit : K F Reply) := by
  unfold GETBIT
  refine untouching_check (.bind (untouching_bitmap key) fun o => ?_)
  cases o with
  | none => exact .pure
  | some bmap => exact .ite (fun _ => .pure) fun _ => .raise

theorem untouching_BITCOUNT (key : Value) : Untouching (BITCOUNT key : K F Reply) := .bind (untouching_bitmap key) fun _ => .pure

/-- BITPOS looks for the first such bit. -/
theorem untouching_BITPOS (key bit : Value) : Untouching (BITPOS key bit : K F Reply) := by
  unfold BITPOS
  refine untouching_check (.bind (untouching_bitmap key) fun o => ?_)
  cases o with
  | none => exact .pure
  | some bmap =>
    refine .ite (fun _ => .pure) ?_
    intro _
    exact .ite (fun _ => .pure) fun _ => .pure

/-! ## Hashes -/

/-- A look at a field may drop it from the dictionary, which moves no generation. -/
theorem untouching_field (key : Value) (cur : Fields) (field : Value) : Untouching (_field key cur field : K F _) := by
  refine .bind (untouching_of_computes (computes_needHash field)) ?_
  intro _
  split
  · exact .pure
  · exact .pure
  · refine .bind untouching_clock ?_
    intro _
    exact .ite (fun _ => .bind (untouching_store_value key _) fun _ => .pure) fun _ => .pure

/-- The live fields are listed and the expired ones dropped. -/
theorem untouching_live_pairs (key : Value) (cur : Fields) : Untouching (_live_pairs key cur : K F _) := by
  refine .bind untouching_clock ?_
  intro _
  exact .bind (untouching_store_value key _) fun _ => .pure

/-- A hash without a field is dropped, which moves no generation. -/
theorem untouching_drop_if_empty (key : Value) (cur : Fields) : Untouching (_drop_if_empty key cur : K F Unit) :=
  .ite (fun _ => .bind (untouching_remove key) fun _ => .pure) fun _ => .pure

/-- A command that only reads a hash, and replies for a missing one. -/
theorem untouching_hashRead_of (key : Value) {missing : Reply} {f : Fields → K F Reply} (h : ∀ cur, Untouching (f cur)) :
    Untouching (do match ← _hash key with | none => return missing | some cur => f cur : K F Reply) := by
  refine .bind (untouching_hash key) ?_
  intro o
  cases o with
  | none => exact .pure
  | some cur => exact h cur

/-- The value of one field is read. -/
theorem untouching_fieldValue (key field : Value) : Untouching (fieldValue key field : K F _) := by
  refine .bind (untouching_hash key) ?_
  intro o
  cases o with
  | none => exact .pure
  | some cur => exact .bind (untouching_field key cur field) fun _ => .pure

/-- HSTRLEN measures a field. -/
theorem untouching_HSTRLEN (key field : Value) : Untouching (HSTRLEN key field : K F Reply) := by
  refine .bind (untouching_fieldValue key field) ?_
  intro o
  split
  · exact .pure
  · exact .pure
  · exact .pure
  · exact .raise

/-- One field after the other, with the dictionary it is left with. -/
theorem untouching_hmgetLoop (key : Value) (fields : List Value) (cur : Fields) :
    Untouching (hmgetLoop key fields cur : K F _) := by
  induction fields generalizing cur with
  | nil => exact .pure
  | cons field rest ih =>
    refine .bind (untouching_field key cur field) ?_
    intro _
    exact .bind (ih _) fun _ => .pure

/-- HMGET reads its fields in turn. -/
theorem untouching_HMGET (key : Value) (fields : List Value) : Untouching (HMGET key fields : K F Reply) := by
  unfold HMGET
  exact untouching_check (untouching_hashRead_of key fun cur => .bind (untouching_hmgetLoop key fields cur) fun _ => .pure)

/-- HGETALL, HKEYS, HVALS and HLEN reply from the live fields. -/
theorem untouching_hashRead (key : Value) (missing : Reply) (f : List (Value × Value × Option Int) → Reply) :
    Untouching (hashRead key missing f : K F Reply) := by
  refine untouching_hashRead_of key ?_
  intro cur
  refine .bind (untouching_live_pairs key cur) ?_
  intro _
  exact .bind (untouching_drop_if_empty key _) fun _ => .pure

/-- HSCAN filters the live fields. -/
theorem untouching_HSCAN (key cursor : Value) (options : List Value) : Untouching (HSCAN key cursor options : K F Reply) := by
  refine .bind (untouching_of_computes (computes_parse_scan_cursor cursor)) ?_
  intro _
  refine .bind (untouching_of_computes (computes_parse_scan_options none options)) ?_
  intro pattern
  refine .bind (untouching_of_computes (computes_compilePattern pattern)) ?_
  intro rgx
  refine untouching_hashRead_of key ?_
  intro cur
  refine .bind (untouching_live_pairs key cur) ?_
  intro p
  refine .bind ?_ fun _ => .bind (untouching_drop_if_empty key _) fun _ => .pure
  exact untouching_filterM fun p _ => untouching_of_computes (computes_patternMatches rgx p.1)

/-- HRANDFIELD draws live fields. -/
theorem untouching_HRANDFIELD (key : Value) (count : Option Int) (options : List Value) :
    Untouching (HRANDFIELD key count options : K F Reply) := by
  cases count with
  | none =>
    unfold HRANDFIELD
    refine untouching_check (untouching_hashRead_of key fun cur => ?_)
    refine .bind (untouching_live_pairs key cur) ?_
    intro p
    refine .bind (untouching_drop_if_empty key _) ?_
    intro _
    refine .ite (fun _ => .pure) ?_
    intro _
    exact .bind (untouching_choice _) fun _ => .pure
  | some count =>
    refine .bind (untouching_of_computes (computes_flagOptions _ options)) ?_
    intro _
    refine untouching_hashRead_of key ?_
    intro cur
    refine .bind (untouching_live_pairs key cur) ?_
    intro p
    refine .bind (untouching_drop_if_empty key _) ?_
    intro _
    refine .ite (fun _ => .pure) ?_
    intro _
    exact .bind (untouching_pick _ count) fun _ => .pure

/-- The deadlines of some fields, one after the other. -/
theorem untouching_hexpireReadLoop (key : Value) (read : TtlRead) (now : Int) (fields : List Value) (cur : Fields)
    (out : List Int) (persisted : Nat) :
    Untouching (hexpireReadLoop key read now fields cur out persisted : K F _) := by
  induction fields generalizing cur out persisted with
  | nil => exact .pure
  | cons field rest ih =>
    refine .bind (untouching_field key cur field) ?_
    intro r
    split
    · exact ih _ _ _
    · exact ih _ _ _
    · split
      · exact .bind (untouching_store_value key _) fun _ => ih _ _ _
      · exact ih _ _ _

/-- Only HPERSIST removes deadlines. -/
theorem hexpireReadLoop_persisted (key : Value) (f : Int → Int → Int) (now : Int) (fields : List Value) (cur : Fields)
    (out : List Int) (persisted : Nat) :
    Ends (fun r => r.2.2 = persisted) (fun _ => True) (hexpireReadLoop key (some f) now fields cur out persisted : K F _) := by
  induction fields generalizing cur out with
  | nil => exact .pure rfl
  | cons field rest ih =>
    refine .bind (Q := fun _ => True) (fun ctx k => ?_) fun r _ => ?_
    · cases _field key cur field ctx k with
      | mk out k' => cases out <;> trivial
    · split
      · exact ih _ _
      · exact ih _ _
      · exact ih _ _

/-- HTTL and its relatives reply the deadlines; HPERSIST is the one with a write. -/
theorem untouching_hexpire_read (command : Cmd) (f : Int → Int → Int) (key : Value) (args : List Value) :
    Untouching (_hexpire_read command (some f) key args : K F Reply) := by
  unfold _hexpire_read
  refine untouching_check ?_
  cases args with
  | nil => exact .raise
  | cons keyword rest =>
    refine .bind (untouching_of_computes (computes_upperArg keyword)) fun _ => untouching_check ?_
    refine .bind (untouching_of_computes (computes_fieldList command _ rest)) ?_
    intro fields
    refine .bind (untouching_hash key) ?_
    intro o
    cases o with
    | none => exact .bind (untouching_remove key) fun _ => .pure
    | some cur =>
      refine .bind untouching_clock ?_
      intro now
      refine .bind_ends (untouching_hexpireReadLoop key _ _ fields cur [] 0)
        (hexpireReadLoop_persisted key f _ fields cur [] 0) ?_
      intro r hr
      refine .ite (fun hne => absurd hr hne) ?_
      intro _
      exact .bind (untouching_drop_if_empty key _) fun _ => .pure

/-! ## Lists -/

/-- A command that only reads a list, and replies for a missing one. -/
theorem untouching_listRead (key : Value) {missing : Reply} {f : ListRef → K F Reply} (h : ∀ lst, Untouching (f lst)) :
    Untouching (do match ← _list key with | none => return missing | some lst => f lst : K F Reply) := by
  refine .bind (untouching_list key) ?_
  intro o
  cases o with
  | none => exact .pure
  | some lst => exact h lst

/-- LPOS looks for the positions of an element. -/
theorem untouching_LPOS (key element : Value) (options : List Value) : Untouching (LPOS key element options : K F Reply) := by
  refine .bind (untouching_of_computes (computes_lposOptions 1 none 0 options)) ?_
  intro _
  refine untouching_listRead key ?_
  intro _
  exact .ite (fun _ => .pure) fun _ => .pure

/-! ## Sorted sets -/

/-- A command that only reads a sorted set, and replies for a missing one. -/
theorem untouching_zsetRead (key : Value) {missing : Reply} {f : ZSet F → K F Reply} (h : ∀ z, Untouching (f z)) :
    Untouching (do match ← _zset key with | none => return missing | some z => f z : K F Reply) := by
  refine .bind (untouching_zset key) ?_
  intro o
  cases o with
  | none => exact .pure
  | some z => exact h z

variable [PyFloat F]

omit [PyFloat F] in
/-- The score of one member is looked up. -/
theorem untouching_scoreOf (z : Option (ZSet F)) (member : Value) : Untouching (scoreOf z member : K F _) :=
  untouching_of_computes (computes_scoreOf z member)

theorem untouching_ZSCORE (key member : Value) : Untouching (ZSCORE key member : K F Reply) := by
  refine .bind (untouching_zset key) ?_
  intro _
  exact .bind (untouching_scoreOf _ member) fun _ => .pure

/-- ZMSCORE replies one score for each member. -/
theorem untouching_ZMSCORE (key : Value) (vals : List Value) : Untouching (ZMSCORE key vals : K F Reply) := by
  unfold ZMSCORE
  refine untouching_check (.bind (untouching_zset key) fun z => .bind (untouching_mapM fun member _ => ?_) fun _ => .pure)
  exact .bind (untouching_scoreOf z member) fun _ => .pure

/-- ZRANK and ZREVRANK count the members before. -/
theorem untouching_zrank (key member : Value) (options : List Value) (reverse : Bool) :
    Untouching (_zrank key member options reverse : K F Reply) := by
  refine .bind (untouching_of_computes (computes_flagOptions _ options)) ?_
  intro _
  refine .bind (untouching_zset key) ?_
  intro z
  refine .bind ?_ fun rank => ?_
  · cases z with
    | none => exact .pure
    | some z => exact untouching_orFail _
  · cases z with
    | none => exact .pure
    | some z =>
      cases rank with
      | none => exact .pure
      | some rank =>
        refine .ite (fun _ => .pure) ?_
        intro _
        exact .bind (untouching_orFail _) fun _ => .pure

/-- The window of a range is read by index, by score or by name. -/
theorem untouching_zrangeWith (key start stop : Value) (o : RangeOptions) (rev : Bool) :
    Untouching (zrangeWith key start stop o rev : K F Reply) := by
  refine .bind (untouching_of_computes (computes_parse_bounds start stop o.mode o.rev)) ?_
  intro parsed
  refine untouching_zsetRead key ?_
  intro z
  refine .ite (fun _ => .pure) ?_
  intro _
  exact .bind (untouching_of_computes (computes_range_pairs z _ rev)) fun _ => .pure

/-- ZRANGE reads its options and then the window. -/
theorem untouching_ZRANGE (key start stop : Value) (options : List Value) :
    Untouching (ZRANGE key start stop options : K F Reply) :=
  .bind (untouching_of_computes (computes_parse_range_options options)) fun o => untouching_zrangeWith key start stop o o.rev

omit [PyFloat F] in
/-- The commands that know fewer options. -/
theorem untouching_rangeOptions (g : RangeGrammar) (options : List Value) {f : RangeOptions → K F Reply}
    (h : ∀ o, Untouching (f o)) :
    Untouching (rangeOptions g .none options >>= f) := .bind (untouching_of_computes (computes_rangeOptions g _ options)) h

/-- ZCOUNT counts a window of scores. -/
theorem untouching_ZCOUNT (key min_ max_ : Value) : Untouching (ZCOUNT key min_ max_ : K F Reply) := by
  refine .bind (untouching_of_computes (computes_score_bound min_)) ?_
  intro _
  refine .bind (untouching_of_computes (computes_score_bound max_)) ?_
  intro _
  exact untouching_zsetRead key fun _ => .pure

/-- ZLEXCOUNT counts a window of names. -/
theorem untouching_ZLEXCOUNT (key min_ max_ : Value) : Untouching (ZLEXCOUNT key min_ max_ : K F Reply) := by
  refine .bind (untouching_of_computes (computes_parse_bounds min_ max_ .bylex false)) ?_
  intro parsed
  refine untouching_zsetRead key ?_
  intro z
  refine .ite (fun _ => .pure) ?_
  intro _
  exact .bind (untouching_of_computes (computes_range_pairs z _ false)) fun _ => .pure

/-- ZSCAN filters the members. -/
theorem untouching_ZSCAN (key cursor : Value) (options : List Value) : Untouching (ZSCAN key cursor options : K F Reply) := by
  refine .bind (untouching_of_computes (computes_parse_scan_cursor cursor)) ?_
  intro _
  refine .bind (untouching_of_computes (computes_parse_scan_options none options)) ?_
  intro pattern
  refine .bind (untouching_of_computes (computes_compilePattern pattern)) ?_
  intro rgx
  refine untouching_zsetRead key ?_
  intro z
  exact .bind (untouching_filterM fun p _ => untouching_of_computes (computes_patternMatches rgx p.2)) fun _ => .pure

/-- ZRANDMEMBER draws members and leaves them. -/
theorem untouching_ZRANDMEMBER (key : Value) (count : Option Int) (options : List Value) :
    Untouching (ZRANDMEMBER key count options : K F Reply) := by
  cases count with
  | none =>
    unfold ZRANDMEMBER
    exact untouching_check (.bind (untouching_zset key) fun _ => .ite (fun _ => .pure) fun _ => .bind
      (untouching_choice _) fun _ => .pure)
  | some count =>
    refine .bind (untouching_of_computes (computes_flagOptions _ options)) ?_
    intro _
    refine .bind (untouching_zset key) ?_
    intro _
    refine .ite (fun _ => .pure) ?_
    intro _
    refine .bind (untouching_pick _ count) ?_
    intro _
    refine .ite (fun _ => .pure) ?_
    intro _
    refine .bind (untouching_mapM fun member _ => ?_) fun _ => .pure
    exact .bind (untouching_orFail _) fun _ => .pure

/-- The sources of an aggregate are read in turn. -/
theorem untouching_aggregate (op : ZOp) (keys : List (Value × F)) (aggregate : Aggregate) :
    Untouching (_aggregate op keys aggregate : K F (ZSet F)) := by
  refine .bind (untouching_mapM fun k _ => .bind (untouching_zset k.1) fun _ => .pure) ?_
  intro sources
  refine .fold ?_
  intro z p _
  split
  · exact .pure
  · exact .raise

/-- ZUNION, ZINTER and ZDIFF reply an aggregate and store nothing. -/
theorem untouching_zopRead (op : ZOp) (command : Cmd) (allow_weights : Bool) (numkeys : Int) (rest : List Value) :
    Untouching (zopRead (F := F) op command allow_weights numkeys rest) := by
  refine .bind (untouching_of_computes (computes_parse_zset_op command allow_weights true numkeys rest)) ?_
  intro _
  exact .bind (untouching_aggregate op _ _) fun _ => .pure

/-! ## The table -/

/-- The commands that look at the fields of a hash and change nothing else. -/
def hashReaders : List Cmd :=
  [.HGET, .HMGET, .HEXISTS, .HLEN, .HKEYS, .HVALS, .HGETALL, .HSTRLEN, .HSCAN, .HRANDFIELD, .HTTL, .HPTTL,
    .HEXPIRETIME, .HPEXPIRETIME]

omit [PyFloat F] in
/-- GETs write nothing. -/
theorem computes_bitfieldLoop (key : Value) (created : Bool) {subs : List Sub} (h : ∀ sub ∈ subs, sub.writes = false)
    (bmap : Finset Nat)
    (out : List Reply) : Computes (bitfieldLoop key created subs bmap out false : K F _) fun r => r.2.2 = false := by
  intro S
  induction subs generalizing out with
  | nil => exact .pure rfl
  | cons sub subs ih =>
    cases sub with
    | get type offset => exact (computes_orFail _).bind fun _ _ => ih (fun sub hsub => h sub (by simp [hsub])) _
    | write incrby type offset amount overflow => cases h _ List.mem_cons_self

/-- BITFIELD_RO has nothing but GETs to execute. -/
theorem readsOnly_bitfield_ro (key : Value) (args : List Value) : ReadsOnly (BITFIELD_RO key args : K F Reply) := by
  refine .computed (computes_bitfieldSubs true .WRAP args) ?_
  intro subs hsubs
  have hgets : ∀ sub ∈ subs, sub.writes = false :=
    fun sub hsub => eq_false_of_ne_true fun hw => absurd ((hsubs sub hsub).1 hw) (by decide)
  have hend : ∀ stored : Option (Finset Nat), ReadsOnly (do
      let p ← bitfieldLoop key stored.isNone subs (stored.getD ∅) [] false
      if stored.isNone ∧ p.2.2 then setitem key (.bitmap p.1)
      if p.2.2 then _after_write key .setbit
      return .list p.2.1 : K F Reply) := fun stored => .computed (computes_bitfieldLoop key _ hgets _ []) fun p hp => by
    rw [if_neg fun h => absurd (hp.symm.trans h.2) (by decide), if_neg (by rw [hp]; decide)]
    exact .pure _
  exact ⟨.bind (untouching_bitmap key) fun stored => (hend stored).untouching,
    fun w => (Watch.reads_bitmap key).bind fun stored _ => (hend stored).reads w⟩

section Table

variable {c : Cmd} {args : List Value} {method : List Value → K F Reply}

/-! The shapes of a method. -/

/-- A method of one argument. -/
theorem readsOnly_args1 {f : Value → K F Reply} (hm : Handler.args1 f = .keyspace method) (h : ∀ a, ReadsOnly (f a)) :
    ReadsOnly (method args) :=
  method_args1 (P := fun _ => True) .raise hm trivial fun a _ => h a

theorem readsOnly_args2 {f : Value → Value → K F Reply} (hm : Handler.args2 f = .keyspace method) (h : ∀ a b, ReadsOnly (f a b)) :
    ReadsOnly (method args) := method_args2 (P := fun _ => True) .raise hm trivial fun a b _ => h a b

theorem readsOnly_args3 {f : Value → Value → Value → K F Reply} (hm : Handler.args3 f = .keyspace method)
    (h : ∀ a b e, ReadsOnly (f a b e)) :
    ReadsOnly (method args) := method_args3 (P := fun _ => True) .raise hm trivial fun a b e _ => h a b e

/-- A method of one argument and a rest. -/
theorem readsOnly_rest1 {f : Value → List Value → K F Reply} (hm : Handler.rest1 f = .keyspace method)
    (h : ∀ a rest, ReadsOnly (f a rest)) :
    ReadsOnly (method args) := method_rest1 (P := fun _ => True) .raise hm trivial fun a rest _ => h a rest

theorem readsOnly_rest2 {f : Value → Value → List Value → K F Reply} (hm : Handler.rest2 f = .keyspace method)
    (h : ∀ a b rest, ReadsOnly (f a b rest)) : ReadsOnly (method args) :=
  method_rest2 (P := fun _ => True) .raise hm trivial fun a b rest _ => h a b rest

theorem readsOnly_rest3 {f : Value → Value → Value → List Value → K F Reply} (hm : Handler.rest3 f = .keyspace method)
    (h : ∀ a b e rest, ReadsOnly (f a b e rest)) : ReadsOnly (method args) :=
  method_rest3 (P := fun _ => True) .raise hm trivial fun a b e rest _ => h a b e rest

/-- A command that is not reported to write, and that is not about the fields of a hash, only reads. -/
theorem readsOnly_command (hm : handler c = .keyspace method) (hread : c.accessFlag ≠ some (bs "write"))
    (hhash : c ∉ hashReaders) :
    ReadsOnly (method args) := by
  have hwrite : c.accessFlag = some (bs "write") → ReadsOnly (method args) := fun h => absurd h hread
  cases c with
  | WATCH | UNWATCH | COMMAND | CLIENT | CONFIG | FLUSHDB | FLUSHALL
  | SUBSCRIBE | UNSUBSCRIBE | PSUBSCRIBE | PUNSUBSCRIBE | PUBLISH | PUBSUB => cases hm
  | SET | SETNX | SETEX | PSETEX | GETDEL | GETEX | GETSET | MSET | MSETNX | DEL | EXPIRE | PEXPIRE
  | EXPIREAT | PEXPIREAT | PERSIST | INCRBY | INCR | INCRBYFLOAT | DECRBY | DECR | SETRANGE | APPEND => exact hwrite rfl
  | SADD | SREM | SDIFFSTORE | SINTERSTORE | SMOVE | SPOP | SUNIONSTORE | SETBIT | BITOP | BITFIELD => exact hwrite rfl
  | HSET | HMSET | HSETNX | HDEL | HINCRBY | HINCRBYFLOAT | HEXPIRE | HPEXPIRE | HEXPIREAT | HPEXPIREAT | HPERSIST =>
    exact hwrite rfl
  | LPUSH | RPUSH | LPUSHX | RPUSHX | LPOP | RPOP | LSET | LTRIM | LREM | LINSERT | LMOVE | RPOPLPUSH | LMPOP => exact hwrite rfl
  | ZADD | ZINCRBY | ZREM | ZREMRANGEBYRANK | ZREMRANGEBYSCORE | ZREMRANGEBYLEX | ZPOPMIN | ZPOPMAX | ZUNIONSTORE | ZINTERSTORE
  | ZDIFFSTORE => exact hwrite rfl
  | HGET | HMGET | HEXISTS | HLEN | HKEYS | HVALS | HGETALL | HSTRLEN | HSCAN | HRANDFIELD | HTTL | HPTTL | HEXPIRETIME
  | HPEXPIRETIME => exact absurd (by decide) hhash
  | PING =>
    cases hm
    dsimp only
    split
    · exact ⟨untouching_PING none, fun w => w.reads_PING none⟩
    · exact ⟨untouching_PING (some _), fun w => w.reads_PING (some _)⟩
    · exact .raise _
  | ECHO => exact readsOnly_args1 hm fun message => .pure _
  | TYPE => exact readsOnly_args1 hm fun key => ⟨untouching_TYPE key, fun w => w.reads_TYPE key⟩
  | HELLO =>
    cases hm
    exact ⟨untouching_HELLO args, fun w => w.reads_HELLO args⟩
  | INFO =>
    cases hm
    exact ⟨untouching_INFO args, fun w => w.reads_INFO args⟩
  | GET => exact readsOnly_args1 hm fun key => ⟨untouching_GET key, fun w => w.reads_GET key⟩
  | MGET =>
    cases hm
    exact ⟨untouching_MGET args, fun w => w.reads_MGET args⟩
  | EXPIRETIME =>
    exact readsOnly_args1 hm fun key => ⟨.bind (untouching_wall_expiry key) fun _ => .pure, fun w => w.reads_EXPIRETIME key⟩
  | PEXPIRETIME =>
    exact readsOnly_args1 hm fun key => ⟨.bind (untouching_wall_expiry key) fun _ => .pure, fun w => w.reads_PEXPIRETIME key⟩
  | TTL =>
    refine readsOnly_args1 hm fun key =>
      ⟨.bind (.bind (untouching_ttl_ms key) fun _ => ?_) fun _ => .pure, fun w => w.reads_TTL key⟩
    exact .ite (fun _ => .pure) fun _ => .pure
  | PTTL => exact readsOnly_args1 hm fun key => ⟨.bind (untouching_ttl_ms key) fun _ => .pure, fun w => w.reads_PTTL key⟩
  | KEYS => exact readsOnly_args1 hm fun pattern => ⟨untouching_KEYS pattern, fun w => w.reads_KEYS pattern⟩
  | SCAN => exact readsOnly_rest1 hm fun cursor options => ⟨untouching_SCAN cursor options, fun w => w.reads_SCAN cursor options⟩
  | EXISTS =>
    cases hm
    exact ⟨untouching_countLive .EXISTS args, fun w => w.reads_countLive .EXISTS args⟩
  | TOUCH =>
    cases hm
    exact ⟨untouching_countLive .TOUCH args, fun w => w.reads_countLive .TOUCH args⟩
  | DBSIZE => exact method_args0 .raise hm ⟨.bind untouching_keys fun _ => .pure, fun w => w.reads_DBSIZE⟩
  | LCS =>
    exact readsOnly_rest2 hm fun key1 key2 options =>
    ⟨untouching_LCS key1 key2 options, fun w => w.reads_LCS key1 key2 options⟩
  | SUBSTR | GETRANGE =>
    refine readsOnly_args3 hm ?_
    intro key _ _
    refine .int ?_
    intro start
    refine .int ?_
    intro stop
    exact ⟨untouching_getrange key start stop, fun w => w.reads_getrange key start stop⟩
  | STRLEN => exact readsOnly_args1 hm fun key => ⟨.bind (untouching_string key) fun _ => .pure, fun w => w.reads_STRLEN key⟩
  | SCARD => exact readsOnly_args1 hm fun key => ⟨untouching_setRead key fun _ => .pure, fun w => w.reads_SCARD key⟩
  | SMEMBERS => exact readsOnly_args1 hm fun key => ⟨untouching_setRead key fun _ => .pure, fun w => w.reads_SMEMBERS key⟩
  | SDIFF | SINTER | SUNION =>
    cases hm
    exact ⟨untouching_setOp _ _ args, fun w => w.reads_setOp _ _ args⟩
  | SINTERCARD =>
    refine readsOnly_rest1 hm ?_
    intro _ rest
    refine .int ?_
    intro numkeys
    exact ⟨untouching_SINTERCARD numkeys rest, fun w => w.reads_SINTERCARD numkeys rest⟩
  | SSCAN =>
    exact readsOnly_rest2 hm fun key cursor options =>
    ⟨untouching_SSCAN key cursor options, fun w => w.reads_SSCAN key cursor options⟩
  | SMISMEMBER => exact readsOnly_rest1 hm fun key vals => ⟨untouching_SMISMEMBER key vals, fun w => w.reads_SMISMEMBER key vals⟩
  | SISMEMBER => exact readsOnly_args2 hm fun key val => ⟨untouching_SISMEMBER key val, fun w => w.reads_SISMEMBER key val⟩
  | SRANDMEMBER =>
    exact method_keyCount (P := fun _ => True) .raise hm trivial (fun v _ h => .int? v h) fun key _ _ count =>
      ⟨untouching_SRANDMEMBER key count, fun w => w.reads_SRANDMEMBER key count⟩
  | GETBIT =>
    refine readsOnly_args2 hm ?_
    intro key _
    refine .int ?_
    intro bit
    exact ⟨untouching_GETBIT key bit, fun w => w.reads_GETBIT key bit⟩
  | BITCOUNT => exact readsOnly_args1 hm fun key => ⟨untouching_BITCOUNT key, fun w => w.reads_BITCOUNT key⟩
  | BITPOS => exact readsOnly_args2 hm fun key bit => ⟨untouching_BITPOS key bit, fun w => w.reads_BITPOS key bit⟩
  | BITFIELD_RO => exact readsOnly_rest1 hm readsOnly_bitfield_ro
  | LLEN => exact readsOnly_args1 hm fun key => ⟨untouching_listRead key fun _ => .pure, fun w => w.reads_LLEN key⟩
  | LRANGE =>
    refine readsOnly_args3 hm ?_
    intro key _ _
    refine .int ?_
    intro start
    refine .int ?_
    intro stop
    exact ⟨untouching_listRead key fun _ => .pure, fun w => w.reads_LRANGE key start stop⟩
  | LINDEX =>
    refine readsOnly_args2 hm ?_
    intro key _
    refine .int ?_
    intro index
    exact ⟨untouching_listRead key fun _ => .pure, fun w => w.reads_LINDEX key index⟩
  | LPOS =>
    exact readsOnly_rest2 hm fun key element options =>
    ⟨untouching_LPOS key element options, fun w => w.reads_LPOS key element options⟩
  | ZCARD => exact readsOnly_args1 hm fun key => ⟨.bind (untouching_zset key) fun _ => .pure, fun w => w.reads_ZCARD key⟩
  | ZSCORE => exact readsOnly_args2 hm fun key member => ⟨untouching_ZSCORE key member, fun w => w.reads_ZSCORE key member⟩
  | ZMSCORE => exact readsOnly_rest1 hm fun key vals => ⟨untouching_ZMSCORE key vals, fun w => w.reads_ZMSCORE key vals⟩
  | ZRANK | ZREVRANK =>
    exact readsOnly_rest2 hm fun key member options =>
      ⟨untouching_zrank key member options _, fun w => w.reads_zrank key member options _⟩
  | ZRANGE =>
    exact readsOnly_rest3 hm fun key start stop options =>
    ⟨untouching_ZRANGE key start stop options, fun w => w.reads_ZRANGE key start stop options⟩
  | ZREVRANGE =>
    exact readsOnly_rest3 hm fun key start stop options =>
      ⟨untouching_rangeOptions _ options fun _ => untouching_zrangeWith key start stop _ true,
        fun w => w.reads_ZREVRANGE key start stop options⟩
  | ZRANGEBYSCORE | ZREVRANGEBYSCORE =>
    exact readsOnly_rest3 hm fun key _ _ options =>
      ⟨untouching_rangeOptions _ options fun _ => untouching_zrangeWith key _ _ _ _,
        fun w => w.reads_legacy_score_range key _ _ options _⟩
  | ZRANGEBYLEX | ZREVRANGEBYLEX =>
    exact readsOnly_rest3 hm fun key _ _ options =>
      ⟨untouching_rangeOptions _ options fun _ => untouching_zrangeWith key _ _ _ _,
        fun w => w.reads_legacy_lex_range key _ _ options _⟩
  | ZCOUNT =>
    exact readsOnly_args3 hm fun key min_ max_ => ⟨untouching_ZCOUNT key min_ max_, fun w => w.reads_ZCOUNT key min_ max_⟩
  | ZLEXCOUNT =>
    exact readsOnly_args3 hm fun key min_ max_ =>
    ⟨untouching_ZLEXCOUNT key min_ max_, fun w => w.reads_ZLEXCOUNT key min_ max_⟩
  | ZSCAN =>
    exact readsOnly_rest2 hm fun key cursor options =>
    ⟨untouching_ZSCAN key cursor options, fun w => w.reads_ZSCAN key cursor options⟩
  | ZRANDMEMBER =>
    exact method_keyCountRest (P := fun _ => True) .raise hm trivial (fun v _ h => .int? v h) fun key _ _ count options =>
      ⟨untouching_ZRANDMEMBER key count options, fun w => w.reads_ZRANDMEMBER key count options⟩
  | ZUNION | ZINTER | ZDIFF =>
    refine readsOnly_rest1 hm ?_
    intro _ rest
    refine .int ?_
    intro n
    exact ⟨untouching_zopRead _ _ _ n rest, fun w => w.reads_zopRead _ _ _ n rest⟩

theorem untouching_hashReader (hm : (handler c : Handler F) = .keyspace method) (hhash : c ∈ hashReaders) :
    Untouching (method args) := by
  have hraise : ∀ e, Untouching (Prog.raise e : K F Reply) := fun _ => .raise
  simp only [hashReaders, List.mem_cons, List.not_mem_nil, or_false] at hhash
  rcases hhash with rfl | rfl | rfl | rfl | rfl | rfl | rfl | rfl | rfl | rfl | rfl | rfl | rfl | rfl
  · refine method_args2 (P := fun _ => True) hraise hm trivial ?_
    intro key field _
    exact .bind (untouching_fieldValue key field) fun _ => .pure
  · exact method_rest1 (P := fun _ => True) hraise hm trivial fun key fields _ => untouching_HMGET key fields
  · refine method_args2 (P := fun _ => True) hraise hm trivial ?_
    intro key field _
    exact .bind (untouching_fieldValue key field) fun _ => .pure
  · exact method_args1 (P := fun _ => True) hraise hm trivial fun key _ => untouching_hashRead key _ _
  · exact method_args1 (P := fun _ => True) hraise hm trivial fun key _ => untouching_hashRead key _ _
  · exact method_args1 (P := fun _ => True) hraise hm trivial fun key _ => untouching_hashRead key _ _
  · exact method_args1 (P := fun _ => True) hraise hm trivial fun key _ => untouching_hashRead key _ _
  · exact method_args2 (P := fun _ => True) hraise hm trivial fun key field _ => untouching_HSTRLEN key field
  · exact method_rest2 (P := fun _ => True) hraise hm trivial fun key cursor options _ => untouching_HSCAN key cursor options
  · refine method_keyCountRest (P := fun _ => True) hraise hm trivial
      (fun v _ h => .bind (untouching_of_computes (computes_intArg? v)) h) ?_
    exact fun key _ _ count options => untouching_HRANDFIELD key count options
  · exact method_rest1 (P := fun _ => True) hraise hm trivial fun key args _ => untouching_hexpire_read _ _ key args
  · exact method_rest1 (P := fun _ => True) hraise hm trivial fun key args _ => untouching_hexpire_read _ _ key args
  · exact method_rest1 (P := fun _ => True) hraise hm trivial fun key args _ => untouching_hexpire_read _ _ key args
  · exact method_rest1 (P := fun _ => True) hraise hm trivial fun key args _ => untouching_hexpire_read _ _ key args

end Table

end Kagni
