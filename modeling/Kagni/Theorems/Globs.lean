import Kagni.Commands.Basic
import Kagni.Lemmas.Computes
import Kagni.Lemmas.Glob
import Kagni.Theorems.Expiry

/-!
# What a glob pattern means

`fnmatch` and redis read a pattern alike as long as no backslash stands before anything and every class is closed and is the same
set in both. The patterns of the first kind, `Portable`, mean what redis means; among those both read up to the same places,
`Aligned`, only they do.
-/

namespace Kagni

open Lib Lib.Prog Lib.Wildcard Glob

variable {F : Type}

/-- The pattern compiles, and its matcher accepts what redis accepts. -/
def GlobMeans (F : Type) (pattern : Bytes) : Prop :=
  ∃ matcher, (∀ ctx : Ctx, ctx.env.glob = fnmatchGlob → Yields ctx (compile_glob (.bytes pattern) : K F _) matcher) ∧
    ∀ s, matcher s = true ↔ s ∈ redisLanguage pattern

/-- What `re.compile` makes of the pattern has the language that redis gives it. -/
theorem globMeans_iff (pattern : Bytes) :
    GlobMeans F pattern ↔ ∃ ts, tokens (decode pattern) = some ts ∧ language ts = redisLanguage pattern := by
  constructor
  · rintro ⟨matcher, hrun, hmeans⟩
    have h := hrun ⟨⟨fnmatchGlob, fun _ => 0, fun _ _ => []⟩, ⟨0, 0⟩, ⟨∅, ∅⟩, [], 0⟩ rfl
    change Yields _ (orFail (fnmatchGlob pattern)) _ at h
    unfold fnmatchGlob at h
    cases htokens : tokens (decode pattern) with
    | none =>
      rw [show re_compile (translate (decode pattern)) = none from htokens] at h
      exact absurd h Yields.not_raise
    | some ts =>
      rw [show re_compile (translate (decode pattern)) = some ts from htokens] at h
      obtain rfl := h.eq (Yields.pure (globMatch ts))
      refine ⟨ts, rfl, ?_⟩
      ext s
      rw [← globMatch_iff, hmeans]
  · rintro ⟨ts, htokens, hlang⟩
    refine ⟨globMatch ts, fun ctx hctx => ?_, fun s => by rw [globMatch_iff, hlang]⟩
    change Yields _ (orFail (ctx.env.glob pattern)) _
    rw [hctx, fnmatchGlob, show re_compile (translate (decode pattern)) = some ts from htokens]
    exact Yields.pure _

/-- The matcher of a pattern that means what redis means agrees with redis on every subject. -/
theorem GlobMeans.agree {pattern : Bytes} (h : GlobMeans F pattern) (s : Bytes) :
    (fnmatchGlob pattern).map (fun matcher => matcher s) = some (globMatch (redisFrom 0 pattern) s) := by
  obtain ⟨ts, htokens, hlang⟩ := (globMeans_iff pattern).1 h
  rw [fnmatchGlob, show re_compile (translate (decode pattern)) = some ts from htokens]
  refine congrArg some (Bool.eq_iff_iff.2 ?_)
  rw [globMatch_iff, globMatch_iff, hlang]
  rfl

/-- Filtering names by a matcher. -/
theorem yields_filter (ctx : Ctx) (matcher : Bytes → Bool) (names : List Bytes) :
    Yields ctx (filterM_ (matches_ matcher) (names.map .bytes) : K F _) ((names.filter matcher).map .bytes) := by
  induction names with
  | nil => exact Yields.pure _
  | cons name names ih =>
    refine Yields.bind (Yields.pure (matcher name)) (Yields.bind ih ?_)
    rw [List.filter_cons]
    cases matcher name with
    | false => exact Yields.pure _
    | true => exact Yields.pure _

/-- KEYS with such a pattern lists the live keys that redis would. -/
theorem GlobMeans.keys {pattern : Bytes} (h : GlobMeans F pattern) {ctx : Ctx} (hglob : ctx.env.glob = fnmatchGlob)
    (hctx : ctx.PurgeReturns F) {k : KState F} {names : List Bytes}
    (hnames : (k.store.storage.filter fun p => p.2.live ctx.clock.mono).keys = names.map .bytes) :
    ∃ found : List Bytes, Gives (KEYS (.bytes pattern)) ctx k (.ok (.values (found.map .bytes)))
      (k.store.content ctx.clock.mono) ∧
      ∀ s, s ∈ found ↔ s ∈ names ∧ s ∈ redisLanguage pattern := by
  obtain ⟨matcher, hrun, hmeans⟩ := h
  refine ⟨names.filter matcher, ?_, fun s => by rw [List.mem_filter, hmeans]⟩
  obtain ⟨k', hkeys, hm⟩ := gives_data_keys hctx k
  rw [hnames] at hkeys
  refine ⟨k', (bind_ok ctx k (hrun ctx hglob k)).trans ?_, hm⟩
  exact (bind_ok ctx k hkeys).trans (bind_ok ctx k' (yields_filter ctx matcher names k'))

/-! ## Portable patterns -/

/-- A decoded pattern that both dialects read alike: only the last code point may be a backslash, and a class is closed at the
same place and is the same set. -/
inductive Portable : Points → Prop
  | nil : Portable []
  | point {c : Nat} {cs : Points} : c ≠ 91 → c ≠ 92 → Portable cs → Portable (c :: cs)
  | backslash : Portable [92]
  | set {body rest : Points} {p : UInt8 → Bool} : classBody (body ++ 93 :: rest) = some body →
      (setPiece body).compile = some [.one p] → (∀ b, (redisClass (encode (body ++ 93 :: rest))).1 b = p b) →
      (redisClass (encode (body ++ 93 :: rest))).2 = encode rest → Portable rest → Portable (91 :: (body ++ 93 :: rest))

theorem encode_class (cs : Points) : encode (91 :: cs) = 91 :: encode cs := rfl

/-- The tokens of a portable pattern are those that redis reads. -/
theorem Portable.tokens_eq {cs : Points} (h : Portable cs) : tokens cs = some (redisFrom 0 (encode cs)) := by
  induction h with
  | nil => rfl
  | @point c cs h₁ h₂ _ ih =>
    rw [tokens_point h₁, ih, encode_cons, redis_point h₁ h₂]
    rfl
  | backslash => rfl
  | @set body rest p hclosed hcompile hset hrest _ ih =>
    have hp : (redisClass (encode (body ++ 93 :: rest))).1 = p := funext hset
    rw [tokens_class hclosed, hcompile, ih, encode_class, redis_class, hp, hrest]
    rfl

theorem Portable.globMeans {pattern : Bytes} (h : Portable (decode pattern)) : GlobMeans F pattern := by
  refine (globMeans_iff pattern).2 ⟨_, h.tokens_eq, ?_⟩
  rw [encode_decode]
  rfl

/-! ## Aligned patterns -/

/-- A decoded pattern that both dialects read up to the same places: no backslash stands before a bracket, and every class is
closed at the same place, or, as the last one, in neither dialect, and has a byte in it where it compiles. -/
inductive Aligned : Points → Prop
  | nil : Aligned []
  | point {c : Nat} {cs : Points} : c ≠ 91 → c ≠ 92 → Aligned cs → Aligned (c :: cs)
  | backslash : Aligned [92]
  | escape {c : Nat} {cs : Points} : c ≠ 91 → Aligned cs → Aligned (92 :: c :: cs)
  | unclosed {cs : Points} : classBody cs = none → 91 ∉ cs → (redisClass (encode cs)).2 = [] →
      (∃ b, (redisClass (encode cs)).1 b = true) → Aligned (91 :: cs)
  | set {body rest : Points} : classBody (body ++ 93 :: rest) = some body →
      (∀ p, (setPiece body).compile = some [.one p] → ∃ b, p b = true) →
      (redisClass (encode (body ++ 93 :: rest))).2 = encode rest → (∃ b, (redisClass (encode (body ++ 93 :: rest))).1 b = true) →
      Aligned rest → Aligned (91 :: (body ++ 93 :: rest))

/-- Without a bracket there is nothing to align. -/
theorem aligned_of_no_bracket : (cs : Points) → 91 ∉ cs → Aligned cs
  | [], _ => .nil
  | [c], h => by
    by_cases hc : c = 92
    · rw [hc]
      exact .backslash
    · exact .point (fun h' => h (h' ▸ List.mem_cons_self)) hc .nil
  | c :: d :: cs, h => by
    have hc : c ≠ 91 := fun h' => h (h' ▸ List.mem_cons_self)
    have hd : d ≠ 91 := fun h' => h (h' ▸ List.mem_cons_of_mem _ List.mem_cons_self)
    have hcs : 91 ∉ d :: cs := fun h' => h (List.mem_cons_of_mem _ h')
    by_cases hback : c = 92
    · rw [hback]
      exact .escape hd (aligned_of_no_bracket cs fun h' => hcs (List.mem_cons_of_mem _ h'))
    · exact .point hc hback (aligned_of_no_bracket (d :: cs) hcs)

/-- Without a bracket a pattern is read one code point after the other. -/
theorem tokens_of_no_bracket {cs : Points} (h : 91 ∉ cs) : tokens cs = some (cs.flatMap pointTokens) := by
  induction cs with
  | nil => rfl
  | cons c cs ih =>
    rw [tokens_point fun h' => h (h' ▸ List.mem_cons_self), ih fun h' => h (List.mem_cons_of_mem _ h')]
    rfl

theorem live_append {ts us : List (Tok UInt8)} (hts : Live ts) (hus : Live us) : Live (ts ++ us) := by
  intro p hp
  rw [ones_append] at hp
  exact (List.mem_append.1 hp).elim (hts p) (hus p)

theorem live_flatMap (cs : Points) : Live (cs.flatMap pointTokens) := by
  induction cs with
  | nil => exact fun _ hp => absurd hp List.not_mem_nil
  | cons c cs ih => exact live_append (pointTokens_live c) ih

theorem live_bytes (u : Bytes) : Live (u.map byte) := by
  intro p hp
  obtain ⟨b, rfl⟩ := mem_ones_bytes hp
  exact ⟨b, beq_self_eq_true b⟩

theorem live_one {p : UInt8 → Bool} (h : ∃ b, p b = true) : Live [.one p] := by
  intro q hq
  obtain rfl := List.mem_singleton.1 hq
  exact h

/-- The sets that `fnmatch` reads in an aligned pattern are not empty. -/
theorem Aligned.live {cs : Points} (h : Aligned cs) {ts : List (Tok UInt8)} (hts : tokens cs = some ts) : Live ts := by
  induction h generalizing ts with
  | nil =>
    cases hts
    exact fun _ hp => absurd hp List.not_mem_nil
  | @point c cs hc _ _ ih =>
    obtain ⟨us, hus, rfl⟩ := of_tokens_point hc hts
    exact live_append (pointTokens_live c) (ih hus)
  | backslash =>
    cases hts
    exact live_bytes [92]
  | @escape c cs hc _ ih =>
    obtain ⟨vs, hvs, rfl⟩ := of_tokens_point (by decide) hts
    obtain ⟨us, hus, rfl⟩ := of_tokens_point hc hvs
    exact live_append (pointTokens_live 92) (live_append (pointTokens_live c) (ih hus))
  | @unclosed cs hopen hcs _ _ =>
    rw [tokens_unclosed hopen, tokens_of_no_bracket hcs] at hts
    cases hts
    exact live_append (live_bytes [91]) (live_flatMap cs)
  | @set body rest hclosed hset _ _ _ ih =>
    obtain ⟨p, us, hcompile, hus, rfl⟩ := of_tokens_class hclosed hts
    exact live_append (live_one (hset p hcompile)) (ih hus)

/-- So are those that redis reads. -/
theorem Aligned.live_redis {cs : Points} (h : Aligned cs) : Live (redisFrom 0 (encode cs)) := by
  induction h with
  | nil => exact fun _ hp => absurd hp List.not_mem_nil
  | @point c cs h₁ h₂ _ ih =>
    rw [encode_cons, redis_point h₁ h₂]
    exact live_append (pointTokens_live c) ih
  | backslash => exact live_bytes [92]
  | @escape c cs _ _ ih =>
    change Live (redisFrom 0 (92 :: (encodePoint c ++ encode cs)))
    rw [redis_escape]
    exact live_append (live_bytes _) ih
  | unclosed _ _ hrest hset =>
    rw [encode_class, redis_class, hrest]
    exact live_one hset
  | set _ _ hrest hset _ ih =>
    rw [encode_class, redis_class, hrest]
    exact live_append (live_one hset) ih

/-- An escape costs `fnmatch` a set that it does not cost redis, unless it escapes a star. -/
theorem Aligned.length_le {cs : Points} (h : Aligned cs) {ts : List (Tok UInt8)} (hts : tokens cs = some ts) :
    (ones (redisFrom 0 (encode cs))).length ≤ (ones ts).length := by
  induction h generalizing ts with
  | nil => exact Nat.zero_le _
  | @point c cs h₁ h₂ _ ih =>
    obtain ⟨us, hus, rfl⟩ := of_tokens_point h₁ hts
    rw [encode_cons, redis_point h₁ h₂, ones_append, ones_append, List.length_append, List.length_append]
    exact Nat.add_le_add_left (ih hus) _
  | backslash =>
    cases hts
    exact Nat.le_refl _
  | @escape c cs hc _ ih =>
    obtain ⟨vs, hvs, rfl⟩ := of_tokens_point (by decide) hts
    obtain ⟨us, hus, rfl⟩ := of_tokens_point hc hvs
    have hle := ih hus
    change (ones (redisFrom 0 (92 :: (encodePoint c ++ encode cs)))).length ≤ _
    rw [redis_escape]
    simp only [ones_append, List.length_append, ones_bytes_length]
    have hback : (ones (pointTokens 92)).length = 1 := rfl
    by_cases hstar : c = 42
    · have hpoint : (encodePoint c).length = 1 := by
        rw [hstar]
        rfl
      omega
    · rw [ones_pointTokens_length hstar]
      omega
  | @unclosed cs hopen hcs hrest _ =>
    rw [tokens_unclosed hopen, tokens_of_no_bracket hcs] at hts
    cases hts
    rw [encode_class, redis_class, hrest]
    exact Nat.succ_le_succ (Nat.zero_le _)
  | @set body rest hclosed _ hrest _ _ ih =>
    obtain ⟨p, us, -, hus, rfl⟩ := of_tokens_class hclosed hts
    rw [encode_class, redis_class, hrest]
    exact Nat.succ_le_succ (ih hus)

theorem redisRanges_stars {s : Bytes} (h : ∀ b ∈ s, b = 42) : ∀ r ∈ (redisRanges s).1, r = (42, 42) := by
  fun_induction redisRanges s with
  | case1 => exact fun _ hr => absurd hr List.not_mem_nil
  | case2 => exact fun _ hr => absurd hr List.not_mem_nil
  | case3 x => simpa using h
  | case4 => exact absurd (h 92 List.mem_cons_self) (by decide)
  | case5 x _ y _ ih =>
    have hx := List.forall_mem_cons.1 h
    exact List.forall_mem_cons.2 ⟨by rw [hx.1], ih hx.2⟩
  | case6 => exact absurd (h 45 (by simp)) (by decide)
  | case7 x _ y _ z u _ ih =>
    have hx := List.forall_mem_cons.1 h
    exact List.forall_mem_cons.2 ⟨by rw [hx.1], ih hx.2⟩

/-- A class of stars has no bracket in it. -/
theorem redisClass_stars {s : Bytes} (h : ∀ b ∈ s, b = 42) : (redisClass s).1 91 = false := by
  have hhead : s.head? ≠ some 94 := by
    intro hs
    exact absurd (h 94 (List.mem_of_mem_head? hs)) (by decide)
  rw [redisClass, if_neg hhead]
  refine Bool.not_eq_true _ ▸ ?_
  intro hin
  obtain ⟨r, hr, hle⟩ := List.any_eq_true.1 hin
  rw [redisRanges_stars h r hr] at hle
  exact absurd (of_decide_eq_true hle) (by decide)

/-- A pattern that stands for no byte is all stars. -/
theorem stars_of_ones_nil {cs : Points} (h : ones (cs.flatMap pointTokens) = []) : ∀ b ∈ encode cs, b = 42 := by
  induction cs with
  | nil => exact fun _ hb => absurd hb List.not_mem_nil
  | cons c cs ih =>
    rw [List.flatMap_cons, ones_append, List.append_eq_nil_iff] at h
    have hc : c = 42 := by
      refine not_not.1 fun hc => encodePoint_ne_nil c (List.length_eq_zero_iff.1 ?_)
      rw [← ones_pointTokens_length hc, h.1]
      rfl
    rw [hc]
    exact List.forall_mem_cons.2 ⟨rfl, ih h.2⟩

/-- Aligned patterns with the same sets are portable. -/
theorem Aligned.portable {cs : Points} (h : Aligned cs) {ts : List (Tok UInt8)} (hts : tokens cs = some ts)
    (hones : ones ts = ones (redisFrom 0 (encode cs))) : Portable cs := by
  induction h generalizing ts with
  | nil => exact .nil
  | @point c cs h₁ h₂ _ ih =>
    obtain ⟨us, hus, rfl⟩ := of_tokens_point h₁ hts
    rw [encode_cons, redis_point h₁ h₂, ones_append, ones_append] at hones
    exact .point h₁ h₂ (ih hus (List.append_cancel_left hones))
  | backslash => exact .backslash
  | @escape c cs hc hcs _ =>
    obtain ⟨vs, hvs, rfl⟩ := of_tokens_point (by decide) hts
    obtain ⟨us, hus, rfl⟩ := of_tokens_point hc hvs
    have hle := hcs.length_le hus
    change _ = ones (redisFrom 0 (92 :: (encodePoint c ++ encode cs))) at hones
    rw [redis_escape] at hones
    have hlen := congrArg List.length hones
    simp only [ones_append, List.length_append, ones_bytes_length] at hlen
    have hback : (ones (pointTokens 92)).length = 1 := rfl
    by_cases hstar : c = 42
    · -- The first set is the backslash for `fnmatch` and the star for redis.
      rw [hstar] at hones
      have hfirst := congrFun (List.cons.inj hones).1 42
      cases hfirst
    · rw [ones_pointTokens_length hstar] at hlen
      omega
  | @unclosed cs hopen hcs hrest _ =>
    rw [tokens_unclosed hopen, tokens_of_no_bracket hcs] at hts
    cases hts
    rw [encode_class, redis_class, hrest] at hones
    obtain ⟨hset, hnil⟩ := List.cons.inj hones
    have hfirst := (congrFun hset 91).trans (redisClass_stars (stars_of_ones_nil hnil))
    cases hfirst
  | @set body rest hclosed _ hrest _ _ ih =>
    obtain ⟨p, us, hcompile, hus, rfl⟩ := of_tokens_class hclosed hts
    rw [encode_class, redis_class, hrest] at hones
    obtain ⟨hp, hones⟩ := List.cons.inj hones
    exact .set hclosed hcompile (fun b => (congrFun hp b).symm) hrest (ih hus hones)

/-! ## What portable patterns mean -/

/-- A portable pattern means what redis means; an aligned one does only if it is portable. -/
theorem portable_means (pattern : Bytes) :
    (Portable (decode pattern) → GlobMeans F pattern) ∧
      (Aligned (decode pattern) → GlobMeans F pattern → Portable (decode pattern)) := by
  refine ⟨Portable.globMeans, fun haligned hmeans => ?_⟩
  obtain ⟨ts, htokens, hlang⟩ := (globMeans_iff pattern).1 hmeans
  have hlive : Live (redisFrom 0 pattern) := by
    rw [← encode_decode pattern]
    exact haligned.live_redis
  refine haligned.portable htokens ?_
  rw [encode_decode]
  exact ones_eq_of_language (haligned.live htokens) hlive hlang

/-- `h[a-c]l*o` means what redis means, and `\?` does not. -/
theorem portable_means_hello : GlobMeans Int (bs "h[a-c]l*o") ∧ ¬GlobMeans Int (bs "\\?") := by
  constructor
  · refine (portable_means _).1 ?_
    change Portable [104, 91, 97, 45, 99, 93, 108, 42, 111]
    have hrest : Portable [108, 42, 111] :=
      .point (by decide) (by decide) (.point (by decide) (by decide) (.point (by decide) (by decide) .nil))
    exact .point (by decide) (by decide) (@Portable.set [97, 45, 99] _ _ rfl rfl (fun b => (Bool.false_xor _).symm) rfl hrest)
  · intro h
    have haligned : Aligned [92, 63] := .escape (by decide) .nil
    have hportable : Portable [92, 63] := (portable_means (bs "\\?")).2 haligned h
    cases hportable with
    | point _ hback _ => exact hback rfl

/-- `[^a]` is not the complement of `a`, `\*` no literal star, and a range from a byte that is no UTF-8 has no matcher. -/
theorem glob_dialects_differ :
    ¬GlobMeans Int (bs "[^a]") ∧ ¬GlobMeans Int (bs "\\*") ∧ ¬GlobMeans Int [91, 255, 45, 238, 128, 128, 93] := by
  refine ⟨fun h => ?_, fun h => ?_, fun h => ?_⟩
  · exact absurd (h.agree (bs "b")) (by decide)
  · exact absurd (h.agree (bs "*")) (by decide)
  · exact absurd (h.agree []) (by decide)

end Kagni
