import Kagni.Glob

/-!
# Reading a pattern

Decoding and encoding are inverse on every byte string; what one code point, one class and one escape give in either dialect.
-/

namespace Kagni.Glob

open Lib.Wildcard

/-! ## UTF-8 -/

@[simp] theorem encode_nil : encode [] = [] := rfl

@[simp] theorem encode_cons (c : Nat) (cs : Points) : encode (c :: cs) = encodePoint c ++ encode cs := rfl

theorem encodePoint_ascii {c : Nat} (h : c < 128) : encodePoint c = [.ofNat c] := if_pos h

theorem byte_eq {b : UInt8} {n : Nat} (h : b.toNat = n) : UInt8.ofNat n = b := by rw [← h, UInt8.ofNat_toNat]

/-- A code point beyond ASCII has no byte in it that is ASCII. -/
theorem encodePoint_high {c : Nat} (h : 128 ≤ c) : ∀ b ∈ encodePoint c, 128 ≤ b := by
  intro b hb
  change 128 ≤ b.toNat
  unfold encodePoint at hb
  split_ifs at hb <;> simp only [List.mem_cons, List.not_mem_nil, or_false] at hb
  · omega
  · rcases hb with rfl | rfl <;> rw [UInt8.toNat_ofNat'] <;> omega
  · subst hb
    rw [UInt8.toNat_ofNat']
    omega
  · rcases hb with rfl | rfl | rfl <;> rw [UInt8.toNat_ofNat'] <;> omega
  · rcases hb with rfl | rfl | rfl | rfl <;> rw [UInt8.toNat_ofNat'] <;> omega

theorem encodePoint_ne_nil (c : Nat) : encodePoint c ≠ [] := by
  unfold encodePoint
  split_ifs <;> exact List.cons_ne_nil _ _

theorem continued_zero (c : Nat) (s : Bytes) : continued 0 c s = some c := by cases s <;> rfl

theorem of_continued_succ {n c d : Nat} {s : Bytes} (h : continued (n + 1) c s = some d) :
    ∃ b t, s = b :: t ∧ 128 ≤ b.toNat ∧ b.toNat < 192 ∧ continued n (c * 64 + (b.toNat - 128)) t = some d := by
  cases s with
  | nil => cases h
  | cons b t =>
    rw [continued] at h
    split_ifs at h with hb
    exact ⟨b, t, rfl, hb.1, hb.2, h⟩

theorem of_longer {n least c d m : Nat} {s : Bytes} (h : longer n least c s = some (d, m)) :
    m = n ∧ continued n c s = some d ∧ least ≤ d ∧ ¬(0xD800 ≤ d ∧ d < 0xE000) ∧ d < 0x110000 := by
  obtain ⟨e, he, h⟩ := Option.bind_eq_some_iff.1 h
  split_ifs at h with hd
  cases h
  exact ⟨rfl, he, hd⟩

/-- A well-formed sequence is what its code point is encoded as. -/
theorem encodePoint_sequence {a : UInt8} {s : Bytes} {c n : Nat} (h : sequence a s = some (c, n)) :
    encodePoint c ++ s.drop n = a :: s := by
  unfold sequence at h
  split_ifs at h with h₁ h₂ h₃ h₄ h₅
  · cases h
    have ha : a.toNat < 128 := h₁
    rw [encodePoint_ascii ha, UInt8.ofNat_toNat]
    rfl
  · obtain ⟨rfl, h, hleast, -, -⟩ := of_longer h
    obtain ⟨b, t, rfl, hb, hb', h⟩ := of_continued_succ h
    rw [continued_zero] at h
    obtain rfl := Option.some.inj h
    have ha : a.toNat < 224 := h₃
    have ha' : ¬a.toNat < 192 := h₂
    rw [encodePoint, if_neg (by omega), if_pos (by omega), byte_eq (b := a) (by omega), byte_eq (b := b) (by omega)]
    rfl
  · obtain ⟨rfl, h, hleast, hsurr, -⟩ := of_longer h
    obtain ⟨b, t, rfl, hb, hb', h⟩ := of_continued_succ h
    obtain ⟨b', t, rfl, hb₂, hb₂', h⟩ := of_continued_succ h
    rw [continued_zero] at h
    obtain rfl := Option.some.inj h
    have ha : a.toNat < 240 := h₄
    have ha' : ¬a.toNat < 224 := h₃
    rw [encodePoint, if_neg (by omega), if_neg (by omega), if_neg (by omega), if_pos (by omega), byte_eq (b := a) (by omega),
      byte_eq (b := b) (by omega), byte_eq (b := b') (by omega)]
    rfl
  · obtain ⟨rfl, h, hleast, -, hmost⟩ := of_longer h
    obtain ⟨b, t, rfl, hb, hb', h⟩ := of_continued_succ h
    obtain ⟨b', t, rfl, hb₂, hb₂', h⟩ := of_continued_succ h
    obtain ⟨b'', t, rfl, hb₃, hb₃', h⟩ := of_continued_succ h
    rw [continued_zero] at h
    obtain rfl := Option.some.inj h
    have ha : a.toNat < 248 := h₅
    have ha' : ¬a.toNat < 240 := h₄
    rw [encodePoint, if_neg (by omega), if_neg (by omega), if_neg (by omega), if_neg (by omega), byte_eq (b := a) (by omega),
      byte_eq (b := b) (by omega), byte_eq (b := b') (by omega), byte_eq (b := b'') (by omega)]
    rfl

/-- A byte that starts no sequence comes back as itself. -/
theorem encodePoint_escaped {a : UInt8} {s : Bytes} (h : sequence a s = none) : encodePoint (0xDC00 + a.toNat) = [a] := by
  have ha : 128 ≤ a.toNat := by
    refine Nat.not_lt.1 ?_
    intro hlt
    have hlt' : a < 128 := hlt
    rw [sequence, if_pos hlt'] at h
    cases h
  have ha' := a.toNat_lt
  rw [encodePoint, if_neg (by omega), if_neg (by omega), if_pos (by omega), byte_eq (b := a) (by omega)]

theorem encode_decodeFrom (n : Nat) (s : Bytes) : encode (decodeFrom n s) = s.drop n := by
  induction s generalizing n with
  | nil => rw [decodeFrom, List.drop_nil]; rfl
  | cons a s ih =>
    cases n with
    | succ n => exact ih n
    | zero =>
      rw [decodeFrom, List.drop_zero]
      cases hseq : sequence a s with
      | none => exact (congrArg₂ (· ++ ·) (encodePoint_escaped hseq) (ih 0)).trans (by rw [List.drop_zero]; rfl)
      | some r => exact (congrArg (encodePoint r.1 ++ ·) (ih r.2)).trans (encodePoint_sequence hseq)

/-- Encoding undoes decoding, on bytes that are UTF-8 and on others. -/
theorem encode_decode (p : Bytes) : encode (decode p) = p := encode_decodeFrom 0 p

/-! ## What `fnmatch` reads -/

theorem mem_ones_bytes {u : Bytes} {p : UInt8 → Bool} (h : p ∈ ones (u.map byte)) : ∃ b, p = (· == b) := by
  induction u with
  | nil => cases h
  | cons b u ih =>
    rcases List.mem_cons.1 h with rfl | h
    · exact ⟨b, rfl⟩
    · exact ih h

theorem ones_bytes_length (u : Bytes) : (ones (u.map byte)).length = u.length := by
  induction u with
  | nil => rfl
  | cons b u ih => exact congrArg Nat.succ ih

/-- The tokens of a decoded pattern. -/
def tokens (cs : Points) : Option (List (Tok UInt8)) := re_compile (translate cs)

theorem translateFrom_drop (n : Nat) (cs : Points) : translateFrom n cs = translate (cs.drop n) := by
  induction cs generalizing n with
  | nil => rw [List.drop_nil]; cases n <;> rfl
  | cons c cs ih =>
    cases n with
    | zero => rfl
    | succ n => exact ih n

/-- The tokens of a code point other than a bracket. -/
def pointTokens (c : Nat) : List (Tok UInt8) :=
  if c = 42 then [.star] else if c = 63 then [.one fun _ => true] else (encodePoint c).map byte

theorem tokens_point {c : Nat} (h : c ≠ 91) (cs : Points) : tokens (c :: cs) = (tokens cs).map (pointTokens c ++ ·) := by
  have hpieces : ∃ piece, translate (c :: cs) = piece :: translate cs ∧ piece.compile = some (pointTokens c) := by
    rw [translate, translateFrom, pointTokens]
    by_cases hstar : c = 42
    · rw [if_pos hstar, if_pos hstar]
      exact ⟨.star, rfl, rfl⟩
    by_cases hany : c = 63
    · rw [if_neg hstar, if_neg hstar, if_pos hany, if_pos hany]
      exact ⟨.any, rfl, rfl⟩
    · rw [if_neg hstar, if_neg hstar, if_neg hany, if_neg hany, if_neg h]
      exact ⟨.lit c, rfl, rfl⟩
  obtain ⟨piece, hpieces, hcompile⟩ := hpieces
  rw [tokens, hpieces, re_compile, hcompile]
  change (do return pointTokens c ++ (← tokens cs)) = _
  cases tokens cs <;> rfl

theorem of_tokens_point {c : Nat} (h : c ≠ 91) {cs : Points} {ts : List (Tok UInt8)} (hts : tokens (c :: cs) = some ts) :
    ∃ us, tokens cs = some us ∧ ts = pointTokens c ++ us := by
  rw [tokens_point h] at hts
  obtain ⟨us, hus, rfl⟩ := Option.map_eq_some_iff.1 hts
  exact ⟨us, hus, rfl⟩

/-- A code point that is no star stands for as many bytes as it is encoded in, each out of a set that is not empty. -/
theorem pointTokens_live (c : Nat) : Live (pointTokens c) := by
  intro p hp
  unfold pointTokens at hp
  split_ifs at hp
  · cases hp
  · obtain rfl := List.mem_singleton.1 hp
    exact ⟨0, rfl⟩
  · obtain ⟨b, rfl⟩ := mem_ones_bytes hp
    exact ⟨b, beq_self_eq_true b⟩

theorem ones_pointTokens_length {c : Nat} (h : c ≠ 42) : (ones (pointTokens c)).length = (encodePoint c).length := by
  unfold pointTokens
  rw [if_neg h]
  split_ifs with hany
  · rw [hany]
    rfl
  · exact ones_bytes_length _

theorem tokens_unclosed {cs : Points} (h : classBody cs = none) : tokens (91 :: cs) = (tokens cs).map (byte 91 :: ·) := by
  have hpieces : translate (91 :: cs) = .lit 91 :: translate cs := by
    rw [translate, translateFrom, if_neg (by decide), if_neg (by decide), if_pos rfl, h]
    rfl
  rw [tokens, hpieces]
  change (do return [byte 91] ++ (← tokens cs)) = _
  cases tokens cs <;> rfl

theorem tokens_class {body rest : Points} (h : classBody (body ++ 93 :: rest) = some body) :
    tokens (91 :: (body ++ 93 :: rest)) = (do return (← (setPiece body).compile) ++ (← tokens rest)) := by
  have hpieces : translate (91 :: (body ++ 93 :: rest)) = setPiece body :: translate rest := by
    rw [translate, translateFrom, if_neg (by decide), if_neg (by decide), if_pos rfl, h]
    change setPiece body :: translateFrom (body.length + 1) _ = _
    rw [translateFrom_drop, List.append_cons, List.drop_left' (by simp)]
  rw [tokens, hpieces]
  rfl

/-- A class is one token, where it compiles. -/
theorem of_compile_setPiece {body : Points} {ts : List (Tok UInt8)} (h : (setPiece body).compile = some ts) :
    ∃ p, ts = [.one p] := by
  unfold setPiece at h
  split at h
  · cases h; exact ⟨_, rfl⟩
  · cases h; exact ⟨_, rfl⟩
  all_goals
    obtain ⟨ranges, -, rfl⟩ := Option.map_eq_some_iff.1 h
    exact ⟨_, rfl⟩

theorem of_tokens_class {body rest : Points} (h : classBody (body ++ 93 :: rest) = some body) {ts : List (Tok UInt8)}
    (hts : tokens (91 :: (body ++ 93 :: rest)) = some ts) :
    ∃ p us, (setPiece body).compile = some [.one p] ∧ tokens rest = some us ∧ ts = .one p :: us := by
  rw [tokens_class h] at hts
  obtain ⟨set, hset, hts⟩ := Option.bind_eq_some_iff.1 hts
  obtain ⟨us, hus, hts⟩ := Option.bind_eq_some_iff.1 hts
  obtain ⟨p, rfl⟩ := of_compile_setPiece hset
  cases hts
  exact ⟨p, us, hset, hus, rfl⟩

/-! ## What redis reads -/

theorem redisFrom_drop (n : Nat) (s : Bytes) : redisFrom n s = redisFrom 0 (s.drop n) := by
  induction s generalizing n with
  | nil => rw [List.drop_nil]; cases n <;> rfl
  | cons c s ih =>
    cases n with
    | zero => rfl
    | succ n => exact ih n

theorem redisRanges_suffix (s : Bytes) : (redisRanges s).2 <:+ s := by
  fun_induction redisRanges s with
  | case1 => exact List.suffix_refl _
  | case2 s => exact List.suffix_cons _ _
  | case3 => exact List.nil_suffix
  | case4 => exact List.suffix_cons_iff.2 (.inr (List.suffix_cons_iff.2 (.inr ‹_›)))
  | case5 => exact List.suffix_cons_iff.2 (.inr ‹_›)
  | case6 => exact List.suffix_cons_iff.2 (.inr (List.suffix_cons_iff.2 (.inr (List.suffix_cons_iff.2 (.inr ‹_›)))))
  | case7 => exact List.suffix_cons_iff.2 (.inr ‹_›)

theorem redisClass_suffix (s : Bytes) : (redisClass s).2 <:+ s := by
  unfold redisClass
  split_ifs
  · exact (redisRanges_suffix _).trans (List.tail_suffix _)
  · exact redisRanges_suffix s

theorem redis_class (s : Bytes) : redisFrom 0 (91 :: s) = .one (redisClass s).1 :: redisFrom 0 (redisClass s).2 := by
  obtain ⟨u, hu⟩ := redisClass_suffix s
  have hlen : s.length - (redisClass s).2.length = u.length := by
    have := congrArg List.length hu
    rw [List.length_append] at this
    omega
  have hdrop : s.drop (s.length - (redisClass s).2.length) = (redisClass s).2 := by
    rw [hlen]
    conv_lhs => rw [← hu]
    exact List.drop_left
  rw [redisFrom, if_neg (by decide), if_neg (by decide), if_pos rfl, redisFrom_drop, hdrop]

/-- Whether a byte has no meaning of its own outside a class. -/
def Plain (b : UInt8) : Prop := b ≠ 42 ∧ b ≠ 63 ∧ b ≠ 91 ∧ b ≠ 92

theorem redis_plain {u : Bytes} (h : ∀ b ∈ u, Plain b) (s : Bytes) : redisFrom 0 (u ++ s) = u.map byte ++ redisFrom 0 s := by
  induction u with
  | nil => rfl
  | cons b u ih =>
    obtain ⟨h₁, h₂, h₃, h₄⟩ := h b List.mem_cons_self
    rw [List.cons_append, redisFrom, if_neg h₁, if_neg h₂, if_neg h₃, if_neg h₄,
      ih fun b' hb' => h b' (List.mem_cons_of_mem _ hb')]
    rfl

theorem plain_of_high {b : UInt8} (h : 128 ≤ b) : Plain b := by
  refine ⟨?_, ?_, ?_, ?_⟩ <;> rintro rfl <;> exact absurd h (by decide)

theorem encodePoint_plain {c : Nat} (h₁ : c ≠ 42) (h₂ : c ≠ 63) (h₃ : c ≠ 91) (h₄ : c ≠ 92) : ∀ b ∈ encodePoint c, Plain b := by
  intro b hb
  by_cases hc : c < 128
  · rw [encodePoint_ascii hc, List.mem_singleton] at hb
    have hne {n : Nat} (hn : n < 128) (hcn : c ≠ n) : b ≠ UInt8.ofNat n := by
      rintro rfl
      have := congrArg UInt8.toNat hb
      rw [UInt8.toNat_ofNat', UInt8.toNat_ofNat'] at this
      omega
    exact ⟨hne (by decide) h₁, hne (by decide) h₂, hne (by decide) h₃, hne (by decide) h₄⟩
  · exact plain_of_high (encodePoint_high (Nat.not_lt.1 hc) b hb)

/-- Outside a class redis reads a code point as `fnmatch` does, unless it is a backslash. -/
theorem redis_point {c : Nat} (h₁ : c ≠ 91) (h₂ : c ≠ 92) (s : Bytes) :
    redisFrom 0 (encodePoint c ++ s) = pointTokens c ++ redisFrom 0 s := by
  unfold pointTokens
  split_ifs with hstar hany
  · rw [hstar]
    rfl
  · rw [hany]
    rfl
  · exact redis_plain (encodePoint_plain hstar hany h₁ h₂) s

/-- Behind a backslash a whole code point is literal: only the first byte of it could mean anything else. -/
theorem redis_escape (c : Nat) (s : Bytes) :
    redisFrom 0 (92 :: (encodePoint c ++ s)) = (encodePoint c).map byte ++ redisFrom 0 s := by
  cases hpoint : encodePoint c with
  | nil => exact absurd hpoint (encodePoint_ne_nil c)
  | cons b u =>
    have hplain : ∀ b' ∈ u, Plain b' := by
      by_cases hc : c < 128
      · rw [encodePoint_ascii hc] at hpoint
        obtain ⟨-, rfl⟩ := List.cons.inj hpoint
        exact fun _ h => absurd h List.not_mem_nil
      · intro b' hb'
        exact plain_of_high (encodePoint_high (Nat.not_lt.1 hc) b' (hpoint ▸ List.mem_cons_of_mem _ hb'))
    rw [redisFrom, if_neg (by decide), if_neg (by decide), if_neg (by decide), if_pos rfl]
    change byte b :: redisFrom 0 (u ++ s) = _
    rw [redis_plain hplain]
    rfl

end Kagni.Glob
