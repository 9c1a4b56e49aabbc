import Mathlib.Tactic.Common
import Mathlib.Data.List.Forall2

/-!
# Incremental parsing

A parser of one frame at the front of a buffer says one of three things: a value and the number of symbols it took, that it needs
more, or an error. It is stable when what it says about a prefix, unless it asks for more, it says about every extension. For a
stable parser the frames of a stream do not depend on how the stream is cut: `scan` reads every frame it can, and `feedAll` does
so chunk by chunk, keeping what is left in a buffer. The one thing that depends on the cut is what a reader that raises has
already returned, and `returned_iff` says exactly when that is everything before the bad frame.
-/

namespace Lib

/-- A parser of one frame: `ok none` asks for more. -/
abbrev FrameParser (β α ε : Type) := List β → Except ε (Option (α × Nat))

/-- What a parser says about a prefix it says about every extension, and a frame takes at least one symbol. -/
structure FrameParser.Stable {β α ε : Type} (parse : FrameParser β α ε) : Prop where
  value : ∀ {b r}, parse b = .ok (some r) → ∀ c, parse (b ++ c) = .ok (some r)
  error : ∀ {b e}, parse b = .error e → ∀ c, parse (b ++ c) = .error e
  size : ∀ {b v n}, parse b = .ok (some (v, n)) → 0 < n ∧ n ≤ b.length

namespace FrameParser

variable {β α ε : Type} (parse : FrameParser β α ε)

/-- At most `fuel` frames from the front: the values, what is left, and the error the parser stopped at, if it did. -/
def scanFuel : Nat → List β → List α × List β × Option ε
  | 0, b => ([], b, none)
  | fuel + 1, b =>
    match parse b with
    | .error e => ([], b, some e)
    | .ok none => ([], b, none)
    | .ok (some (v, n)) => (v :: (scanFuel fuel (b.drop n)).1, (scanFuel fuel (b.drop n)).2)

/-- Every frame at the front of `b`. -/
def scan (b : List β) : List α × List β × Option ε := scanFuel parse (b.length + 1) b

/-- Feed one chunk to a reader that holds `buffer`: it returns every frame it can read, or raises and returns none. More than
`cap` symbols in the buffer are refused with `tooLarge`. -/
def feed (cap : Nat) (tooLarge : ε) (buffer chunk : List β) : Except ε (List α) × List β :=
  if cap < (buffer ++ chunk).length then (.error tooLarge, buffer ++ chunk)
  else match scan parse (buffer ++ chunk) with
    | (vs, rest, none) => (.ok vs, rest)
    | (_, rest, some e) => (.error e, rest)

/-- The calls of `feed` on the chunks of a stream, until one raises: what each call returned, what the last one raised, and the
buffer. -/
def feedAll (cap : Nat) (tooLarge : ε) : List β → List (List β) → List (List α) × Option ε × List β
  | buffer, [] => ([], none, buffer)
  | buffer, c :: cs =>
    match feed parse cap tooLarge buffer c with
    | (.ok vs, rest) => (vs :: (feedAll cap tooLarge rest cs).1, (feedAll cap tooLarge rest cs).2)
    | (.error e, rest) => ([], some e, rest)

/-- The frames `ms`, read one by one, are the values `vs`. -/
def Frames (ms : List (List β)) (vs : List α) : Prop :=
  List.Forall₂ (fun m v => parse m = .ok (some (v, m.length))) ms vs

/-- How many symbols of an unfinished frame a reader holds after the first `n` symbols of the frames `ms`. -/
def pending : List (List β) → Nat → Nat
  | [], n => n
  | m :: ms, n => if m.length ≤ n then pending ms (n - m.length) else n

variable {parse} (hp : parse.Stable)
include hp

theorem scanFuel_eq_scan {b : List β} {fuel : Nat} (h : b.length < fuel) : scanFuel parse fuel b = scan parse b := by
  unfold scan
  induction hb : b.length using Nat.strongRecOn generalizing b fuel with
  | _ n ih =>
    subst hb
    obtain ⟨fuel, rfl⟩ := Nat.exists_eq_add_of_lt h
    simp only [scanFuel]
    split
    · rfl
    · rfl
    · rename_i v k hv
      obtain ⟨hk, hk'⟩ := hp.size hv
      have hlt : (b.drop k).length < b.length := by simp; omega
      rw [ih _ hlt (b := b.drop k) (by omega) rfl, ih _ hlt (show (b.drop k).length < b.length from hlt) rfl]

omit hp in
theorem scan_error {b : List β} {e : ε} (h : parse b = .error e) : scan parse b = ([], b, some e) := by
  simp [scan, scanFuel, h]

omit hp in
theorem scan_none {b : List β} (h : parse b = .ok none) : scan parse b = ([], b, none) := by
  simp [scan, scanFuel, h]

theorem scan_some {b : List β} {v : α} {n : Nat} (h : parse b = .ok (some (v, n))) :
    scan parse b = (v :: (scan parse (b.drop n)).1, (scan parse (b.drop n)).2) := by
  obtain ⟨hk, hk'⟩ := hp.size h
  rw [scan, scanFuel, h]
  simp only
  rw [scanFuel_eq_scan hp (b := b.drop n) (by simp; omega)]

/-- Where the scan stops, the parser asks for more or raises the error the scan reports. -/
theorem parse_rest (b : List β) :
    parse (scan parse b).2.1 = match (scan parse b).2.2 with
      | none => .ok none
      | some e => .error e := by
  induction hb : b.length using Nat.strongRecOn generalizing b with
  | _ n ih =>
    subst hb
    cases h : parse b with
    | error e => simp [scan_error h, h]
    | ok o =>
      cases o with
      | none => simp [scan_none h, h]
      | some r =>
        obtain ⟨v, n⟩ := r
        obtain ⟨hk, hk'⟩ := hp.size h
        rw [scan_some hp h]
        exact ih _ (by simp; omega) (b.drop n) rfl

/-- Scanning a longer stream: the frames of the prefix, then those of what was left of it and the extension. -/
theorem scan_append {b : List β} (c : List β) (h : (scan parse b).2.2 = none) :
    scan parse (b ++ c) = ((scan parse b).1 ++ (scan parse ((scan parse b).2.1 ++ c)).1,
      (scan parse ((scan parse b).2.1 ++ c)).2) := by
  induction hb : b.length using Nat.strongRecOn generalizing b with
  | _ n ih =>
    subst hb
    cases hv : parse b with
    | error e => simp [scan_error hv] at h
    | ok o =>
      cases o with
      | none => simp [scan_none hv]
      | some r =>
        obtain ⟨v, n⟩ := r
        obtain ⟨hk, hk'⟩ := hp.size hv
        rw [scan_some hp hv] at h ⊢
        rw [scan_some hp (hp.value hv c), List.drop_append_of_le_length hk', ih _ (by simp; omega) h rfl]
        simp

/-- An error of the prefix is the error of the stream, after the same frames. -/
theorem scan_append_error {b : List β} (c : List β) {e : ε} (h : (scan parse b).2.2 = some e) :
    (scan parse (b ++ c)).1 = (scan parse b).1 ∧ (scan parse (b ++ c)).2.2 = some e := by
  induction hb : b.length using Nat.strongRecOn generalizing b with
  | _ n ih =>
    subst hb
    cases hv : parse b with
    | error e' =>
      rw [scan_error hv] at h ⊢
      rw [scan_error (hp.error hv c)]
      exact ⟨rfl, h⟩
    | ok o =>
      cases o with
      | none => simp [scan_none hv] at h
      | some r =>
        obtain ⟨v, n⟩ := r
        obtain ⟨hk, hk'⟩ := hp.size hv
        rw [scan_some hp hv] at h ⊢
        rw [scan_some hp (hp.value hv c), List.drop_append_of_le_length hk']
        obtain ⟨h1, h2⟩ := ih _ (by simp; omega) h rfl
        exact ⟨by rw [h1], h2⟩

omit hp in
theorem feed_of_le {cap : Nat} {tooLarge : ε} {buffer chunk : List β} (h : (buffer ++ chunk).length ≤ cap) :
    feed parse cap tooLarge buffer chunk = match scan parse (buffer ++ chunk) with
      | (vs, rest, none) => (.ok vs, rest)
      | (_, rest, some e) => (.error e, rest) := by
  rw [feed, if_neg (by omega)]

omit hp in
theorem length_scanFuel_le (fuel : Nat) (b : List β) : (scanFuel parse fuel b).2.1.length ≤ b.length := by
  induction fuel generalizing b with
  | zero => simp [scanFuel]
  | succ fuel ih =>
    simp only [scanFuel]
    split
    · simp
    · simp
    · exact Nat.le_trans (ih _) (by simp)

/-- Fragmentation does not change the frames: a reader fed chunk by chunk raises exactly when the whole stream holds an error, and
otherwise returns its frames and keeps what is left of it. -/
theorem feedAll_eq (cap : Nat) (tooLarge : ε) (buffer : List β) (cs : List (List β)) (hb : parse buffer = .ok none)
    (hc : (buffer ++ cs.flatten).length ≤ cap) :
    (feedAll parse cap tooLarge buffer cs).2.1 = (scan parse (buffer ++ cs.flatten)).2.2 ∧
      ((scan parse (buffer ++ cs.flatten)).2.2 = none →
        (feedAll parse cap tooLarge buffer cs).1.flatten = (scan parse (buffer ++ cs.flatten)).1 ∧
          (feedAll parse cap tooLarge buffer cs).2.2 = (scan parse (buffer ++ cs.flatten)).2.1) := by
  induction cs generalizing buffer with
  | nil => simp [feedAll, scan_none hb]
  | cons c cs ih =>
    rw [List.flatten_cons, ← List.append_assoc] at hc ⊢
    have hle : (buffer ++ c).length ≤ cap := by simp only [List.length_append] at hc ⊢; omega
    rw [feedAll, feed_of_le hle]
    have hlen : (scanFuel parse ((buffer ++ c).length + 1) (buffer ++ c)).2.1.length ≤ (buffer ++ c).length :=
      length_scanFuel_le _ _
    have hrest := parse_rest hp (buffer ++ c)
    have happ := scan_append hp (b := buffer ++ c) cs.flatten
    have herr := fun e => scan_append_error hp (b := buffer ++ c) cs.flatten (e := e)
    change (scan parse (buffer ++ c)).2.1.length ≤ _ at hlen
    revert hlen hrest happ herr
    obtain ⟨vs, rest, err⟩ := scan parse (buffer ++ c)
    cases err with
    | none =>
      intro hrest happ _ hlen
      have hrest : parse rest = .ok none := hrest
      obtain ⟨h1, h2⟩ := ih rest hrest (by simp only [List.length_append] at hc hlen ⊢; omega)
      rw [happ rfl]
      refine ⟨h1, fun hn => ?_⟩
      obtain ⟨h3, h4⟩ := h2 hn
      exact ⟨by simp [h3], h4⟩
    | some e =>
      intro _ _ herr _
      obtain ⟨-, h2⟩ := herr e rfl
      exact ⟨h2.symm, fun hn => by rw [h2] at hn; cases hn⟩

/-- What a scan of a prefix `x` of the stream `ms ++ bad` finds: some of the frames and the start of the next one, or all of them
and the error of the bad frame. -/
theorem scan_prefix {ms : List (List β)} {vs : List α} {bad x w : List β} {e : ε} (hf : Frames parse ms vs)
    (hbad : parse bad = .error e) (h : x ++ w = ms.flatten ++ bad) :
    (∃ ms₁ ms₂ vs₁ vs₂ rest, ms = ms₁ ++ ms₂ ∧ vs = vs₁ ++ vs₂ ∧ Frames parse ms₂ vs₂ ∧
      scan parse x = (vs₁, rest, none) ∧ parse rest = .ok none ∧ x = ms₁.flatten ++ rest ∧
      rest ++ w = ms₂.flatten ++ bad) ∨
    (∃ rest e', scan parse x = (vs, rest, some e') ∧ parse rest = .error e' ∧ x = ms.flatten ++ rest) := by
  induction hf generalizing x with
  | nil =>
    rw [List.flatten_nil, List.nil_append] at h
    cases hx : parse x with
    | error e' => exact .inr ⟨x, e', scan_error hx, hx, rfl⟩
    | ok o =>
      cases o with
      | none => exact .inl ⟨[], [], [], [], x, rfl, rfl, .nil, scan_none hx, hx, rfl, h⟩
      | some r =>
        have := hp.value hx w
        rw [h, hbad] at this
        cases this
  | @cons m v ms vs hm hf ih =>
    rw [List.flatten_cons, List.append_assoc] at h
    by_cases hle : m.length ≤ x.length
    · obtain ⟨x', rfl⟩ : ∃ x', x = m ++ x' := by
        have hpre : m <+: x := List.prefix_of_prefix_length_le (List.prefix_append m _)
          (h ▸ List.prefix_append x w) hle
        exact ⟨_, (List.prefix_iff_eq_append.1 hpre).symm⟩
      rw [List.append_assoc, List.append_cancel_left_eq] at h
      have hs : scan parse (m ++ x') = (v :: (scan parse x').1, (scan parse x').2) := by
        rw [scan_some hp (hp.value hm x'), List.drop_left]
      rcases ih h with ⟨ms₁, ms₂, vs₁, vs₂, rest, h1, h2, h3, h4, h5, h6, h7⟩ | ⟨rest, e', h1, h2, h3⟩
      · refine .inl ⟨m :: ms₁, ms₂, v :: vs₁, vs₂, rest, by rw [h1]; rfl, by rw [h2]; rfl, h3, ?_, h5, ?_, h7⟩
        · rw [hs, h4]
        · rw [h6, List.flatten_cons, List.append_assoc]
      · refine .inr ⟨rest, e', by rw [hs, h1], h2, ?_⟩
        rw [h3, List.flatten_cons, List.append_assoc]
    · obtain ⟨y, rfl⟩ : ∃ y, m = x ++ y := by
        have hpre : x <+: m := List.prefix_of_prefix_length_le (h ▸ List.prefix_append x w)
          (List.prefix_append m _) (by omega)
        exact ⟨_, (List.prefix_iff_eq_append.1 hpre).symm⟩
      have hx : parse x = .ok none := by
        cases hx : parse x with
        | error e' =>
          rw [hp.error hx y] at hm
          cases hm
        | ok o =>
          cases o with
          | none => rfl
          | some r =>
            obtain ⟨v', n⟩ := r
            have hsz := hp.size hx
            rw [hp.value hx y] at hm
            simp only [Except.ok.injEq, Option.some.injEq, Prod.mk.injEq, List.length_append] at hm hle
            omega
      refine .inl ⟨[], (x ++ y) :: ms, [], v :: vs, x, rfl, rfl, .cons hm hf, scan_none hx, hx, rfl, ?_⟩
      rw [h, List.flatten_cons, List.append_assoc (x ++ y)]

omit hp in
theorem pending_append (ms₁ ms₂ : List (List β)) (n : Nat) :
    pending (ms₁ ++ ms₂) (ms₁.flatten.length + n) = pending ms₂ n := by
  induction ms₁ with
  | nil => simp
  | cons m ms₁ ih =>
    have : m.length ≤ (m :: ms₁).flatten.length + n := by simp; omega
    rw [List.cons_append, pending, if_pos this, ← ih]
    congr 1
    simp only [List.flatten_cons, List.length_append]
    omega

omit hp in
theorem pending_le (ms : List (List β)) (n : Nat) : pending ms n ≤ n := by
  induction ms generalizing n with
  | nil => exact Nat.le_refl _
  | cons m ms ih =>
    rw [pending]
    split
    · exact Nat.le_trans (ih _) (Nat.sub_le ..)
    · exact Nat.le_refl _

/-- While the parser asks for more, what it was given is the start of the first frame. -/
theorem pending_of_parse_none {ms : List (List β)} {vs : List α} {bad b w : List β} (hf : Frames parse ms vs)
    (hb : parse b = .ok none) (h : b ++ w = ms.flatten ++ bad) : pending ms b.length = b.length ∧
      (ms.flatten.length ≤ b.length → ms = []) := by
  cases hf with
  | nil => exact ⟨rfl, fun _ => rfl⟩
  | @cons m v ms vs hm hf =>
    have hlt : b.length < m.length := by
      by_contra hle
      rw [List.flatten_cons, List.append_assoc] at h
      have hpre : m <+: b := List.prefix_of_prefix_length_le (List.prefix_append m _)
        (h ▸ List.prefix_append b w) (by omega)
      rw [← List.prefix_iff_eq_append.1 hpre, hp.value hm] at hb
      cases hb
    exact ⟨by rw [pending, if_neg (by omega)], fun hle => by simp at hle; omega⟩

/-- A scan of frames finds them and leaves nothing. -/
theorem scan_frames {ms : List (List β)} {vs : List α} (hf : Frames parse ms vs) (hnil : parse [] = .ok none) :
    scan parse ms.flatten = (vs, [], none) := by
  induction hf with
  | nil => exact scan_none hnil
  | cons hm _ ih => rw [List.flatten_cons, scan_some hp (hp.value hm _), List.drop_left, ih]

/-- Reading chunk by chunk the frames `ms` and then a bad frame, a reader has returned the values of all of them when it raises if
and only if some chunk ends at or after the last frame, the bad frame has not shown its error by then, and no chunk up to there
has filled the buffer past its cap. -/
theorem returned_iff (buffer : List β) {cap : Nat} {tooLarge : ε} {ms : List (List β)} {vs : List α} {bad : List β} {e : ε}
    {cs : List (List β)} (hf : Frames parse ms vs) (hbad : parse bad = .error e) (hb : parse buffer = .ok none)
    (h : buffer ++ cs.flatten = ms.flatten ++ bad) :
    (feedAll parse cap tooLarge buffer cs).1.flatten = vs ↔
      ∃ pre post, cs = pre ++ post ∧ ms.flatten.length ≤ (buffer ++ pre.flatten).length ∧
        parse ((buffer ++ pre.flatten).drop ms.flatten.length) = .ok none ∧
        ∀ a c b, pre = a ++ c :: b → pending ms (buffer ++ a.flatten).length + c.length ≤ cap := by
  have start : ∀ {ms : List (List β)} {vs : List α} {buffer w : List β}, Frames parse ms vs → parse buffer = .ok none →
      buffer ++ w = ms.flatten ++ bad → vs = [] → ms.flatten.length ≤ (buffer ++ [].flatten).length ∧
        parse ((buffer ++ [].flatten).drop ms.flatten.length) = .ok none := by
    intro ms vs buffer w hf hb _ hvs
    subst hvs
    cases hf
    simpa using hb
  induction cs generalizing buffer ms vs with
  | nil =>
    -- the whole stream asks for more, although it ends in an error
    exfalso
    rw [List.flatten_nil, List.append_nil] at h
    subst h
    cases hf with
    | nil =>
      rw [List.flatten_nil, List.nil_append, hbad] at hb
      cases hb
    | cons hm hf =>
      rw [List.flatten_cons, List.append_assoc, hp.value hm] at hb
      cases hb
  | cons c cs ih =>
    obtain ⟨hpend, hnil⟩ := pending_of_parse_none hp hf hb h
    rw [List.flatten_cons, ← List.append_assoc] at h
    -- a reader that raises at once has returned everything only when there was nothing to return
    have raised : ∀ (p : Prop), (p → ms ≠ [] → False) → (([] : List (List α)).flatten = vs ↔ ms = [] ∨ p) := by
      intro p hp'
      cases hf with
      | nil => simp
      | cons hm hf => simpa using hp'
    by_cases hcap : cap < (buffer ++ c).length
    · rw [feedAll, feed, if_pos hcap]
      refine (raised _ ?_).trans ⟨fun hor => hor.elim (fun hms => ?_) id, fun hex => .inr hex⟩
      · rintro ⟨pre, post, hcs, hle, -, hfit⟩ hne
        cases pre with
        | nil => exact hne (hnil (by simpa using hle))
        | cons d pre =>
          obtain ⟨rfl, -⟩ := List.cons.inj hcs
          have := hfit [] c pre rfl
          simp only [List.flatten_nil, List.append_nil, hpend, List.length_append] at this hcap
          omega
      · subst hms
        cases hf
        exact ⟨[], c :: cs, rfl, by simp, by simpa using hb, fun a c' b hab => by simp at hab⟩
    · rw [feedAll, feed_of_le (by omega)]
      rcases scan_prefix hp hf hbad h with
        ⟨ms₁, ms₂, vs₁, vs₂, rest, rfl, rfl, hf₂, hscan, hrest, hx, hw⟩ | ⟨rest, e', hscan, hrest, hx⟩
      · rw [hscan]
        simp only [List.flatten_cons, List.append_cancel_left_eq]
        refine (ih rest hf₂ hrest hw).trans ?_
        have hlen : (buffer ++ c).length = ms₁.flatten.length + rest.length := by rw [hx, List.length_append]
        constructor
        · rintro ⟨pre, post, rfl, hle, hpar, hfit⟩
          refine ⟨c :: pre, post, rfl, ?_, ?_, ?_⟩
          · rw [List.flatten_cons, ← List.append_assoc, hx]
            simp only [List.flatten_append, List.length_append] at hle ⊢
            omega
          · rw [List.flatten_cons, ← List.append_assoc, hx, List.flatten_append, List.length_append, List.append_assoc,
              ← List.drop_drop, List.drop_left]
            exact hpar
          · intro a d b hab
            cases a with
            | nil =>
              obtain ⟨rfl, -⟩ := List.cons.inj hab
              simp only [List.flatten_nil, List.append_nil, hpend]
              simp only [List.length_append] at hcap
              omega
            | cons d' a =>
              obtain ⟨rfl, hab'⟩ := List.cons.inj hab
              have := hfit a d b hab'
              rw [List.flatten_cons, ← List.append_assoc, hx, List.append_assoc, @List.length_append _ ms₁.flatten,
                pending_append]
              exact this
        · rintro ⟨pre, post, hcs, hle, hpar, hfit⟩
          cases pre with
          | nil =>
            have hms := hnil (by simpa using hle)
            obtain ⟨rfl, rfl⟩ := List.append_eq_nil_iff.1 hms
            cases hf₂
            exact ⟨[], cs, rfl, by simp, by simpa using hrest, fun a c' b hab => by simp at hab⟩
          | cons d pre =>
            obtain ⟨rfl, rfl⟩ := List.cons.inj hcs
            refine ⟨pre, post, rfl, ?_, ?_, ?_⟩
            · rw [List.flatten_cons, ← List.append_assoc, hx] at hle
              simp only [List.flatten_append, List.length_append] at hle ⊢
              omega
            · rw [List.flatten_cons, ← List.append_assoc, hx, List.flatten_append, List.length_append, List.append_assoc,
                ← List.drop_drop, List.drop_left] at hpar
              exact hpar
            · intro a d b hab
              have := hfit (c :: a) d b (by rw [hab]; rfl)
              rw [List.flatten_cons, ← List.append_assoc, hx, List.append_assoc, @List.length_append _ ms₁.flatten,
                pending_append] at this
              exact this
      · rw [hscan]
        refine (raised _ ?_).trans ⟨fun hor => hor.elim (fun hms => ?_) id, fun hex => .inr hex⟩
        · rintro ⟨pre, post, hcs, hle, hpar, -⟩ hne
          cases pre with
          | nil => exact hne (hnil (by simpa using hle))
          | cons d pre =>
            obtain ⟨rfl, -⟩ := List.cons.inj hcs
            rw [List.flatten_cons, ← List.append_assoc, hx, List.append_assoc, List.drop_left, hp.error hrest] at hpar
            cases hpar
        · subst hms
          cases hf
          exact ⟨[], c :: cs, rfl, by simp, by simpa using hb, fun a c' b hab => by simp at hab⟩

/-- What a scan takes from the front are frames, when the parser looks no further than the frame it returns. -/
theorem frames_scan (hlocal : ∀ {b v n}, parse b = .ok (some (v, n)) → parse (b.take n) = .ok (some (v, n))) (b : List β) :
    ∃ ms, Frames parse ms (scan parse b).1 ∧ b = ms.flatten ++ (scan parse b).2.1 := by
  induction hb : b.length using Nat.strongRecOn generalizing b with
  | _ n ih =>
    subst hb
    cases h : parse b with
    | error e =>
      rw [scan_error h]
      exact ⟨[], .nil, rfl⟩
    | ok o =>
      cases o with
      | none =>
        rw [scan_none h]
        exact ⟨[], .nil, rfl⟩
      | some r =>
        obtain ⟨v, n⟩ := r
        obtain ⟨hk, hk'⟩ := hp.size h
        obtain ⟨ms, hms, hsplit⟩ := ih _ (by simp; omega) (b.drop n) rfl
        rw [scan_some hp h]
        refine ⟨b.take n :: ms, .cons ?_ hms, ?_⟩
        · rw [List.length_take, Nat.min_eq_left hk']
          exact hlocal h
        · rw [List.flatten_cons, List.append_assoc, ← hsplit, List.take_append_drop]

/-- A reader raises the error `e` of its parser if and only if some of the chunks hold frames and then a frame with that
error, and no chunk up to there has filled the buffer past its cap. -/
theorem raises_iff (hlocal : ∀ {b v n}, parse b = .ok (some (v, n)) → parse (b.take n) = .ok (some (v, n)))
    (buffer : List β) {cap : Nat}
    {tooLarge e : ε} (he : e ≠ tooLarge) {cs : List (List β)} (hb : parse buffer = .ok none) :
    (feedAll parse cap tooLarge buffer cs).2.1 = some e ↔
      ∃ pre post ms vs bad, cs = pre ++ post ∧ buffer ++ pre.flatten = ms.flatten ++ bad ∧ Frames parse ms vs ∧
        parse bad = .error e ∧
        ∀ a c b, pre = a ++ c :: b → pending ms (buffer ++ a.flatten).length + c.length ≤ cap := by
  -- an incomplete frame is no stream of frames and a bad one
  have hquiet : ∀ {b ms vs bad}, parse b = .ok none → b = ms.flatten ++ bad → Frames parse ms vs →
      parse bad = .error e → False := by
    rintro b ms vs bad hb rfl hf hbad
    cases hf with
    | nil =>
      rw [List.flatten_nil, List.nil_append, hbad] at hb
      cases hb
    | cons hm _ =>
      rw [List.flatten_cons, List.append_assoc, hp.value hm] at hb
      cases hb
  induction cs generalizing buffer with
  | nil =>
    refine ⟨nofun, ?_⟩
    rintro ⟨pre, post, ms, vs, bad, hcs, hsplit, hf, hbad, -⟩
    obtain ⟨rfl, -⟩ := List.append_eq_nil_iff.1 hcs.symm
    rw [List.flatten_nil, List.append_nil] at hsplit
    exact (hquiet hb hsplit hf hbad).elim
  | cons c cs ih =>
    by_cases hcap : cap < (buffer ++ c).length
    · rw [feedAll, feed, if_pos hcap]
      refine ⟨fun h => absurd (Option.some.inj h).symm he, ?_⟩
      rintro ⟨pre, post, ms, vs, bad, hcs, hsplit, hf, hbad, hfit⟩
      cases pre with
      | nil =>
        rw [List.flatten_nil, List.append_nil] at hsplit
        exact (hquiet hb hsplit hf hbad).elim
      | cons d pre =>
        obtain ⟨rfl, -⟩ := List.cons.inj hcs
        have hle := hfit [] c pre rfl
        rw [List.flatten_nil, List.append_nil, (pending_of_parse_none hp hf hb hsplit).1] at hle
        rw [List.length_append] at hcap
        omega
    · rw [feedAll, feed_of_le (by omega)]
      have hrest := parse_rest hp (buffer ++ c)
      obtain ⟨ms₁, hf₁, hx⟩ := frames_scan hp hlocal (buffer ++ c)
      generalize hscan : scan parse (buffer ++ c) = found at hrest hf₁ hx
      obtain ⟨vs₁, rest, err⟩ := found
      dsimp only at hrest hf₁ hx
      have hlen : (buffer ++ c).length = ms₁.flatten.length + rest.length := by rw [hx, List.length_append]
      have hpend : pending ms₁ buffer.length ≤ buffer.length := pending_le ms₁ _
      rw [List.length_append] at hcap
      constructor
      · intro h
        cases err with
        | some e' =>
          obtain rfl := Option.some.inj h
          refine ⟨[c], cs, ms₁, vs₁, rest, rfl, by simpa using hx, hf₁, hrest, fun a d b hab => ?_⟩
          obtain ⟨rfl, hone⟩ | ⟨a', rfl, hone⟩ := List.cons_eq_append_iff.1 hab
          · obtain ⟨rfl, -⟩ := List.cons.inj hone
            rw [List.flatten_nil, List.append_nil]
            omega
          · simp at hone
        | none =>
          obtain ⟨pre, post, ms, vs, bad, rfl, hsplit, hf, hbad, hfit⟩ := (ih rest hrest).1 h
          refine ⟨c :: pre, post, ms₁ ++ ms, vs₁ ++ vs, bad, rfl, ?_, List.rel_append hf₁ hf, hbad, fun a d b hab => ?_⟩
          · rw [List.flatten_cons, ← List.append_assoc, hx, List.append_assoc, hsplit, List.flatten_append, List.append_assoc]
          · obtain ⟨rfl, hone⟩ | ⟨a', rfl, hlater⟩ := List.cons_eq_append_iff.1 hab
            · obtain ⟨rfl, -⟩ := List.cons.inj hone
              have := pending_le (ms₁ ++ ms) buffer.length
              rw [List.flatten_nil, List.append_nil]
              omega
            · rw [List.flatten_cons, ← List.append_assoc, hx, List.append_assoc, @List.length_append _ ms₁.flatten,
                pending_append]
              exact hfit _ _ _ hlater
      · rintro ⟨pre, post, ms, vs, bad, hcs, hsplit, hf, hbad, hfit⟩
        cases pre with
        | nil =>
          rw [List.flatten_nil, List.append_nil] at hsplit
          exact (hquiet hb hsplit hf hbad).elim
        | cons d pre =>
          obtain ⟨rfl, rfl⟩ := List.cons.inj hcs
          rw [List.flatten_cons, ← List.append_assoc] at hsplit
          rcases scan_prefix hp hf hbad hsplit with ⟨ms₁', ms₂, vs₁', vs₂, rest', rfl, rfl, hf₂, hscan', hrest', hx', hw⟩
            | ⟨rest', e', hscan', hrest', hx'⟩
          · rw [hscan] at hscan'
            cases hscan'
            refine (ih rest hrest').2 ⟨pre, post, ms₂, vs₂, bad, rfl, hw, hf₂, hbad, fun a d b hab => ?_⟩
            have := hfit (c :: a) d b (by rw [hab]; rfl)
            rw [List.flatten_cons, ← List.append_assoc, hx', List.append_assoc, @List.length_append _ ms₁'.flatten,
              pending_append] at this
            exact this
          · rw [hscan] at hscan'
            cases hscan'
            rw [hx', List.append_assoc, List.append_cancel_left_eq] at hsplit
            rw [← hsplit, hp.error hrest' _] at hbad
            exact congrArg some (Except.error.inj hbad)

end FrameParser

end Lib
