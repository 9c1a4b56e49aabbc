import Kagni.Lemmas.WireReader

/-!
# Boundary tracking

The engine knows where it stands by the bytes it has handed to the C reader and the canonical lengths of what it got back.
Their difference is the part of a value that the C reader holds, less what the canonical encodings of the values before it are
longer by. So the engine takes a part for a boundary exactly if the two are the same.
-/

namespace Kagni

open WireValue

variable {R : HiredisReader} {Unread : R.σ → Bytes → Prop}

/-! ## The loop over `gets` -/

/-- The engine has taken these values from the C reader, which holds `b` now. -/
def Took (Unread : R.σ → Bytes → Prop) (r r' : RESPReader R) (new : List WireValue) (b : Bytes) : Prop :=
  ∃ s, ∃ n : Nat, Unread s b ∧ (hasNullAll new = false → (n : Int) = (encodeAll new).length + excessAll new) ∧
    r' = { r with reader := s, consumed := r.consumed + n, boundary_unknown := r.boundary_unknown || hasNullAll new }

theorem Took.trans {r r₁ r₂ : RESPReader R} {new new' : List WireValue} {b b' : Bytes} (h : Took Unread r r₁ new b)
    (h' : Took Unread r₁ r₂ new' b') : Took Unread r r₂ (new ++ new') b' := by
  obtain ⟨s, n, -, hn, rfl⟩ := h
  obtain ⟨s', n', hs', hn', rfl⟩ := h'
  refine ⟨s', n + n', hs', fun hnull => ?_, ?_⟩
  · rw [hasNullAll_append, Bool.or_eq_false_iff] at hnull
    have hfirst := hn hnull.1
    have hsecond := hn' hnull.2
    rw [encodeAll_append, excessAll_append, List.length_append]
    omega
  · rw [hasNullAll_append]
    simp only [Nat.add_assoc, Bool.or_assoc]

/-- The loop stops in a part of a value. -/
theorem getsLoop_part (hR : R.Incremental Unread) {w : WireValue} {b z : Bytes} {fuel : Nat} {r r' : RESPReader R}
    {messages messages' : List Value} (hw : w.WellFormed) (hb : Unread r.reader b) (hz : b ++ z = w.encode) (hne : z ≠ [])
    (hloop : getsLoop (fuel + 1) r messages = (.ok messages', r')) : Took Unread r r' [] b := by
  rw [getsLoop] at hloop
  rcases hR.part hw hb hz hne with herror | ⟨s, hgets, hs⟩
  · cases hgets : R.gets r.reader with
    | mk out s =>
      rw [hgets] at hloop herror
      cases herror
      cases hloop
  · rw [hgets] at hloop
    cases hloop
    exact ⟨s, 0, hs, fun _ => rfl, by simp [hasNullAll]⟩

/-- It takes a value at the front. -/
theorem getsLoop_value (hR : R.Incremental Unread) {w : WireValue} {b : Bytes} {fuel : Nat} {r r' : RESPReader R}
    {messages messages' : List Value} (hw : w.WellFormed) (hb : Unread r.reader (w.encode ++ b))
    (hloop : getsLoop (fuel + 1) r messages = (.ok messages', r')) :
    ∃ r₁, Took Unread r r₁ [w] b ∧ getsLoop fuel r₁ (messages ++ [w.value]) = (.ok messages', r') := by
  rw [getsLoop] at hloop
  rcases hR.value hw hb with herror | ⟨s, hgets, hs⟩
  · cases hgets : R.gets r.reader with
    | mk out s =>
      rw [hgets] at hloop herror
      cases herror
      cases hloop
  · rw [hgets] at hloop
    have hnull : hasNullAll [w] = w.hasNull := Bool.or_false _
    rcases w._wire_length_value with ⟨hw', hnone⟩ | ⟨hw', n, hn, hlength⟩
    · simp only [hnone] at hloop
      exact ⟨_, ⟨s, 0, hs, fun h => absurd (hw'.symm.trans (hnull.symm.trans h))
        Bool.true_eq_false.mp, by rw [hnull, hw']; simp⟩, hloop⟩
    · simp only [hn] at hloop
      refine ⟨_, ⟨s, n, hs, fun _ => ?_, by rw [hnull, hw']; simp⟩, hloop⟩
      simp only [encodeAll, excessAll, List.append_nil]
      omega

/-- The loop takes the values at the front of what the C reader holds, and leaves a part of one. -/
theorem getsLoop_values (hR : R.Incremental Unread) {ws : List WireValue} {b tail : Bytes} {fuel : Nat} {r r' : RESPReader R}
    {messages messages' : List Value} (hwf : ∀ w ∈ ws, w.WellFormed) (hb : Unread r.reader b) (h : b ++ tail = encodeAll ws)
    (hfuel : b.length < fuel) (hloop : getsLoop fuel r messages = (.ok messages', r')) :
    ∃ new rest b', ws = new ++ rest ∧ b = encodeAll new ++ b' ∧ Part b' rest ∧ Took Unread r r' new b' := by
  induction ws generalizing b fuel r messages with
  | nil =>
    obtain ⟨rfl, rfl⟩ := List.append_eq_nil_iff.1 h
    obtain ⟨fuel, rfl⟩ := Nat.exists_eq_succ_of_ne_zero (Nat.ne_of_gt hfuel)
    exact ⟨[], [], [], rfl, rfl, .inl rfl, getsLoop_part hR .nullBulk hb rfl (by decide) hloop⟩
  | cons w ws ih =>
    obtain ⟨fuel, rfl⟩ := Nat.exists_eq_succ_of_ne_zero (Nat.ne_of_gt (Nat.zero_lt_of_lt hfuel))
    have hw := hwf w (List.mem_cons_self ..)
    rcases encode_prefix h with ⟨z, hne, hz⟩ | ⟨b', rfl, hb'⟩
    · exact ⟨[], w :: ws, b, rfl, rfl, .inr ⟨w, ws, z, rfl, hz, hne⟩, getsLoop_part hR hw hb hz hne hloop⟩
    · obtain ⟨r₁, htook, hloop₁⟩ := getsLoop_value hR hw hb hloop
      have hpos := w.length_encode_pos
      have hreader : Unread r₁.reader b' := by
        obtain ⟨s, n, hs, -, rfl⟩ := htook
        exact hs
      rw [List.length_append] at hfuel
      obtain ⟨new, rest, b'', rfl, rfl, hpart, htook'⟩ :=
        ih (fun w' hw' => hwf w' (List.mem_cons_of_mem _ hw')) hreader hb' (by omega) hloop₁
      refine ⟨w :: new, rest, b'', rfl, ?_, hpart, htook.trans htook'⟩
      rw [encodeAll, List.append_assoc]

/-! ## One call -/

/-- Behind these values the C reader holds a part `b` of the next one. The engine is engaged and the totals differ as they
should, or it is at a boundary, or it has given up for good. -/
structure Synced (Unread : R.σ → Bytes → Prop) (r : RESPReader R) (done : List WireValue) (b : Bytes) : Prop where
  unread : Unread r.reader b
  buffer : r.buffer = []
  bound : b.length ≤ r.fed
  unknown : r.boundary_unknown = hasNullAll done
  given : hasNullAll done = true → r.engaged = true
  totals : hasNullAll done = false → (r.fed : Int) - r.consumed = b.length - excessAll done
  boundary : r.engaged = false → b = []

theorem encodeAll_eq_nil {ws : List WireValue} (h : encodeAll ws = []) : ws = [] := by
  cases ws with
  | nil => rfl
  | cons w ws =>
    have hpos := w.length_encode_pos
    rw [encodeAll, List.append_eq_nil_iff] at h
    rw [h.1] at hpos
    cases hpos

/-- The engine hands on a chunk and takes values. -/
theorem Synced.took {r r₁ r₂ : RESPReader R} {done new : List WireValue} {b b' c : Bytes} {s : R.σ} (h : Synced Unread r done b)
    (hengaged : r.engaged = true ∨ c = []) (hr₁ : r₁ = { r with reader := s, fed := r.fed + c.length })
    (htook : Took Unread r₁ r₂ new b') (heq : b ++ c = encodeAll new ++ b') : Synced Unread r₂ (done ++ new) b' := by
  obtain ⟨s', n, hs', hn, rfl⟩ := htook
  subst hr₁
  have hlength := congrArg List.length heq
  rw [List.length_append, List.length_append] at hlength
  -- a reader at a boundary is given nothing here
  have hnothing : r.engaged = false → new = [] ∧ b' = [] := by
    intro hfalse
    have hc : c = [] := hengaged.resolve_left (by rw [hfalse]; exact Bool.false_ne_true)
    rw [h.boundary hfalse, hc, List.append_nil] at heq
    obtain ⟨hnew, hb'⟩ := List.append_eq_nil_iff.1 heq.symm
    exact ⟨encodeAll_eq_nil hnew, hb'⟩
  refine ⟨hs', h.buffer, ?_, ?_, fun hnull => ?_, fun hnull => ?_, fun hfalse => (hnothing hfalse).2⟩
  · have := h.bound
    dsimp only
    omega
  · dsimp only
    rw [hasNullAll_append, h.unknown]
  · cases hfalse : r.engaged with
    | true => rfl
    | false =>
      rw [(hnothing hfalse).1, List.append_nil] at hnull
      exact hfalse.symm.trans (h.given hnull)
  · rw [hasNullAll_append, Bool.or_eq_false_iff] at hnull
    have htotals := h.totals hnull.1
    have htaken := hn hnull.2
    rw [excessAll_append]
    dsimp only
    omega

/-- Where the totals do not coincide in the middle of a value the engine is right about the boundary. -/
theorem Synced.resume {r : RESPReader R} {done : List WireValue} {b : Bytes} (h : Synced Unread r done b)
    (hmisled : ¬MisledAt 0 done b) :
    Synced Unread (resume r) done b := by
  unfold Kagni.resume
  split_ifs with hresume
  · obtain ⟨-, hknown, -, hfed⟩ := hresume
    have hnull : hasNullAll done = false := by rw [← h.unknown]; exact eq_false_of_ne_true hknown
    have htotals := h.totals hnull
    have hb : b = [] := by
      by_contra hne
      exact hmisled ⟨hnull, hne, by omega⟩
    subst hb
    refine ⟨h.unread, h.buffer, le_refl 0, h.unknown, fun hnull' => ?_, fun _ => ?_, fun _ => rfl⟩
    · rw [hnull] at hnull'
      cases hnull'
    · rw [← htotals, hfed]
      dsimp only
      omega
  · exact h

/-- Where they do, it is wrong. -/
theorem Synced.misled {r : RESPReader R} {done : List WireValue} {b : Bytes} (h : Synced Unread r done b)
    (hmisled : MisledAt 0 done b) :
    (Kagni.resume r).engaged = false ∧ Unread (Kagni.resume r).reader b := by
  obtain ⟨hnull, hne, hlonger⟩ := hmisled
  have hengaged : r.engaged = true := by
    by_contra hfalse
    exact hne (h.boundary (eq_false_of_ne_true hfalse))
  have hknown : ¬r.boundary_unknown = true := by
    rw [h.unknown, hnull]
    exact Bool.false_ne_true
  have hpos := List.length_pos_iff.2 hne
  have hbound := h.bound
  have htotals := h.totals hnull
  rw [Kagni.resume, if_pos ⟨hengaged, hknown, by omega, by omega⟩]
  exact ⟨rfl, h.unread⟩

/-- What a call does with the bytes it hands to the C reader. -/
theorem engage_synced (hR : R.Incremental Unread) {done ws : List WireValue} {b c tail : Bytes} {r r' : RESPReader R}
    {messages messages' : List Value} (hwf : ∀ w ∈ ws, w.WellFormed) (h : Synced Unread r done b)
    (hengaged : r.engaged = true ∨ c = []) (heq : b ++ c ++ tail = encodeAll ws)
    (hout : engage r c messages = (.ok messages', r')) :
    ∃ new rest b' r₂, ws = new ++ rest ∧ b ++ c = encodeAll new ++ b' ∧ Part b' rest ∧ Synced Unread r₂ (done ++ new) b' ∧
      r' = resume r₂ := by
  obtain ⟨s, hs, hr₁⟩ : ∃ s, Unread s (b ++ c) ∧
      (if c = [] then r else { r with reader := R.feed r.reader c, fed := r.fed + c.length }) =
        { r with reader := s, fed := r.fed + c.length } := by
    split_ifs with hc
    · exact ⟨r.reader, by rw [hc, List.append_nil]; exact h.unread, by rw [hc]; rfl⟩
    · exact ⟨_, hR.feed h.unread c, rfl⟩
  rw [engage, hr₁] at hout
  split_ifs at hout with hlarge
  · cases hout
  · generalize hloop : getsLoop _ _ _ = out at hout
    obtain ⟨out, r₂⟩ := out
    cases out with
    | error e => cases hout
    | ok messages'' =>
      cases hout
      have hfuel : (b ++ c).length < r.fed + c.length + 1 := by
        have := h.bound
        rw [List.length_append]
        omega
      obtain ⟨new, rest, b', hws, hb', hpart, htook⟩ := getsLoop_values hR hwf hs heq hfuel hloop
      exact ⟨new, rest, b', r₂, hws, hb', hpart, h.took hengaged rfl htook hb', rfl⟩

/-- One call that returns. -/
theorem _feed_hiredis_synced (hR : R.Incremental Unread) {done ws : List WireValue} {b c tail : Bytes} {r r' : RESPReader R}
    {messages : List Value} (hwf : ∀ w ∈ ws, w.WellFormed) (h : Synced Unread r done b) (heq : b ++ c ++ tail = encodeAll ws)
    (hfeed : _feed_hiredis r c = (.ok messages, r')) :
    ∃ new rest b' r₂, ws = new ++ rest ∧ b ++ c = encodeAll new ++ b' ∧ Part b' rest ∧ Synced Unread r₂ (done ++ new) b' ∧
      r' = resume r₂ := by
  rw [_feed_hiredis] at hfeed
  by_cases hengaged : r.engaged = true
  · rw [if_neg fun hinline => hinline.1 hengaged] at hfeed
    exact engage_synced hR hwf h (.inl hengaged) heq hfeed
  · have hfalse := eq_false_of_ne_true hengaged
    have hknown : ¬r.boundary_unknown = true := by
      rw [h.unknown]
      exact fun hnull => hengaged (h.given hnull)
    have hb : b = [] := h.boundary hfalse
    subst hb
    rw [if_pos ⟨hengaged, hknown⟩, h.buffer, List.nil_append] at hfeed
    dsimp only at hfeed
    split_ifs at hfeed
    · cases hfeed
    · cases c with
      | nil =>
        have hsynced : Synced Unread { r with buffer := [] } done [] :=
          ⟨h.unread, rfl, h.bound, h.unknown, h.given, h.totals, fun _ => rfl⟩
        exact engage_synced hR hwf hsynced (.inr rfl) heq hfeed
      | cons d c =>
        -- the first byte of the chunk is a marker
        have hd : d ∈ _RESP_MARKERS := by
          cases ws with
          | nil => cases heq
          | cons w ws =>
            obtain ⟨d', b', hw, hd'⟩ := w.encode_eq_cons
            rw [encodeAll, hw] at heq
            exact (List.cons.inj heq).1 ▸ hd'
        have hsynced : Synced Unread { r with buffer := [], engaged := true } done [] :=
          ⟨h.unread, rfl, h.bound, h.unknown, fun _ => rfl, h.totals, fun _ => rfl⟩
        rw [inlineLoop, if_pos hd] at hfeed
        exact engage_synced hR hwf hsynced (.inl rfl) heq hfeed

/-! ## All calls -/

theorem forall_prefix_cons {α : Type} {P : List α → Prop} {x : α} {xs : List α} :
    (∀ pre, pre <+: x :: xs → P pre) ↔ P [] ∧ ∀ pre, pre <+: xs → P (x :: pre) := by
  constructor
  · exact fun h => ⟨h [] List.nil_prefix, fun pre hpre => h (x :: pre) ((List.prefix_cons_inj x).2 hpre)⟩
  · rintro ⟨hnil, hcons⟩ pre hpre
    rcases List.prefix_cons_iff.1 hpre with rfl | ⟨pre', rfl, hpre'⟩
    · exact hnil
    · exact hcons pre' hpre'

/-- From a call to the next, the engine is right about the boundaries exactly as long as it is not misled. -/
theorem boundariesExact_from (hR : R.Incremental Unread) {done rest : List WireValue} {b tail : Bytes} {cs : List Bytes}
    {r : RESPReader R}
    (hwf : ∀ w ∈ rest, w.WellFormed) (h : Synced Unread r done b) (hpart : Part b rest) (hnot : ¬MisledAt 0 done b)
    (heq : b ++ cs.flatten ++ tail = encodeAll rest) (hrun : (afterHiredis r cs).isSome = true) :
    BoundariesExact Unread r cs ↔ ∀ pre, pre <+: cs → ¬Misled 0 (done ++ rest) (encodeAll done ++ (b ++ pre.flatten)).length := by
  have hnow : ∀ r', afterHiredis r [] = some r' → r'.engaged = false → Unread r'.reader [] := by
    intro r' hr' hfalse
    cases hr'
    exact h.boundary hfalse ▸ h.unread
  have hnow' : ¬Misled 0 (done ++ rest) (encodeAll done ++ (b ++ [].flatten)).length := by
    rw [List.flatten_nil, List.append_nil, misled_iff 0 hpart]
    exact hnot
  induction cs generalizing done rest b r with
  | nil =>
    refine iff_of_true ?_ fun pre hpre => ?_
    · intro pre hpre
      rw [List.prefix_nil.1 hpre]
      exact hnow
    · rw [List.prefix_nil.1 hpre]
      exact hnow'
  | cons c cs ih =>
    unfold BoundariesExact
    rw [forall_prefix_cons, forall_prefix_cons, and_iff_right hnow, and_iff_right hnow']
    cases hfeed : _feed_hiredis r c with
    | mk out r₁ =>
      cases out with
      | error e =>
        rw [afterHiredis, hfeed] at hrun
        cases hrun
      | ok messages =>
        have hafter : ∀ pre, afterHiredis r (c :: pre) = afterHiredis r₁ pre := by
          intro pre
          rw [afterHiredis, hfeed]
        rw [hafter] at hrun
        simp only [hafter]
        have heq' : b ++ c ++ (cs.flatten ++ tail) = encodeAll rest := by
          rw [← heq, List.flatten_cons]
          simp only [List.append_assoc]
        obtain ⟨new, rest', b', r₂, rfl, hb', hpart', hs, rfl⟩ := _feed_hiredis_synced hR hwf h heq' hfeed
        rw [hb', encodeAll_append, List.append_assoc, List.append_cancel_left_eq, ← List.append_assoc] at heq'
        have hstream : ∀ pre : List Bytes, encodeAll done ++ (b ++ (c :: pre).flatten) = encodeAll (done ++ new) ++
            (b' ++ pre.flatten) := by
          intro pre
          rw [List.flatten_cons, ← List.append_assoc b, hb', encodeAll_append]
          simp only [List.append_assoc]
        simp only [hstream, ← List.append_assoc done]
        by_cases hmisled : MisledAt 0 (done ++ new) b'
        · obtain ⟨hfalse, hunread⟩ := hs.misled hmisled
          refine iff_of_false (fun hall => ?_) fun hall => ?_
          · exact hmisled.2.1 (hR.unique hunread (hall [] List.nil_prefix _ rfl hfalse))
          · refine hall [] List.nil_prefix ?_
            rw [List.flatten_nil, List.append_nil, misled_iff 0 hpart']
            exact hmisled
        · have hs' := hs.resume hmisled
          refine ih (fun w hw => hwf w (List.mem_append_right _ hw)) hs' hpart' hmisled heq' hrun (fun r' hr' hfalse => ?_) ?_
          · cases hr'
            exact hs'.boundary hfalse ▸ hs'.unread
          · rw [List.flatten_nil, List.append_nil, misled_iff 0 hpart']
            exact hmisled

/-- On calls that return, the engine is right about the boundaries exactly if no chunk ends where the totals coincide in the
middle of a value; and the measure it takes of a value is exact, or there is none, exactly if there is a null in it or its
canonical encoding is as long. -/
theorem boundaries_exact_iff (hR : R.Incremental Unread) {values : List WireValue} (hwf : ∀ w ∈ values, w.WellFormed)
    {cs : List Bytes}
    {tail : Bytes} (heq : cs.flatten ++ tail = encodeAll values) (hrun : (afterHiredis (RESPReader.init R) cs).isSome = true) :
    (BoundariesExact Unread (RESPReader.init R) cs ↔ ∀ pre, pre <+: cs → ¬Misled 0 values pre.flatten.length) ∧
      ∀ w : WireValue, (∀ n, _wire_length w.value = some n → n = w.encode.length) ↔ w.hasNull = true ∨ w.excess = 0 := by
  have hs : Synced Unread (RESPReader.init R) [] [] := ⟨hR.new, rfl, le_refl 0, rfl, nofun, fun _ => rfl, fun _ => rfl⟩
  exact ⟨boundariesExact_from hR hwf hs (.inl rfl) (fun h => h.2.1 rfl) heq hrun, fun w => w._wire_length_exact_iff⟩

/-- A simple string and a bulk string. -/
def okHello : List WireValue := [.simple (bs "OK"), .bulk (bs "5") (bs "hello")]

theorem okHello_wellFormed : ∀ w ∈ okHello, w.WellFormed := by
  have hsimple : WellFormed (.simple (bs "OK")) := .simple (by decide +kernel)
  have hdigits : ∀ c ∈ bs "5", isDigit c = true := by decide +kernel
  have hbulk : WellFormed (.bulk (bs "5") (bs "hello")) := .bulk (.plain (List.cons_ne_nil _ _) hdigits)
  exact List.forall_mem_cons.2 ⟨hsimple, List.forall_mem_singleton.2 hbulk⟩

/-- They come in two chunks. -/
theorem boundaries_exact_iff_okHello :
    (BoundariesExact (fun s b => s = some b) (RESPReader.init wireReader) [bs "+OK\r\n$5\r\nhe", bs "llo\r\n"] ↔
      ∀ pre, pre <+: [bs "+OK\r\n$5\r\nhe", bs "llo\r\n"] → ¬Misled 0 okHello pre.flatten.length) ∧
    ∀ w : WireValue, (∀ n, _wire_length w.value = some n → n = w.encode.length) ↔ w.hasNull = true ∨ w.excess = 0 :=
  boundaries_exact_iff wireReader_incremental okHello_wellFormed ((List.append_nil _).trans (by decide +kernel))
    (by decide +kernel)

/-- The canonical encoding of `+OK` is three bytes longer, and as many of the bulk string have come. -/
theorem boundaries_misled :
    ¬∀ (R : HiredisReader) (Unread : R.σ → Bytes → Prop), R.Incremental Unread →
      ∀ (values : List WireValue) (cs : List Bytes) (tail : Bytes), (∀ w ∈ values, w.WellFormed) →
        cs.flatten ++ tail = encodeAll values → BoundariesExact Unread (RESPReader.init R) cs := by
  intro h
  have hexact := h wireReader _ wireReader_incremental okHello [bs "+OK\r\n$5\r"] (bs "\nhello\r\n") okHello_wellFormed
    (by decide +kernel)
  have hafter : (afterHiredis (RESPReader.init wireReader) [bs "+OK\r\n$5\r"]).map
    (fun r => (r.engaged, (r.reader : Option Bytes))) =
      some (false, some (bs "$5\r")) := by
    decide +kernel
  obtain ⟨r, hr, heq⟩ := Option.map_eq_some_iff.1 hafter
  obtain ⟨hengaged, hreader⟩ := Prod.mk.inj heq
  have hnothing := hexact _ (List.prefix_refl _) r hr hengaged
  rw [hreader] at hnothing
  exact absurd (Option.some.inj hnothing) (by decide)

end Kagni
