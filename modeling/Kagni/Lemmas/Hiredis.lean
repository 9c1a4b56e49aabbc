import Kagni.Lemmas.Wire

/-!
# What one call of the hiredis engine does

The inline loop takes the inline lines at the front of a buffer; the loop over `gets` takes the framed commands at the front
of what the C reader has not parsed. One call takes inline lines, then framed commands, and raises when an inline line follows
these in the same chunk.
-/

namespace Kagni

/-! ## Streams of commands -/

@[simp] theorem wires_nil : wires [] = [] := rfl

@[simp] theorem wires_cons (i : Item) (items : List Item) : wires (i :: items) = i.wire ++ wires items := rfl

@[simp] theorem wires_append (xs ys : List Item) : wires (xs ++ ys) = wires xs ++ wires ys := List.flatMap_append

theorem Item.length_wire_pos (i : Item) : 0 < i.wire.length := by
  cases i with
  | framed args => simp [Item.wire, command]
  | inline line => simp [Item.wire, SYM_CRLF]

theorem wires_eq_nil {items : List Item} (h : wires items = []) : items = [] := by
  cases items with
  | nil => rfl
  | cons i items =>
    have := i.length_wire_pos
    rw [wires_cons, List.append_eq_nil_iff] at h
    rw [h.1] at this
    exact absurd this (by simp)

/-- The first byte of a stream is the first byte of its first command. -/
theorem head_wire {i : Item} {items : List Item} {c : UInt8} {x : Bytes} (h : c :: x = wires (i :: items)) :
    i.wire.head? = some c := by
  have hpos := i.length_wire_pos
  rw [wires_cons] at h
  revert h hpos
  cases i.wire with
  | nil => simp
  | cons d l =>
    intro h _
    rw [List.head?_cons, (List.cons.inj h).1]

/-- `b` is an incomplete command at the front of `items`, or nothing. -/
def Begun (b : Bytes) (items : List Item) : Prop :=
  b = [] ∨ ∃ i ys z, items = i :: ys ∧ b ++ z = i.wire ∧ z ≠ []

/-- A prefix of a stream of commands ends inside its first command or has that command at its front. -/
theorem wire_prefix {i : Item} {ys : List Item} {x w : Bytes} (h : x ++ w = wires (i :: ys)) :
    (∃ z, z ≠ [] ∧ x ++ z = i.wire) ∨ ∃ x', x = i.wire ++ x' ∧ x' ++ w = wires ys := by
  rw [wires_cons] at h
  rcases List.append_eq_append_iff.1 h with ⟨z, hz, hw⟩ | ⟨x', hx, hw⟩
  · by_cases hn : z = []
    · subst hn
      exact .inr ⟨[], by simpa using hz.symm, by simpa using hw⟩
    · exact .inl ⟨z, hn, hz.symm⟩
  · exact .inr ⟨x', hx, hw.symm⟩

/-- There is no CRLF in an incomplete line. -/
theorem findCrlf_partial {line x z : Bytes} (hl : CrlfFree line) (hz : z ≠ []) (h : x ++ z = line ++ SYM_CRLF) :
    findCrlf x = none := by
  cases hx : findCrlf x with
  | none => rfl
  | some n =>
    have hall := findCrlf_line hl []
    rw [List.append_nil, ← h, findCrlf_append hx] at hall
    have hlt := findCrlf_lt hx
    have hlen := congrArg List.length h
    have hpos := List.length_pos_iff.2 hz
    simp only [Option.some.injEq, List.length_append, SYM_CRLF, List.length_cons, List.length_nil] at hall hlen
    omega

theorem _wire_length_command (args : List Bytes) :
    _wire_length (.array (args.map .bytes)) = some (command args).length := by
  rw [_wire_length, protocolBuilder_command]
  rfl

/-! ## The two loops -/

/-- The inline loop takes the inline lines at the front of its buffer and stops at the end of the buffer, in an incomplete
line or at a framed command. -/
theorem inlineLoop_spec {items : List Item} {x w : Bytes} {fuel : Nat} (messages : List Value)
    (hwf : ∀ i ∈ items, i.Fits) (h : x ++ w = wires items) (hf : x.length < fuel) :
    ∃ done rest y, items = done ++ rest ∧ (∀ i ∈ done, ∃ line, i = .inline line) ∧ x = wires done ++ y ∧
      y ++ w = wires rest ∧
      ((y = [] ∧ inlineLoop fuel x messages = (messages ++ done.map Item.message, [], .exhausted)) ∨
        ((∃ line ys z, rest = .inline line :: ys ∧ y ++ z = Item.wire (.inline line) ∧ z ≠ []) ∧
          inlineLoop fuel x messages = (messages ++ done.map Item.message, y, .incomplete)) ∨
        (y ≠ [] ∧ (∃ args ys, rest = .framed args :: ys) ∧
          inlineLoop fuel x messages = (messages ++ done.map Item.message, [], .framed y))) := by
  induction items generalizing x fuel messages with
  | nil =>
    obtain ⟨rfl, rfl⟩ := List.append_eq_nil_iff.1 h
    obtain ⟨fuel, rfl⟩ := Nat.exists_eq_succ_of_ne_zero (Nat.ne_of_gt hf)
    exact ⟨[], [], [], rfl, by simp, rfl, rfl, .inl ⟨rfl, by simp [inlineLoop]⟩⟩
  | cons i items ih =>
    obtain ⟨fuel, rfl⟩ := Nat.exists_eq_succ_of_ne_zero (Nat.ne_of_gt (Nat.zero_lt_of_lt hf))
    cases x with
    | nil => exact ⟨[], i :: items, [], rfl, by simp, rfl, h, .inl ⟨rfl, by simp [inlineLoop]⟩⟩
    | cons c x =>
      cases i with
      | framed args =>
        have hc : c ∈ _RESP_MARKERS := by
          have := head_wire h
          rw [Item.wire, command, List.cons_append, List.cons_append, List.head?_cons, Option.some.injEq] at this
          rw [← this]
          decide
        refine ⟨[], .framed args :: items, c :: x, rfl, by simp, rfl, h, .inr (.inr ⟨by simp, ⟨args, items, rfl⟩, ?_⟩)⟩
        rw [inlineLoop, if_pos hc]
        simp
      | inline line =>
        obtain ⟨⟨hl, hhead⟩, -⟩ := hwf (.inline line) (by simp)
        have hc : c ∉ _RESP_MARKERS := hhead c (head_wire h)
        rcases wire_prefix h with ⟨z, hz, hx⟩ | ⟨x', hx, hw⟩
        · refine ⟨[], .inline line :: items, c :: x, rfl, by simp, rfl, h,
            .inr (.inl ⟨⟨line, items, z, rfl, hx, hz⟩, ?_⟩)⟩
          rw [inlineLoop, if_neg hc, findCrlf_partial hl hz hx]
          simp
        · have hlen := congrArg List.length hx
          simp only [Item.wire, SYM_CRLF, List.length_append, List.length_cons, List.length_nil] at hlen hf
          obtain ⟨done, rest, y, hitems, hdone, hx', hy, hloop⟩ := ih (x := x')
            (messages ++ [Item.message (.inline line)]) (fun i hi => hwf i (by simp [hi])) hw (show x'.length < fuel by omega)
          have hstep : inlineLoop (fuel + 1) (c :: x) messages =
              inlineLoop fuel x' (messages ++ [Item.message (.inline line)]) := by
            rw [inlineLoop, if_neg hc, hx, Item.wire, findCrlf_line hl]
            simp only
            rw [List.append_assoc, List.take_left, ← List.append_assoc,
              show line.length + 2 = (line ++ SYM_CRLF).length by rw [List.length_append]; rfl, List.drop_left, Item.message]
          refine ⟨.inline line :: done, rest, y, by rw [hitems]; rfl, ?_, by rw [hx, hx']; simp, hy, ?_⟩
          · intro i hi
            rcases List.mem_cons.1 hi with rfl | hi
            · exact ⟨line, rfl⟩
            · exact hdone i hi
          · rw [Nat.succ_eq_add_one, hstep]
            simpa [List.append_assoc] using hloop

variable {R : HiredisReader} {Unread : R.σ → Bytes → Prop} (hR : R.Exact Unread)
include hR

/-- The loop over `gets` takes the framed commands at the front of what the C reader has not parsed. It stops when nothing or an
incomplete framed command is left, and raises when an inline line follows. -/
theorem getsLoop_spec {items : List Item} {u w : Bytes} {fuel : Nat} {r : RESPReader R} (messages : List Value)
    (hwf : ∀ i ∈ items, i.Fits) (hu : Unread r.reader u) (h : u ++ w = wires items) (hf : u.length < fuel) :
    ∃ done rest y, items = done ++ rest ∧ (∀ i ∈ done, ∃ args, i = .framed args) ∧ u = wires done ++ y ∧
      y ++ w = wires rest ∧
      ((∃ s, Unread s y ∧ (y = [] ∨ ∃ args ys z, rest = .framed args :: ys ∧ y ++ z = command args ∧ z ≠ []) ∧
          getsLoop fuel r messages = (.ok (messages ++ done.map Item.message),
            { r with reader := s, consumed := r.consumed + (wires done).length })) ∨
        (y ≠ [] ∧ (∃ line ys, rest = .inline line :: ys) ∧ (getsLoop fuel r messages).1 = .error .hiredis)) := by
  have stop : ∀ (messages : List Value) {b w : Bytes} {args : List Bytes} {fuel : Nat} {r : RESPReader R},
      (command args).length ≤ MAX_BUFFER → Unread r.reader b → b ++ w = command args → w ≠ [] → 0 < fuel →
      ∃ s, Unread s b ∧ getsLoop fuel r messages = (.ok messages, { r with reader := s }) := by
    intro messages b w args fuel r hlen hb hbw hw hf
    obtain ⟨fuel, rfl⟩ := Nat.exists_eq_succ_of_ne_zero (Nat.ne_of_gt hf)
    obtain ⟨s, hgets, hs⟩ := hR.partial_ hlen hb hbw hw
    exact ⟨s, hs, by rw [getsLoop, hgets]⟩
  induction items generalizing u fuel r messages with
  | nil =>
    obtain ⟨rfl, rfl⟩ := List.append_eq_nil_iff.1 h
    obtain ⟨s, hs, hloop⟩ := stop messages (by decide) hu (List.nil_append (command [])) (by simp [command]) hf
    exact ⟨[], [], [], rfl, by simp, rfl, rfl, .inl ⟨s, hs, .inl rfl, by simpa using hloop⟩⟩
  | cons i items ih =>
    have hpos := Nat.zero_lt_of_lt hf
    cases u with
    | nil =>
      obtain ⟨s, hs, hloop⟩ := stop messages (by decide) hu (List.nil_append (command [])) (by simp [command]) hf
      exact ⟨[], i :: items, [], rfl, by simp, rfl, h, .inl ⟨s, hs, .inl rfl, by simpa using hloop⟩⟩
    | cons c u =>
      cases i with
      | framed args =>
        rcases wire_prefix h with ⟨z, hz, hx⟩ | ⟨u', hx, hw⟩
        · obtain ⟨s, hs, hloop⟩ := stop messages (hwf (.framed args) (by simp)).2 hu hx hz hpos
          exact ⟨[], .framed args :: items, c :: u, rfl, by simp, rfl, h,
            .inl ⟨s, hs, .inr ⟨args, items, z, rfl, hx, hz⟩, by simpa using hloop⟩⟩
        · obtain ⟨fuel, rfl⟩ := Nat.exists_eq_succ_of_ne_zero (Nat.ne_of_gt hpos)
          have hlen := congrArg List.length hx
          have hcmd := Item.length_wire_pos (.framed args)
          rw [hx, Item.wire] at hu
          obtain ⟨s, hgets, hs⟩ := hR.command (hwf (.framed args) (by simp)).2 hu
          rw [List.length_append] at hlen
          obtain ⟨done, rest, y, hitems, hdone, hx', hy, hloop⟩ := ih (u := u')
            (r := { r with reader := s, consumed := r.consumed + (command args).length })
            (messages ++ [Item.message (.framed args)]) (fun i hi => hwf i (by simp [hi])) hs hw (show u'.length < fuel by omega)
          have hstep : getsLoop (fuel + 1) r messages =
              getsLoop fuel { r with reader := s, consumed := r.consumed + (command args).length }
                (messages ++ [Item.message (.framed args)]) := by
            rw [getsLoop, hgets]
            simp only [_wire_length_command, Item.message]
          refine ⟨.framed args :: done, rest, y, by rw [hitems]; rfl, ?_, by rw [hx, hx']; simp, hy, ?_⟩
          · intro i hi
            rcases List.mem_cons.1 hi with rfl | hi
            · exact ⟨args, rfl⟩
            · exact hdone i hi
          · rw [Nat.succ_eq_add_one, hstep]
            simpa [List.append_assoc, Nat.add_assoc, Item.wire] using hloop
      | inline line =>
        obtain ⟨fuel, rfl⟩ := Nat.exists_eq_succ_of_ne_zero (Nat.ne_of_gt hpos)
        obtain ⟨⟨-, hhead⟩, -⟩ := hwf (.inline line) (by simp)
        have hc : c ∉ _RESP_MARKERS := hhead c (head_wire h)
        refine ⟨[], .inline line :: items, c :: u, rfl, by simp, rfl, h, .inr ⟨by simp, ⟨line, items, rfl⟩, ?_⟩⟩
        have hgets := hR.marker hu hc
        rw [getsLoop]
        revert hgets
        cases R.gets r.reader with
        | mk out s =>
          intro hgets
          rw [show out = .error () from hgets]

/-! ## One call -/

omit hR in
/-- Between two calls the engine is at a boundary, with the start of an inline line in its own buffer, or it is engaged, with the
start of a framed command in the C reader. -/
def Pending (Unread : R.σ → Bytes → Prop) (r : RESPReader R) (b : Bytes) (items : List Item) : Prop :=
  r.boundary_unknown = false ∧
    ((r.engaged = false ∧ r.fed = 0 ∧ r.consumed = 0 ∧ Unread r.reader [] ∧ r.buffer = b ∧
        (b = [] ∨ ∃ line ys z, items = .inline line :: ys ∧ b ++ z = Item.wire (.inline line) ∧ z ≠ [])) ∨
      (r.engaged = true ∧ r.buffer = [] ∧ Unread r.reader b ∧ r.fed = r.consumed + b.length ∧ b ≠ [] ∧
        ∃ args ys z, items = .framed args :: ys ∧ b ++ z = command args ∧ z ≠ []))

omit hR in
theorem Pending.begun {r : RESPReader R} {b : Bytes} {items : List Item} (h : Pending Unread r b items) : Begun b items := by
  rcases h with ⟨-, ⟨-, -, -, -, -, hb | ⟨line, ys, z, hi, hz, hn⟩⟩ | ⟨-, -, -, -, -, args, ys, z, hi, hz, hn⟩⟩
  · exact .inl hb
  · exact .inr ⟨_, ys, z, hi, hz, hn⟩
  · exact .inr ⟨_, ys, z, hi, hz, hn⟩

/-- What a call does with the bytes it hands to the C reader: the framed commands at their front, then the start of another
one, or an exception because an inline line follows. -/
theorem engage_spec {items : List Item} {b c w : Bytes} {r : RESPReader R} (messages : List Value)
    (hwf : ∀ i ∈ items, i.Fits) (hr : r.boundary_unknown = false) (he : r.engaged = true) (hbuf : r.buffer = [])
    (hu : Unread r.reader b) (hfed : r.fed = r.consumed + b.length) (h : b ++ c ++ w = wires items)
    (hcap : (b ++ c).length ≤ MAX_BUFFER) (hne : b ++ c ≠ []) :
    ∃ done rest y, items = done ++ rest ∧ (∀ i ∈ done, ∃ args, i = .framed args) ∧ b ++ c = wires done ++ y ∧
      y ++ w = wires rest ∧
      ((∃ r', engage r c messages = (.ok (messages ++ done.map Item.message), r') ∧ Pending Unread r' y rest ∧
          (y = [] ∨ ∃ args ys, rest = .framed args :: ys)) ∨
        (y ≠ [] ∧ (∃ line ys, rest = .inline line :: ys) ∧ (engage r c messages).1 = .error .hiredis)) := by
  -- the state after the bytes are handed over
  obtain ⟨r₁, hr₁⟩ : ∃ r₁ : RESPReader R, r₁ =
    if c = [] then r else { r with reader := R.feed r.reader c, fed := r.fed + c.length } := ⟨_, rfl⟩
  have hunknown₁ : r₁.boundary_unknown = false := by
    rw [hr₁]
    split <;> exact hr
  have hengaged₁ : r₁.engaged = true := by
    rw [hr₁]
    split <;> exact he
  have hbuf₁ : r₁.buffer = [] := by
    rw [hr₁]
    split <;> exact hbuf
  have hfed₁ : r₁.fed = r₁.consumed + (b ++ c).length := by
    rw [hr₁]
    split
    · rename_i hc
      rw [hc, List.append_nil]
      exact hfed
    · simp only [List.length_append]
      omega
  have hu₁ : Unread r₁.reader (b ++ c) := by
    rw [hr₁]
    split
    · rename_i hc
      rw [hc, List.append_nil]
      exact hu
    · exact hR.feed hu c
  have hsize : ¬(c ≠ [] ∧ ¬r₁.boundary_unknown = true ∧ (r₁.fed : Int) - r₁.consumed > MAX_BUFFER) := by omega
  obtain ⟨done, rest, y, hitems, hdone, hx, hy, hloop⟩ :=
    getsLoop_spec hR messages hwf hu₁ h (show (b ++ c).length < r₁.fed + 1 by omega)
  refine ⟨done, rest, y, hitems, hdone, hx, hy, ?_⟩
  rcases hloop with ⟨s, hs, hrest, hloop⟩ | ⟨hyne, hrest, hloop⟩
  · left
    rw [engage, ← hr₁]
    simp only [if_neg hsize]
    rw [hloop]
    have hlen := congrArg List.length hx
    rw [@List.length_append _ (wires done)] at hlen
    have hnext : y = [] ∨ ∃ args ys, rest = .framed args :: ys := by
      rcases hrest with hy0 | ⟨args, ys, z, hi, -, -⟩
      · exact .inl hy0
      · exact .inr ⟨args, ys, hi⟩
    refine ⟨_, rfl, ?_, hnext⟩
    by_cases hyne : y = []
    · subst hyne
      have hpos := List.length_pos_iff.2 hne
      rw [List.length_nil] at hlen
      rw [resume, if_pos ⟨hengaged₁, by simp [hunknown₁], by simp only; omega, by simp only; omega⟩]
      exact ⟨hunknown₁, .inl ⟨rfl, rfl, rfl, hs, hbuf₁, .inl rfl⟩⟩
    · have hpos := List.length_pos_iff.2 hyne
      rw [resume, if_neg fun hc => by
        have := hc.2.2.2
        simp only at this
        omega]
      exact ⟨hunknown₁, .inr ⟨hengaged₁, hbuf₁, hs, by simp only; omega, hyne, hrest.resolve_left hyne⟩⟩
  · right
    refine ⟨hyne, hrest, ?_⟩
    rw [engage, ← hr₁]
    simp only [if_neg hsize]
    revert hloop
    cases getsLoop (r₁.fed + 1) r₁ messages with
    | mk out r' =>
      intro hloop
      rw [show out = .error .hiredis from hloop]

omit hR in
/-- Inline lines followed by framed commands hold no framed command directly before an inline line. -/
theorem no_turn {ins fs : List Item} (hins : ∀ i ∈ ins, ∃ line, i = .inline line) (hfs : ∀ i ∈ fs, ∃ args, i = .framed args)
    (xs : List Item) (args : List Bytes) (line : Bytes) (ys : List Item) :
    ins ++ fs ≠ xs ++ .framed args :: .inline line :: ys := by
  intro h
  have inline_not_mem : Item.inline line ∉ fs := by
    intro hm
    obtain ⟨args', e⟩ := hfs _ hm
    cases e
  have framed_not_mem : Item.framed args ∉ ins := by
    intro hm
    obtain ⟨line', e⟩ := hins _ hm
    cases e
  rcases List.append_eq_append_iff.1 h with ⟨z, -, hz⟩ | ⟨z, hz, hz'⟩
  · exact inline_not_mem (by simp [hz])
  · cases z with
    | nil => exact inline_not_mem (by rw [List.nil_append] at hz'; simp [← hz'])
    | cons i z =>
      rw [List.cons_append, List.cons.injEq] at hz'
      exact framed_not_mem (by simp [hz, ← hz'.1])

omit hR in
/-- A nonempty list of framed commands ends in one. -/
theorem last_framed {done : List Item} (hdone : ∀ i ∈ done, ∃ args, i = .framed args) (hne : done ≠ []) :
    ∃ xs args, done = xs ++ [.framed args] := by
  obtain ⟨xs, i, rfl⟩ := (List.eq_nil_or_concat' done).resolve_left hne
  obtain ⟨args, rfl⟩ := hdone i (by simp)
  exact ⟨xs, args, rfl⟩

/-- At a boundary, a call that hands nothing over changes nothing but the C reader's own state. -/
theorem engage_nothing {r : RESPReader R} (messages : List Value) (heng : r.engaged = false)
    (hu : Unread r.reader []) :
    ∃ s, Unread s [] ∧ engage r [] messages = (.ok messages, { r with reader := s }) := by
  obtain ⟨s, hgets, hs⟩ := hR.partial_ (by decide) hu (List.nil_append (command [])) (by simp [command])
  have hloop : getsLoop (r.fed + 1) r messages = (.ok messages, { r with reader := s }) := by
    rw [getsLoop, hgets]
  refine ⟨s, hs, ?_⟩
  rw [engage]
  simp only [if_true, ne_eq, not_true_eq_false, false_and, if_false, hloop]
  rw [resume, if_neg fun hc => by simp [heng] at hc]

/-- One call: it returns the inline lines and then the framed commands its chunk completes, and raises exactly when an inline line
follows these in the chunk. -/
theorem _feed_hiredis_spec {items : List Item} {b c w : Bytes} {r : RESPReader R} (hwf : ∀ i ∈ items, i.Fits)
    (hP : Pending Unread r b items) (h : b ++ c ++ w = wires items) (hcap : (b ++ c).length ≤ MAX_BUFFER) :
    ∃ done rest y, items = done ++ rest ∧ b ++ c = wires done ++ y ∧ y ++ w = wires rest ∧
      (∀ xs args line ys, done ≠ xs ++ .framed args :: .inline line :: ys) ∧
      ((∃ r', _feed_hiredis r c = (.ok (done.map Item.message), r') ∧ Pending Unread r' y rest ∧
          ∀ xs args line ys, done = xs ++ [.framed args] → rest = .inline line :: ys → y = []) ∨
        (y ≠ [] ∧ (∃ xs args line ys, done = xs ++ [.framed args] ∧ rest = .inline line :: ys) ∧
          (_feed_hiredis r c).1 = .error .hiredis)) := by
  obtain ⟨hunknown, ⟨heng, hfed, hcons, hu, rfl, hbegun⟩ | ⟨heng, hbuf, hu, hfed, hbne, args, ys, z, hi, hz, hzne⟩⟩ := hP
  · -- at a boundary: inline lines first
    obtain ⟨ins, rest, y, hitems, hins, hx, hy, hloop⟩ :=
      inlineLoop_spec [] hwf h (Nat.lt_succ_self (r.buffer ++ c).length)
    have hfeed : _feed_hiredis r c = match inlineLoop ((r.buffer ++ c).length + 1) (r.buffer ++ c) [] with
        | (messages, buffer', .incomplete) => (.ok messages, { r with buffer := buffer' })
        | (messages, buffer', .framed data) => engage { r with buffer := buffer', engaged := true } data messages
        | (messages, buffer', .exhausted) => engage { r with buffer := buffer' } [] messages := by
      rw [_feed_hiredis, if_pos ⟨by simp [heng], by simp [hunknown]⟩]
      exact if_neg (Nat.not_lt.2 hcap)
    rw [hfeed]
    rcases hloop with ⟨rfl, hloop⟩ | ⟨⟨line, ys, z, hrest, hz, hzne⟩, hloop⟩ | ⟨hyne, ⟨args, ys, hrest⟩, hloop⟩
    · refine ⟨ins, rest, [], hitems, hx, hy, fun xs args line ys e => ?_, .inl ?_⟩
      · exact no_turn hins (show ∀ i ∈ ([] : List Item), ∃ args, i = .framed args by simp) xs args line ys
          (by rw [List.append_nil, e])
      · obtain ⟨s, hs, hout⟩ := engage_nothing hR (r := { r with buffer := [] }) (ins.map Item.message) heng hu
        refine ⟨{ r with buffer := [], reader := s }, ?_, ⟨hunknown, .inl ⟨heng, hfed, hcons, hs, rfl, .inl rfl⟩⟩,
          fun _ _ _ _ _ _ => rfl⟩
        rw [hloop]
        exact hout
    · refine ⟨ins, rest, y, hitems, hx, hy, fun xs args line ys e => ?_, .inl ⟨{ r with buffer := y }, ?_, ?_, ?_⟩⟩
      · exact no_turn hins (show ∀ i ∈ ([] : List Item), ∃ args, i = .framed args by simp) xs args line ys
          (by rw [List.append_nil, e])
      · rw [hloop]
        simp
      · exact ⟨hunknown, .inl ⟨heng, hfed, hcons, hu, rfl, .inr ⟨line, ys, z, hrest, hz, hzne⟩⟩⟩
      · intro xs args line ys e
        obtain ⟨line', e'⟩ := hins (.framed args) (by simp [e])
        cases e'
    · obtain ⟨done, rest', y', hrest', hdone, hx', hy', hout⟩ := engage_spec (b := []) (c := y) (w := w) hR
        (r := { r with buffer := [], engaged := true }) (ins.map Item.message)
        (show ∀ i ∈ rest, i.Fits from fun i hi => hwf i (by rw [hitems]; simp [hi])) hunknown rfl rfl hu
          (by simp only [hfed, hcons]; rfl)
        (by simpa using hy) (by
          have := congrArg List.length hx
          rw [@List.length_append _ (wires ins)] at this
          simp only [List.nil_append]
          omega) (by simpa using hyne)
      refine ⟨ins ++ done, rest', y', by rw [hitems, hrest', List.append_assoc], ?_, hy',
        no_turn hins hdone, ?_⟩
      · rw [hx, wires_append, List.append_assoc, ← hx', List.nil_append]
      rw [hloop]
      rcases hout with ⟨r', hout, hP', hturn⟩ | ⟨hne, ⟨line, ys', hl⟩, hout⟩
      · refine .inl ⟨r', by simpa using hout, hP', ?_⟩
        intro xs args' line ys' _ hl
        rcases hturn with hy0 | ⟨args'', ys'', he⟩
        · exact hy0
        · rw [hl] at he
          cases he
      · have hdne : done ≠ [] := by
          rintro rfl
          rw [hl, hrest] at hrest'
          cases hrest'
        obtain ⟨xs, args', rfl⟩ := last_framed hdone hdne
        exact .inr ⟨hne, ⟨ins ++ xs, args', line, ys', by rw [List.append_assoc], hl⟩, by simpa using hout⟩
  · -- engaged: the whole chunk goes to the C reader
    obtain ⟨done, rest, y, hitems, hdone, hx, hy, hout⟩ := engage_spec hR [] hwf hunknown heng hbuf hu hfed h hcap
      (by simp [hbne])
    have hfeed : _feed_hiredis r c = engage r c [] := by
      rw [_feed_hiredis, if_neg fun hc => by simp [heng] at hc]
    rw [hfeed]
    refine ⟨done, rest, y, hitems, hx, hy, no_turn (show ∀ i ∈ ([] : List Item), ∃ line, i = .inline line by simp) hdone, ?_⟩
    rcases hout with ⟨r', hout, hP', hturn⟩ | ⟨hne, ⟨line, ys', hl⟩, hout⟩
    · refine .inl ⟨r', by simpa using hout, hP', ?_⟩
      intro xs args' line ys' _ hl
      rcases hturn with hy0 | ⟨args'', ys'', he⟩
      · exact hy0
      · rw [hl] at he
        cases he
    · have hdne : done ≠ [] := by
        rintro rfl
        rw [hl, hi] at hitems
        cases hitems
      obtain ⟨xs, args', rfl⟩ := last_framed hdone hdne
      exact .inr ⟨hne, ⟨xs, args', line, ys', rfl, hl⟩, hout⟩

end Kagni
