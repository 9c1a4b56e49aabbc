import Kagni.Lemmas.Outcome

/-!
# Every reply is one frame

Outside of EXEC a reply is exactly one RESP2 value, unless it is an error that quotes a CRLF the client sent: in the name or an
argument of an unknown command, in the subcommand of CLIENT, CONFIG, COMMAND or PUBSUB, or in a parameter name of CONFIG SET.
-/

namespace Kagni

open Lib Lib.Prog

variable {F : Type}

/-! ## The quoted texts -/

/-- The reply to an unknown command quotes a CRLF: of an argument it quotes 128 bytes. -/
def UnknownGarbled (q : Request) : Prop :=
  Unknown q ∧ (¬CrlfFree q.command ∨ ∃ arg, .bytes arg ∈ q.args ∧ ¬CrlfFree (arg.take 128))

/-- The reply of a request that is run or stopped at the gate quotes a CRLF. -/
def DirectGarbled (q : Request) (subscribed : Bool) : Prop :=
  UnknownGarbled q ∨ ∃ c, Cmd.ofName q.name = some c ∧ c.Accepts q.args.length ∧ c ∈ quotingCommands ∧
    (¬CleanSub q.args ∨ c = .CONFIG ∧ subscribed = false ∧ BadParam q.args)

/-- The reply of a request quotes a CRLF. -/
def Garbled (s : Server F) (state : Option SessionId) (q : Request) : Prop :=
  if s.inMulti state then UnknownGarbled q else DirectGarbled q (s.subscribed state)

theorem crlfFree_argSummary {args : List Value} {summary : Bytes} (h : argSummary args = some summary) :
    (CrlfFree summary ↔ ∀ arg, .bytes arg ∈ args → CrlfFree (arg.take 128)) ∧ summary.head? ≠ some 10 := by
  induction args generalizing summary with
  | nil =>
    cases h
    exact ⟨iff_of_true (by decide) nofun, by decide⟩
  | cons arg args ih =>
    rw [argSummary] at h
    split at h
    · rename_i a b ha hb
      obtain ⟨hfree, hhead⟩ := ih hb
      cases arg with
      | bytes arg =>
        cases ha
        cases h
        refine ⟨?_, ?_⟩
        · rw [crlfFree_append hhead, crlfFree_quote (by decide) (by decide) (by decide), hfree]
          simp
        · rw [List.append_assoc, List.append_assoc, List.head?_append_of_ne_nil _ (by decide)]
          decide
      | _ => cases ha
    · cases h

theorem respValue_unknown_iff {q : Request} {frame : Bytes} (h : _unknown_command_frame q = some frame) :
    RespValue frame ↔ CrlfFree q.command ∧ ∀ arg, .bytes arg ∈ q.args → CrlfFree (arg.take 128) := by
  obtain ⟨summary, hs, rfl⟩ := Option.map_eq_some_iff.1 h
  obtain ⟨hfree, -⟩ := crlfFree_argSummary hs
  have hline : bs "-ERR unknown command '" ++ asciiOrQuestion q.command ++ bs "', with args beginning with: " ++ summary ++
      SYM_CRLF = 45 :: (bs "ERR unknown command '" ++ asciiOrQuestion q.command ++
        (bs "', with args beginning with: " ++ summary)) ++ SYM_CRLF := by
    rw [show bs "-ERR unknown command '" = 45 :: bs "ERR unknown command '" by decide]
    simp only [List.append_assoc, List.cons_append]
  have hhead : (bs "', with args beginning with: " ++ summary).head? ≠ some 10 := by
    rw [List.head?_append_of_ne_nil _ (by decide)]
    decide
  rw [hline, respValue_error_iff, crlfFree_append hhead, crlfFree_noCr_append (by decide), crlfFree_asciiOrQuestion,
    crlfFree_noCr_append (by decide), hfree]

/-- A command name in upper case has no CRLF in it, and so neither has what the client sent for it. -/
theorem crlfFree_command {q : Request} {lit : Text} (h : q.name = lit) (hl : CrlfFree lit) : CrlfFree q.command := by
  rwa [← crlfFree_decodeAscii, ← crlfFree_upper, show upper (decodeAscii q.command) = lit from h]

theorem Cmd.crlfFree_name (c : Cmd) : CrlfFree c.name := by
  rw [← crlfFree_lower]
  exact c.noCr_lower.crlfFree

theorem respValue_gate_iff {q : Request} {frame : Bytes} (hc : CrlfFree q.command) (h : gateFrame q = some frame) :
    RespValue frame ↔ (q.name ∈ _SUBCOMMAND_COMMANDS → CleanSub q.args) := by
  obtain ⟨label, hlabel, rfl⟩ := Option.map_eq_some_iff.1 h
  have hcommand : CrlfFree (lower (decodeAscii q.command)) := (crlfFree_lower _).2 ((crlfFree_decodeAscii _).2 hc)
  have hgate : RespValue (errFrame (_GATE_TEXT label)) ↔ CrlfFree label := by
    rw [respValue_errFrame_iff, _GATE_TEXT, List.append_assoc (_ ++ label),
      crlfFree_quote (by decide) (by decide) (by decide)]
  rw [hgate]
  unfold _gate_label at hlabel
  split at hlabel
  · rename_i hargs
    cases hlabel
    exact iff_of_true hcommand fun _ sub rest e => by simp [hargs] at e
  · rename_i sub rest hargs
    split at hlabel
    · rename_i hmem
      split at hlabel
      · rename_i sub
        cases hlabel
        rw [List.append_assoc, crlfFree_append (by rw [List.head?_append_of_ne_nil _ (by decide)]; decide),
          and_iff_right hcommand, crlfFree_noCr_append (by decide), crlfFree_lower, crlfFree_decodeAscii]
        refine ⟨fun h _ sub' rest' e => ?_, fun h => h hmem sub rest hargs⟩
        rw [hargs] at e
        cases e
        exact h
      · cases hlabel
    · rename_i hmem
      cases hlabel
      exact iff_of_true hcommand fun h => absurd h hmem

/-! ## Running a method -/

theorem respValue_decorated {m : M F Reply} (hm : Ends (fun _ => True) CleanExc m) {r : Env × Clock}
    {s : Server F} {frame : Bytes}
    (h : (runDecorated m r s).1 = .ok (some frame)) : RespValue frame := by
  rw [runDecorated_run] at h
  obtain rfl := Option.some.inj (Except.ok.inj h)
  cases hout : (m r s).1 with
  | error e => exact (respValue_onExc_iff e).2 (hm.error (Prod.ext hout rfl))
  | ok reply =>
    dsimp only [decoratedFrame]
    cases hb : protocolBuilder reply with
    | none => exact (respValue_onExc_iff .other).2 trivial
    | some frame => exact respValue_of_protocolBuilder hb

theorem respValue_session {m : M F (Option Reply)} {Q : Option Reply → Prop} (hm : Ends Q CleanExc m) {r : Env × Clock}
    {s : Server F} {frame : Bytes} (h : (runSession m r s).1 = .ok (some frame)) : RespValue frame := by
  rw [runSession_run] at h
  cases hout : (m r s).1 with
  | error e =>
    rw [hout] at h
    obtain rfl := Option.some.inj (Except.ok.inj h)
    exact (respValue_onExc_iff e).2 (hm.error (Prod.ext hout rfl))
  | ok value =>
    rw [hout] at h
    unfold sessionFrame at h
    split at h
    · cases h
    · split at h
      · rename_i hb
        obtain rfl := Option.some.inj (Except.ok.inj h)
        exact respValue_of_protocolBuilder hb
      · cases h
    · cases h
      cases ‹Except.ok value = Except.error _›

theorem not_respValue_decorated {m : M F Reply} (hm : Garbles m) {r : Env × Clock} {s : Server F} {frame : Bytes}
    (h : (runDecorated m r s).1 = .ok (some frame)) : ¬RespValue frame := by
  obtain ⟨e, he, hc⟩ := hm r s
  rw [runDecorated_run, he] at h
  obtain rfl := Option.some.inj (Except.ok.inj h)
  exact fun hv => hc ((respValue_frame_iff e).1 hv)

theorem not_respValue_session {m : M F (Option Reply)} (hm : Garbles m) {r : Env × Clock} {s : Server F} {frame : Bytes}
    (h : (runSession m r s).1 = .ok (some frame)) : ¬RespValue frame := by
  obtain ⟨e, he, hc⟩ := hm r s
  rw [runSession_run, he] at h
  obtain rfl := Option.some.inj (Except.ok.inj h)
  exact fun hv => hc ((respValue_frame_iff e).1 hv)

variable [PyFloat F]

/-- The reply of a command that is run is one value exactly when no quoted text has a CRLF in it. -/
theorem respValue_runHandler_iff {c : Cmd} {args : List Value} {state : Option SessionId} {r : Env × Clock} {s : Server F}
    {frame : Bytes} (h : (runHandler (handler c) state args r s).1 = .ok (some frame)) :
    RespValue frame ↔ ¬(c ∈ quotingCommands ∧ (¬CleanSub args ∨ c = .CONFIG ∧ BadParam args)) := by
  have hbad : ¬CleanSub args → ∃ sub rest, args = .bytes sub :: rest ∧ ¬CrlfFree sub := by
    intro h
    simp only [CleanSub, not_forall] at h
    obtain ⟨sub, rest, e, hc⟩ := h
    exact ⟨sub, rest, e, hc⟩
  obtain ⟨method, hm⟩ | hs := handler_cases (F := F) c
  · rw [hm] at h
    have hv := respValue_decorated (ends_liftK_true _) h
    refine iff_of_true hv fun hq => ?_
    have hne : ∀ c' ∈ quotingCommands, ∀ method, (handler c' : Handler F) ≠ .keyspace method := by
      intro c' hc'
      simp only [quotingCommands, List.mem_cons, List.not_mem_nil, or_false] at hc'
      rcases hc' with rfl | rfl | rfl | rfl <;> nofun
    exact hne c hq.1 method hm
  · simp only [serverCommands, List.mem_cons, List.not_mem_nil, or_false] at hs
    have hnot : ∀ {c : Cmd}, c ∉ quotingCommands → ¬(c ∈ quotingCommands ∧ (¬CleanSub args ∨ c = .CONFIG ∧ BadParam args)) :=
      fun h h' => h h'.1
    -- a command that quotes its subcommand, and nothing else
    have hsub : ∀ {c : Cmd}, c ∈ quotingCommands → c ≠ .CONFIG → (CleanSub args → RespValue frame) →
        (¬CleanSub args → ¬RespValue frame) →
        (RespValue frame ↔ ¬(c ∈ quotingCommands ∧ (¬CleanSub args ∨ c = .CONFIG ∧ BadParam args))) := by
      intro c hc hne h1 h2
      by_cases hclean : CleanSub args
      · refine iff_of_true (h1 hclean) ?_
        intro h
        exact h.2.elim (fun h => h hclean) fun h => hne h.1
      · exact iff_of_false (h2 hclean) fun h => h ⟨hc, .inl hclean⟩
    rcases hs with rfl | rfl | rfl | rfl | rfl | rfl | rfl | rfl | rfl | rfl | rfl | rfl | rfl
    · exact iff_of_true (respValue_session (ends_WATCH state args) h) (hnot (by decide))
    · exact iff_of_true (respValue_session (ends_UNWATCH state args) h) (hnot (by decide))
    · refine hsub (by decide) (by decide) (fun hc => respValue_decorated (ends_COMMAND hc) h) fun hc => ?_
      obtain ⟨sub, rest, hargs, hcr⟩ := hbad hc
      subst hargs
      exact not_respValue_decorated (garbles_COMMAND rest hcr) h
    · refine hsub (by decide) (by decide) (fun hc => respValue_decorated (ends_CLIENT hc) h) fun hc => ?_
      obtain ⟨sub, rest, hargs, hcr⟩ := hbad hc
      subst hargs
      exact not_respValue_decorated (garbles_CLIENT rest hcr) h
    · by_cases hclean : CleanSub args
      · by_cases hparam : BadParam args
        · exact iff_of_false (not_respValue_decorated (garbles_CONFIG_param hparam) h)
            fun h => h ⟨by decide, .inr ⟨rfl, hparam⟩⟩
        · refine iff_of_true (respValue_decorated (ends_CONFIG hclean hparam) h) ?_
          intro h
          exact h.2.elim (fun h => h hclean) fun h => hparam h.2
      · obtain ⟨sub, rest, hargs, hc⟩ := hbad hclean
        subst hargs
        exact iff_of_false (not_respValue_decorated (garbles_CONFIG_sub rest hc) h) fun h => h ⟨by decide, .inl hclean⟩
    · exact iff_of_true (respValue_decorated ends_flush h) (hnot (by decide))
    · exact iff_of_true (respValue_decorated ends_flush h) (hnot (by decide))
    · exact iff_of_true (respValue_session (ends_subscribeAll _ _ state args) h) (hnot (by decide))
    · exact iff_of_true (respValue_session (ends_unsubscribeAll _ _ state args) h) (hnot (by decide))
    · exact iff_of_true (respValue_session (ends_subscribeAll _ _ state args) h) (hnot (by decide))
    · exact iff_of_true (respValue_session (ends_unsubscribeAll _ _ state args) h) (hnot (by decide))
    · exact iff_of_true (respValue_session (ends_PUBLISH args) h) (hnot (by decide))
    · refine hsub (by decide) (by decide) (fun hc => respValue_session (ends_PUBSUB hc) h) fun hc => ?_
      obtain ⟨sub, rest, hargs, hcr⟩ := hbad hc
      subst hargs
      exact not_respValue_session (garbles_PUBSUB rest hcr) h

/-! ## Dispatch -/

/-- A text the dispatcher answers with and that does not depend on the client. -/
theorem respValue_errFrame {msg : Text} (h : CrlfFree msg) : RespValue (errFrame msg) := (respValue_errFrame_iff msg).2 h

/-- What the reply of a request quotes when its name is that of a command. -/
theorem directGarbled_iff {q : Request} {c : Cmd} {subscribed : Bool} (h : Cmd.ofName q.name = some c)
    (hacc : c.Accepts q.args.length) : DirectGarbled q subscribed ↔
      c ∈ quotingCommands ∧ (¬CleanSub q.args ∨ c = .CONFIG ∧ subscribed = false ∧ BadParam q.args) := by
  refine ⟨?_, fun hq => .inr ⟨c, h, hacc, hq⟩⟩
  rintro (⟨hu, -⟩ | ⟨c', h', -, hq⟩)
  · rw [hu.2.2.2] at h
    cases h
  · obtain rfl := Option.some.inj (h.symm.trans h')
    exact hq

/-- A request whose name is not that of a command or whose arguments are too few or too many quotes nothing but an unknown
name. -/
theorem not_directGarbled {q : Request} {subscribed : Bool} (hu : ¬Unknown q)
    (h : ∀ c, Cmd.ofName q.name = some c → ¬c.Accepts q.args.length) : ¬DirectGarbled q subscribed := by
  rintro (hq | ⟨c, hc, hacc, -⟩)
  · exact hu hq.1
  · exact h c hc hacc

/-- A request that is not queued. -/
theorem respValue_direct_iff {q : Request} {state : Option SessionId} {r : Env × Clock} {s : Server F} {frame : Bytes}
    (h : (_dispatch_direct q state false r s).1 = .ok (some frame)) :
    RespValue frame ↔ ¬DirectGarbled q (s.subscribed state) := by
  rw [_dispatch_direct_eq] at h
  -- a reply to one of the words of a transaction
  have hword : (q.name = bs "MULTI" ∨ q.name = bs "EXEC" ∨ q.name = bs "DISCARD") → RespValue frame →
      (RespValue frame ↔ ¬DirectGarbled q (s.subscribed state)) := by
    intro hname hv
    refine iff_of_true hv (not_directGarbled ?_ fun c hc => ?_)
    · rintro ⟨h1, h2, h3, -⟩
      exact hname.elim h1 (Or.elim · h2 h3)
    · rw [ofName_words hname] at hc
      cases hc
  unfold directRoute at h
  dsimp only at h
  split_ifs at h with hgate hmulti hexec hsub hdiscard
  · have hfree : CrlfFree q.command := by
      obtain hm | hd := hgate.2.2
      · exact crlfFree_command hm (by decide)
      · exact crlfFree_command hd (by decide)
    refine hword (hgate.2.2.imp_right .inr) ?_
    exact (respValue_gate_iff hfree (answer_frame h)).2 fun hs => absurd hs (not_subcommand_of_words hgate.2.2)
  · refine hword (.inl hmulti) ?_
    cases state with
    | none =>
      obtain rfl := Option.some.inj (answer_frame h)
      exact respValue_errFrame (by decide)
    | some session =>
      obtain rfl := Option.some.inj (Except.ok.inj h)
      exact respValue_of_protocolBuilder (show protocolBuilder .OK = some _ from rfl)
  · obtain rfl := Option.some.inj (answer_frame h)
    exact hword (.inr (.inl hexec)) ((respValue_frame_iff _).2 (by decide +kernel))
  · obtain rfl := Option.some.inj (answer_frame h)
    exact hword (.inr (.inl hexec)) (respValue_errFrame (by decide))
  · obtain rfl := Option.some.inj (answer_frame h)
    exact hword (.inr (.inr hdiscard)) (respValue_errFrame (by decide))
  · cases hc : Cmd.ofName q.name with
    | none =>
      rw [hc] at h
      have hu : Unknown q := ⟨hmulti, hexec, hdiscard, hc⟩
      rw [respValue_unknown_iff (answer_frame h)]
      have hiff : DirectGarbled q (s.subscribed state) ↔
          ¬CrlfFree q.command ∨ ∃ arg, .bytes arg ∈ q.args ∧ ¬CrlfFree (arg.take 128) := by
        refine ⟨?_, fun hq => .inl ⟨hu, hq⟩⟩
        rintro (hq | ⟨c, hc', -⟩)
        · exact hq.2
        · rw [hc] at hc'
          cases hc'
      rw [hiff]
      push Not
      rfl
    | some c =>
      rw [hc] at h
      dsimp only at h
      have hfree : CrlfFree q.command := crlfFree_command (name_of_ofName hc) c.crlfFree_name
      split_ifs at h with hacc hallowed hping
      · rw [respValue_gate_iff hfree (answer_frame h), mem_subcommand_iff hc, directGarbled_iff hc (hacc), hallowed.2.1]
        simp
      · obtain ⟨-, rfl⟩ := hping
        refine iff_of_true (respValue_of_protocolBuilder (answer_frame h)) ?_
        rw [directGarbled_iff hc (hacc)]
        exact fun hq => absurd hq.1 (by decide)
      · rw [respValue_runHandler_iff h, directGarbled_iff hc (hacc)]
        cases hs : s.subscribed state with
        | false => simp
        | true =>
          have hq : c ∉ quotingCommands := by
            intro hq
            refine hallowed ⟨rfl, hs, fun ha => ?_⟩
            revert hq ha
            cases c <;> decide
          exact iff_of_true (fun h' => hq h'.1) fun h' => hq h'.1
      · obtain rfl := Option.some.inj (answer_frame h)
        refine iff_of_true ((respValue_frame_iff _).2 (Errors.crlfFree _)) (not_directGarbled ?_ fun c' hc' => ?_)
        · rintro ⟨-, -, -, hnone⟩
          rw [hc] at hnone
          cases hnone
        · obtain rfl := Option.some.inj (hc.symm.trans hc')
          exact hacc

/-- A request inside a transaction, other than EXEC. -/
theorem respValue_queued_iff {q : Request} {session : SessionId} {r : Env × Clock} {s : Server F} {frame : Bytes}
    (hne : q.name ≠ bs "EXEC") (h : (_dispatch_queued session q r s).1 = .ok (some frame)) :
    RespValue frame ↔ ¬UnknownGarbled q := by
  rw [_dispatch_queued_eq] at h
  unfold queuedRoute at h
  dsimp only at h
  rw [if_neg hne] at h
  -- a request that is no unknown command
  have hknown : ¬Unknown q → RespValue frame → (RespValue frame ↔ ¬UnknownGarbled q) := fun hu hv =>
    iff_of_true hv fun hq => hu hq.1
  split_ifs at h with hdiscard hmulti hwatch
  · obtain rfl := Option.some.inj (Except.ok.inj h)
    exact hknown (fun hu => hu.2.2.1 hdiscard) (respValue_of_protocolBuilder (show protocolBuilder .OK = some _ from rfl))
  · obtain rfl := Option.some.inj (answer_frame h)
    exact hknown (fun hu => hu.1 hmulti) (respValue_errFrame (by decide))
  · obtain rfl := Option.some.inj (answer_frame h)
    refine hknown (fun hu => ?_) (respValue_errFrame (by decide))
    have hnone := hu.2.2.2
    rw [hwatch] at hnone
    exact absurd hnone (by decide)
  · cases hc : Cmd.ofName q.name with
    | none =>
      rw [hc] at h
      have hu : Unknown q := ⟨hmulti, hne, hdiscard, hc⟩
      rw [respValue_unknown_iff (answer_frame h), UnknownGarbled, and_iff_right hu]
      push Not
      rfl
    | some c =>
      rw [hc] at h
      have hu : ¬Unknown q := fun hu => by
        have hnone := hu.2.2.2
        rw [hc] at hnone
        cases hnone
      dsimp only at h
      split_ifs at h with hacc
      · obtain rfl := Option.some.inj (Except.ok.inj h)
        exact hknown hu (respValue_of_protocolBuilder (show protocolBuilder (.response .QUEUED) = some _ from rfl))
      · obtain rfl := Option.some.inj (answer_frame h)
        exact hknown hu ((respValue_frame_iff _).2 (Errors.crlfFree _))

/-- The request a list of byte strings stands for. -/
def Request.ofWords (words : List Bytes) : Request := ⟨words.headD [], words.tail.map .bytes⟩

/-- Outside of EXEC, what `dispatch` returns for a list of byte strings is one RESP2 value exactly when it does not quote a CRLF
of the client. -/
theorem reply_respValue_iff (words : List Bytes) (state : Option SessionId) (r : Env × Clock) (s : Server F) (frame : Bytes)
    (hexec : ¬(s.inMulti state = true ∧ (Request.ofWords words).name = bs "EXEC"))
    (h : (dispatch (.array (words.map .bytes)) state r s).1 = .ok (some frame)) :
    RespValue frame ↔ ¬Garbled s state (Request.ofWords words) := by
  cases words with
  | nil => cases h
  | cons command args =>
    unfold Garbled
    cases hm : s.inMulti state with
    | false =>
      rw [List.map_cons, dispatch_direct r hm] at h
      exact respValue_direct_iff h
    | true =>
      cases state with
      | none => cases hm
      | some session =>
        rw [List.map_cons, dispatch_queued r hm] at h
        exact respValue_queued_iff (fun hn => hexec ⟨hm, hn⟩) h

/-- A request of a fresh server. -/
def firstReply (words : List Bytes) : Except Unit (Option Bytes) :=
  (dispatch (F := Int) (.array (words.map .bytes)) (some 0) (.plain, ⟨0, 0⟩) (.init 0 none ∅ fun _ => true)).1

/-- CONFIG SET of an unknown parameter is one value, and the command could have quoted a CRLF. -/
theorem reply_respValue_iff_config : RespValue (errFrame (bs "Unknown option or number of arguments for CONFIG SET - 'x'")) ↔
    ¬Garbled (.init 0 none ∅ fun _ => true : Server Int) (some 0) (.ofWords [bs "CONFIG", bs "SET", bs "x", bs "y"]) :=
  reply_respValue_iff [bs "CONFIG", bs "SET", bs "x", bs "y"] (some 0) (.plain, ⟨0, 0⟩) _ _ (by decide)
    (by decide)

/-- A fresh server answers one request with an error line that ends in the middle of the name and is followed by another reply. -/
theorem reply_not_respValue : ∃ frame, firstReply [bs "FOO\r\n+OK"] = .ok (some frame) ∧ ¬RespValue frame := by
  refine ⟨bs "-ERR unknown command 'FOO\r\n+OK', with args beginning with: \r\n", by decide, fun h => ?_⟩
  have hq : _unknown_command_frame ⟨bs "FOO\r\n+OK", []⟩ =
      some (bs "-ERR unknown command 'FOO\r\n+OK', with args beginning with: \r\n") := by decide
  exact absurd ((respValue_unknown_iff hq).1 h).1 (by decide)

end Kagni
