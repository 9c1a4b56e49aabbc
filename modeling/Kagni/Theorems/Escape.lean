import Kagni.Lemmas.Subscriptions

/-!
# When an exception escapes

`dispatch` is meant never to raise. It raises exactly when it builds a text or a reply outside of its `try` from something that is
no byte string: the summary of an unknown command, the gate label of a subcommand, the PING of subscribed mode, or what PUBSUB
returns; or when EXEC replays a command that does.
-/

namespace Kagni

open Lib Lib.Prog

variable {F : Type}

/-! ## The requests that raise -/

/-- An argument of an unknown command is no byte string, and the reply quotes it. -/
def UnknownCrashes (q : Request) : Prop := Unknown q ∧ ∃ arg ∈ q.args, ¬arg.IsBytes

/-- PUBSUB lists a name that cannot be encoded: a channel someone is subscribed to, or one it was asked about. -/
def PubsubCrashes (channels : List Value) (args : List Value) : Prop :=
  ∃ sub rest, args = .bytes sub :: rest ∧
    (upper sub = bs "CHANNELS" ∧ (rest = [] ∨ rest = [.null]) ∧ (∃ name ∈ channels, name.Unencodable) ∨
      upper sub = bs "NUMSUB" ∧ (∀ name ∈ rest, name.hashable = true) ∧ ∃ name ∈ rest, name.Unencodable)

/-- The request is stopped at the gate. -/
def Gated (c : Cmd) (subscribed bypass_gate : Bool) : Prop :=
  bypass_gate = false ∧ subscribed = true ∧ c ∉ _ALLOWED_WHILE_SUBSCRIBED

/-- A request outside of a transaction, or replayed by EXEC, raises. -/
def DirectCrashes (q : Request) (subscribed bypass_gate : Bool) (channels : List Value) : Prop :=
  UnknownCrashes q ∨ ∃ c, Cmd.ofName q.name = some c ∧ c.Accepts q.args.length ∧
    (Gated c subscribed bypass_gate ∧ c ∈ quotingCommands ∧ (∃ sub rest, q.args = sub :: rest ∧ ¬sub.IsBytes) ∨
      c = .PING ∧ subscribed = true ∧ (∃ message rest, q.args = message :: rest ∧ message.Unencodable) ∨
      c = .PUBSUB ∧ ¬Gated c subscribed bypass_gate ∧ PubsubCrashes channels q.args)

/-- A command of the queue raises, under the subscriptions the commands before it leave. -/
def ReplayCrashes (session : SessionId) : List Request → Subs → Prop
  | [], _ => False
  | q :: queue, p => DirectCrashes q p.subscribed true p.hub.channels.keys ∨ ReplayCrashes session queue (p.after session q)

/-- The message raises. -/
def Escapes (s : Server F) (now : Int) (state : Option SessionId) (message : Value) : Prop :=
  ∃ command args, message = .array (.bytes command :: args) ∧
    if s.inMulti state then
      UnknownCrashes ⟨command, args⟩ ∨ Request.name ⟨command, args⟩ = bs "EXEC" ∧
        ∃ session, state = some session ∧ ¬(s.sessions session).dirty s.data.toStore now ∧
          ReplayCrashes session (s.sessions session).queue (s.subs session)
    else DirectCrashes ⟨command, args⟩ (s.subscribed state) false s.hub.channels.keys

/-! ## The texts -/

theorem argSummary_eq_none_iff (args : List Value) : argSummary args = none ↔ ∃ arg ∈ args, ¬arg.IsBytes := by
  induction args with
  | nil => simp [argSummary]
  | cons arg args ih =>
    rw [argSummary, List.exists_mem_cons_iff, ← ih]
    cases arg <;> cases argSummary args <;> simp [quoteArg, Value.IsBytes]

theorem unknown_frame_eq_none_iff (q : Request) : _unknown_command_frame q = none ↔ ∃ arg ∈ q.args, ¬arg.IsBytes := by
  rw [_unknown_command_frame, Option.map_eq_none_iff, argSummary_eq_none_iff]

theorem gateFrame_eq_none_iff (q : Request) :
    gateFrame q = none ↔ q.name ∈ _SUBCOMMAND_COMMANDS ∧ ∃ sub rest, q.args = sub :: rest ∧ ¬sub.IsBytes := by
  rw [gateFrame, Option.map_eq_none_iff, _gate_label]
  cases q.args with
  | nil => simp
  | cons sub rest =>
    by_cases h : q.name ∈ _SUBCOMMAND_COMMANDS
    · cases sub <;> simp [h, Value.IsBytes]
    · simp [h]

theorem pongFrame_eq_none_iff (q : Request) :
    pongFrame q = none ↔ ∃ message rest, q.args = message :: rest ∧ message.Unencodable := by
  rw [pongFrame, protocolBuilder_list_eq_none_iff]
  cases q.args with
  | nil => simp [Reply.ofValue]
  | cons message rest => simp [Value.Unencodable]

/-! ## PUBSUB -/

theorem sessionFrame_eq_error_iff (out : Except (Exc Error) (Option Reply)) :
    sessionFrame out = .error () ↔ ∃ value, out = .ok (some value) ∧ protocolBuilder value = none := by
  unfold sessionFrame
  split
  · simp
  · rename_i value
    cases hb : protocolBuilder value <;> simp [hb]
  · simp

theorem protocolBuilder_values_eq_none_iff (values : List Value) :
    protocolBuilder (.values values) = none ↔ ∃ v ∈ values, v.Unencodable := by
  rw [Reply.values, Reply.ofValues_eq_map, protocolBuilder_list_eq_none_iff]
  simp [Value.Unencodable]

/-- The outcome of a keyspace program that is run on the server. -/
theorem liftK_out {α : Type} (m : K F α) (r : Env × Clock) (s : Server F) :
    (liftK m r s).1 = match (m (s.ctx r.1 r.2) s.kstate).1 with
      | .ok a => .ok a
      | .error e => .error e.toError := by
  unfold liftK
  cases m (s.ctx r.1 r.2) s.kstate with
  | mk out k => cases out <;> rfl

/-- What a keyspace program returns is part of the reply. -/
theorem bind_liftK_out {α : Type} (m : K F α) (f : α → Option Reply) (r : Env × Clock) (s : Server F) (value : Reply) :
    ((liftK m >>= fun a => pure (f a) : M F _) r s).1 = .ok (some value) ↔
      ∃ a, (m (s.ctx r.1 r.2) s.kstate).1 = .ok a ∧ f a = some value := by
  rw [bind_run]
  have h := liftK_out m r s
  revert h
  cases liftK m r s with
  | mk out s' =>
    cases (m (s.ctx r.1 r.2) s.kstate).1 with
    | ok a =>
      rintro rfl
      simp
    | error e =>
      rintro rfl
      simp

theorem ends_matches (matcher : Bytes → Bool) (values : List Value) :
    Ends (fun kept : List Value => ∀ v ∈ kept, v.IsBytes) (fun _ => True) (filterM_ (matches_ matcher) values : K F _) := by
  induction values with
  | nil => exact .pure nofun
  | cons v values ih =>
    have hv : Ends (fun _ => v.IsBytes) (fun _ => True) (matches_ matcher v : K F Bool) := by
      cases v <;> first | exact .pure trivial | exact .raise trivial
    refine .bind hv ?_
    intro keep hb
    refine .bind ih ?_
    intro rest hrest
    refine .pure ?_
    split
    · exact List.forall_mem_cons.2 ⟨hb, hrest⟩
    · exact hrest

/-- With a pattern PUBSUB CHANNELS lists byte strings only: another channel would be a `TypeError` of the match. -/
theorem ends_active_channels {pattern : Value} (h : pattern ≠ .null) :
    Ends (fun names : List Value => ∀ v ∈ names, v.IsBytes) (fun _ => True) (active_channels (some pattern) : K F _) := by
  have hcompile : Ends (· ≠ none) (fun _ => True) (compilePattern (some pattern) : K F _) := by
    have hglob : Ends (fun _ => True) (fun _ => True) (compile_glob pattern : K F _) := fun r s => by
      cases compile_glob pattern r s with
      | mk out s' => cases out <;> trivial
    cases pattern with
    | null => exact absurd rfl h
    | _ => exact .bind hglob fun _ _ => .pure nofun
  refine .bind .ask ?_
  intro ctx _
  refine .bind hcompile ?_
  intro matcher hm
  cases matcher with
  | none => exact absurd rfl hm
  | some matcher => exact ends_matches matcher _

theorem each_needHash_out (names : List Value) (ctx : Ctx) (k : KState F) :
    Prog.each needHash names ctx k = (if ∀ name ∈ names, name.hashable = true then .ok () else .error .other, k) := by
  induction names with
  | nil => rfl
  | cons name names ih =>
    rw [each_cons, needHash, bind_run]
    cases hh : name.hashable with
    | false => simp [hh, fail]
    | true => simp [hh, ih]

theorem not_unencodable_of_isBytes {v : Value} (h : v.IsBytes) : ¬v.Unencodable := by
  obtain ⟨b, rfl⟩ := (Value.isBytes_iff v).1 h
  exact protocolBuilder_bytes_ne_none b

theorem pubsub_channels_iff (rest : List Value) (r : Env × Clock) (s : Server F) :
    (∃ value, ((match rest with
      | [] => do return some (.values (← liftK (active_channels none)))
      | [pattern] => do return some (.values (← liftK (active_channels (some pattern))))
      | _ => liftK (throw_ .SYNTAX) : M F (Option Reply)) r s).1 = .ok (some value) ∧ protocolBuilder value = none) ↔
      (rest = [] ∨ rest = [.null]) ∧ ∃ name ∈ s.hub.channels.keys, name.Unencodable := by
  have hall : ∀ pattern : Option Value, (active_channels pattern (s.ctx r.1 r.2) s.kstate).1 = .ok s.hub.channels.keys →
      ((∃ value, ((liftK (active_channels pattern) >>= fun names => pure (some (.values names)) : M F (Option Reply)) r s).1 =
        .ok (some value) ∧ protocolBuilder value = none) ↔ ∃ name ∈ s.hub.channels.keys, name.Unencodable) := by
    intro pattern h
    simp only [bind_liftK_out, h, ← protocolBuilder_values_eq_none_iff]
    simp
  split
  · rw [hall none rfl]
    simp
  · rename_i pattern
    by_cases hp : pattern = .null
    · subst hp
      rw [hall (some .null) rfl]
      simp
    · refine iff_of_false ?_ fun h => ?_
      · rintro ⟨value, hv, hb⟩
        obtain ⟨names, hn, hvalue⟩ := (bind_liftK_out ..).1 hv
        obtain rfl := Option.some.inj hvalue
        obtain ⟨name, hmem, hname⟩ := (protocolBuilder_values_eq_none_iff names).1 hb
        exact not_unencodable_of_isBytes ((ends_active_channels hp).ok (Prod.ext hn rfl) name hmem) hname
      · obtain h | h := h.1
        · cases h
        · exact hp (List.singleton_inj.1 h)
  · rename_i hnil hone
    refine iff_of_false ?_ fun h => ?_
    · rintro ⟨value, hv, -⟩
      cases hv
    · obtain rfl | rfl := h.1
      · exact hnil rfl
      · exact hone _ rfl

theorem pubsub_numsub_iff (rest : List Value) (r : Env × Clock) (s : Server F) :
    (∃ value, ((do return some (← liftK (numsubs rest)) : M F (Option Reply)) r s).1 = .ok (some value) ∧
      protocolBuilder value = none) ↔ (∀ name ∈ rest, name.hashable = true) ∧ ∃ name ∈ rest, name.Unencodable := by
  have hrun : (numsubs rest (s.ctx r.1 r.2) s.kstate).1 = if ∀ name ∈ rest, name.hashable = true then
      .ok (.list (rest.flatMap fun c => [.ofValue c, .int (s.hub.numsub c)])) else .error .other := by
    unfold numsubs
    rw [bind_run, each_needHash_out]
    by_cases h : ∀ name ∈ rest, name.hashable = true
    · rw [if_pos h, if_pos h]
      rfl
    · rw [if_neg h, if_neg h]
  have hencode : protocolBuilder (.list (rest.flatMap fun c => [.ofValue c, .int (s.hub.numsub c)])) = none ↔
      ∃ name ∈ rest, name.Unencodable := by
    rw [protocolBuilder_list_eq_none_iff]
    constructor
    · rintro ⟨item, hitem, hb⟩
      obtain ⟨name, hname, hitem⟩ := List.mem_flatMap.1 hitem
      rcases List.mem_cons.1 hitem with rfl | hitem
      · exact ⟨name, hname, hb⟩
      · rw [List.mem_singleton.1 hitem] at hb
        exact absurd hb (protocolBuilder_int_ne_none _)
    · rintro ⟨name, hname, hb⟩
      exact ⟨_, List.mem_flatMap.2 ⟨name, hname, List.mem_cons_self ..⟩, hb⟩
  by_cases h : ∀ name ∈ rest, name.hashable = true
  · have hout := hrun.trans (if_pos h)
    simp only [bind_liftK_out, hout, Except.ok.injEq, exists_eq_left', Option.some.injEq, hencode, and_iff_right h]
  · have hout := hrun.trans (if_neg h)
    simp only [bind_liftK_out, hout, reduceCtorEq, false_and, exists_false, h]

/-- PUBSUB is encoded after its `try`. -/
theorem pubsub_crashes_iff (args : List Value) (r : Env × Clock) (s : Server F) :
    (runSession (PUBSUB args) r s).1 = .error () ↔ PubsubCrashes s.hub.channels.keys args := by
  rw [runSession_run]
  dsimp only
  rw [sessionFrame_eq_error_iff]
  have hnot : ∀ e, (PUBSUB args r s).1 = .error e → (∀ sub rest, args ≠ .bytes sub :: rest) →
      ((∃ value, (PUBSUB args r s).1 = .ok (some value) ∧ protocolBuilder value = none) ↔
        PubsubCrashes s.hub.channels.keys args) := by
    intro e he hargs
    refine iff_of_false ?_ ?_
    · rintro ⟨value, hv, -⟩
      rw [he] at hv
      cases hv
    · rintro ⟨sub, rest, h, -⟩
      exact hargs sub rest h
  cases args with
  | nil => exact hnot _ rfl nofun
  | cons sub rest =>
    cases sub with
    | bytes sub =>
      have hcrash : PubsubCrashes s.hub.channels.keys (.bytes sub :: rest) ↔
          (upper sub = bs "CHANNELS" ∧ (rest = [] ∨ rest = [.null]) ∧ (∃ name ∈ s.hub.channels.keys, name.Unencodable) ∨
            upper sub = bs "NUMSUB" ∧ (∀ name ∈ rest, name.hashable = true) ∧ ∃ name ∈ rest, name.Unencodable) := by
        refine ⟨?_, fun h => ⟨sub, rest, rfl, h⟩⟩
        rintro ⟨sub', rest', h, h'⟩
        cases h
        exact h'
      rw [hcrash]
      unfold PUBSUB
      dsimp only
      rw [bind_ok r s (liftK_asBytes sub r s)]
      by_cases hchannels : upper sub = bs "CHANNELS"
      · rw [if_pos hchannels]
        refine (pubsub_channels_iff rest r s).trans ?_
        have hnumsub : ¬(upper sub = bs "NUMSUB") := by
          rw [hchannels]
          decide
        exact ⟨fun h => .inl ⟨hchannels, h⟩, fun h => h.elim And.right fun h => absurd h.1 hnumsub⟩
      · rw [if_neg hchannels]
        by_cases hnumsub : upper sub = bs "NUMSUB"
        · rw [if_pos hnumsub]
          refine (pubsub_numsub_iff rest r s).trans ?_
          exact ⟨fun h => .inr ⟨hnumsub, h⟩, fun h => h.elim (fun h => absurd h.1 hchannels) And.right⟩
        · rw [if_neg hnumsub]
          refine iff_of_false ?_ (not_or.2 ⟨fun h => hchannels h.1, fun h => hnumsub h.1⟩)
          rintro ⟨value, hv, hb⟩
          split at hv
          · cases hv
            exact protocolBuilder_int_ne_none _ hb
          · cases hv
    | _ => exact hnot _ rfl nofun

/-! ## Dispatch -/

theorem answer_error_iff (frame : Option Bytes) (r : Env × Clock) (s : Server F) :
    (answer frame r s).1 = .error () ↔ frame = none := by
  cases frame <;> simp [answer, escape]

theorem runDecorated_ne_error (m : M F Reply) (r : Env × Clock) (s : Server F) : (runDecorated m r s).1 ≠ .error () := by
  rw [runDecorated_run]
  nofun

/-- A session method whose values can be encoded. -/
theorem runSession_ne_error {m : M F (Option Reply)} {Q : Option Reply → Prop} {E : Exc Error → Prop} (hm : Ends Q E m)
    (hq : ∀ value, Q (some value) → protocolBuilder value ≠ none) (r : Env × Clock) (s : Server F) :
    (runSession m r s).1 ≠ .error () := by
  rw [runSession_run]
  intro h
  obtain ⟨value, hv, hb⟩ := (sessionFrame_eq_error_iff _).1 h
  exact hq value (hm.ok (Prod.ext hv rfl)) hb

variable [PyFloat F]

/-- Of the commands that are run, only PUBSUB raises. -/
theorem runHandler_error_iff (c : Cmd) (args : List Value) (state : Option SessionId) (r : Env × Clock) (s : Server F) :
    (runHandler (handler c) state args r s).1 = .error () ↔ c = .PUBSUB ∧ PubsubCrashes s.hub.channels.keys args := by
  by_cases hc : c = .PUBSUB
  · subst hc
    exact (pubsub_crashes_iff args r s).trans (and_iff_right rfl).symm
  · refine iff_of_false ?_ fun h => hc h.1
    obtain ⟨method, hm⟩ | hs := handler_cases (F := F) c
    · rw [hm]
      exact runDecorated_ne_error _ r s
    · simp only [serverCommands, List.mem_cons, List.not_mem_nil, or_false] at hs
      rcases hs with rfl | rfl | rfl | rfl | rfl | rfl | rfl | rfl | rfl | rfl | rfl | rfl | rfl
      · exact runSession_ne_error (ends_WATCH state args) (fun value h => by cases h; exact Option.some_ne_none _) r s
      · exact runSession_ne_error (ends_UNWATCH state args) (fun value h => by cases h; exact Option.some_ne_none _) r s
      · exact runDecorated_ne_error _ r s
      · exact runDecorated_ne_error _ r s
      · exact runDecorated_ne_error _ r s
      · exact runDecorated_ne_error _ r s
      · exact runDecorated_ne_error _ r s
      · exact runSession_ne_error (ends_subscribeAll _ _ state args) (fun value h => by cases h) r s
      · exact runSession_ne_error (ends_unsubscribeAll _ _ state args) (fun value h => by cases h) r s
      · exact runSession_ne_error (ends_subscribeAll _ _ state args) (fun value h => by cases h) r s
      · exact runSession_ne_error (ends_unsubscribeAll _ _ state args) (fun value h => by cases h) r s
      · refine runSession_ne_error (ends_PUBLISH args) (fun value h => ?_) r s
        obtain ⟨n, hn⟩ := h
        cases hn
        exact Option.some_ne_none _
      · exact absurd rfl hc

/-- A request that is handled at once raises exactly when it is one of those. -/
theorem direct_error_iff (q : Request) (state : Option SessionId) (bypass_gate : Bool) (r : Env × Clock) (s : Server F) :
    (_dispatch_direct q state bypass_gate r s).1 = .error () ↔
      DirectCrashes q (s.subscribed state) bypass_gate s.hub.channels.keys := by
  rw [_dispatch_direct_eq]
  -- a word of a transaction is no unknown command, and no command
  have hword : (q.name = bs "MULTI" ∨ q.name = bs "EXEC" ∨ q.name = bs "DISCARD") →
      ¬DirectCrashes q (s.subscribed state) bypass_gate s.hub.channels.keys := by
    rintro hname (⟨hu, -⟩ | ⟨c, hc, -⟩)
    · exact hname.elim hu.1 (Or.elim · hu.2.1 hu.2.2.1)
    · rw [ofName_words hname] at hc
      cases hc
  unfold directRoute
  dsimp only
  split_ifs with hgate hmulti hexec hsub hdiscard
  · dsimp only
    rw [answer_error_iff, gateFrame_eq_none_iff]
    exact iff_of_false (fun h => not_subcommand_of_words hgate.2.2 h.1) (hword (hgate.2.2.imp_right .inr))
  · refine iff_of_false ?_ (hword (.inl hmulti))
    cases state <;> nofun
  · exact iff_of_false nofun (hword (.inr (.inl hexec)))
  · exact iff_of_false nofun (hword (.inr (.inl hexec)))
  · exact iff_of_false nofun (hword (.inr (.inr hdiscard)))
  · cases hc : Cmd.ofName q.name with
    | none =>
      dsimp only
      rw [answer_error_iff, unknown_frame_eq_none_iff]
      refine ⟨fun h => .inl ⟨⟨hmulti, hexec, hdiscard, hc⟩, h⟩, ?_⟩
      rintro (⟨-, h⟩ | ⟨c, hc', -⟩)
      · exact h
      · rw [hc] at hc'
        cases hc'
    | some c =>
      dsimp only
      have hcrash : DirectCrashes q (s.subscribed state) bypass_gate s.hub.channels.keys ↔ c.Accepts q.args.length ∧
          (Gated c (s.subscribed state) bypass_gate ∧ c ∈ quotingCommands ∧ (∃ sub rest, q.args = sub :: rest ∧ ¬sub.IsBytes) ∨
            c = .PING ∧ s.subscribed state = true ∧ (∃ message rest, q.args = message :: rest ∧ message.Unencodable) ∨
            c = .PUBSUB ∧ ¬Gated c (s.subscribed state) bypass_gate ∧ PubsubCrashes s.hub.channels.keys q.args) := by
        refine ⟨?_, fun h => .inr ⟨c, hc, h⟩⟩
        rintro (⟨hu, -⟩ | ⟨c', hc', h⟩)
        · rw [hu.2.2.2] at hc
          cases hc
        · rw [hc] at hc'
          cases hc'
          exact h
      rw [hcrash]
      split_ifs with hacc hallowed hping
      · have hg : Gated c (s.subscribed state) bypass_gate := ⟨by simpa using hallowed.1, hallowed.2⟩
        have hping : c ≠ .PING := fun e => hallowed.2.2 (by rw [e]; decide)
        dsimp only
        rw [answer_error_iff, gateFrame_eq_none_iff, mem_subcommand_iff hc]
        refine ⟨fun h => ⟨hacc, .inl ⟨hg, h⟩⟩, ?_⟩
        rintro ⟨-, ⟨-, h⟩ | ⟨h, -⟩ | ⟨-, h, -⟩⟩
        · exact h
        · exact absurd h hping
        · exact absurd hg h
      · obtain ⟨hsub, rfl⟩ := hping
        dsimp only
        rw [answer_error_iff, pongFrame_eq_none_iff]
        refine ⟨fun h => ⟨hacc, .inr (.inl ⟨rfl, hsub, h⟩)⟩, ?_⟩
        rintro ⟨-, ⟨-, h, -⟩ | ⟨-, -, h⟩ | ⟨h, -⟩⟩
        · exact absurd h (by decide)
        · exact h
        · cases h
      · have hg : ¬Gated c (s.subscribed state) bypass_gate := fun h => hallowed ⟨by simpa using h.1, h.2⟩
        refine (runHandler_error_iff c q.args state r s).trans ⟨fun h => ⟨hacc, .inr (.inr ⟨h.1, hg, h.2⟩)⟩, ?_⟩
        rintro ⟨-, ⟨h, -⟩ | ⟨h, h', -⟩ | ⟨h, -, h'⟩⟩
        · exact absurd h hg
        · exact absurd ⟨h', h⟩ hping
        · exact ⟨h, h'⟩
      · exact iff_of_false nofun fun h => hacc h.1

/-! ## EXEC -/

theorem replayOne_error_iff (i : SessionId) (q : Request) (r : Env × Clock) (s : Server F) :
    (replayOne i q r s).1 = .error () ↔ DirectCrashes q (s.subs i).subscribed true (s.subs i).hub.channels.keys := by
  have hstart := update_subs s i (f := fun st => { st with sender := some .collector, collected := [] }) fun _ => rfl
  rw [← hstart, subscribed_subs]
  refine Iff.trans ?_ (direct_error_iff q (some i) true r _)
  rw [replayOne_run]
  dsimp only
  cases (_dispatch_direct q (some i) true r (s.update i fun st => { st with sender := some .collector, collected := [] })).1
    <;> simp

/-- A replayed command that has no reply has pushed a frame. -/
theorem replayOne_none {i : SessionId} {q : Request} {r : Env × Clock} {s s' : Server F} {collected : List Bytes}
    (h : replayOne i q r s = (.ok (none, collected), s')) : collected ≠ [] := by
  rw [replayOne_run] at h
  dsimp only at h
  cases hrun : _dispatch_direct q (some i) true r
    (s.update i fun st => { st with sender := some .collector, collected := [] }) with
  | mk out t =>
    rw [hrun] at h
    cases out with
    | error e => cases h
    | ok frame =>
      cases h
      refine direct_none_collected ?_ hrun
      rw [Server.update_sessions_self]

theorem joinParts_cons_ne_none (part : Bytes) {parts : List (Option Bytes)} (h : joinParts parts ≠ none) :
    joinParts (some part :: parts) ≠ none := by
  obtain ⟨body, hb⟩ := Option.ne_none_iff_exists'.1 h
  have hjoin : joinParts (some part :: parts) = some (part ++ body) := by
    unfold joinParts
    rw [hb]
  rw [hjoin]
  nofun

/-- The replay raises exactly when one of its commands does, and otherwise every part is there. -/
theorem replay_error_iff (i : SessionId) (queue : List Request) (r : Env × Clock) (s : Server F) :
    ((replay i queue r s).1 = .error () ↔ ReplayCrashes i queue (s.subs i)) ∧
      ∀ parts trailing, (replay i queue r s).1 = .ok (parts, trailing) → joinParts parts ≠ none := by
  induction queue generalizing s with
  | nil => exact ⟨iff_of_false nofun id, fun parts trailing h => by cases h; nofun⟩
  | cons q queue ih =>
    have hone := replayOne_error_iff i q r s
    have hsubs := replayOne_subs i q r s
    rw [ReplayCrashes, ← hone, ← hsubs]
    unfold replay
    cases hq : replayOne i q r s with
    | mk out t =>
      cases out with
      | error e =>
        rw [bind_error r s hq]
        exact ⟨iff_of_true rfl (.inl rfl), nofun⟩
      | ok one =>
        obtain ⟨frame, collected⟩ := one
        rw [bind_ok r s hq]
        dsimp only
        obtain ⟨herror, hparts⟩ := ih t
        cases hrest : replay i queue r t with
        | mk out' t' =>
          rw [hrest] at herror hparts
          cases out' with
          | error e =>
            rw [bind_error r t hrest]
            exact ⟨iff_of_true rfl (.inr (herror.1 rfl)), nofun⟩
          | ok rest =>
            rw [bind_ok r t hrest]
            have hno : ¬ReplayCrashes i queue (t.subs i) := fun h => by cases herror.2 h
            have hjoin := hparts rest.1 rest.2 rfl
            cases collected with
            | nil =>
              refine ⟨iff_of_false nofun (not_or.2 ⟨nofun, hno⟩), fun parts trailing h => ?_⟩
              cases h
              cases frame with
              | none => exact absurd rfl (replayOne_none hq)
              | some frame =>
                exact joinParts_cons_ne_none frame hjoin
            | cons first others =>
              refine ⟨iff_of_false nofun (not_or.2 ⟨nofun, hno⟩), fun parts trailing h => ?_⟩
              cases h
              exact joinParts_cons_ne_none first hjoin

theorem exec_error_iff (i : SessionId) (r : Env × Clock) (s : Server F) :
    (exec i r s).1 = .error () ↔ ¬(s.sessions i).dirty s.data.toStore r.2.mono ∧
      ReplayCrashes i (s.sessions i).queue (s.subs i) := by
  rw [exec_run]
  split_ifs with hdirty hqueue
  · exact iff_of_false nofun fun h => h.1 hdirty
  · rw [hqueue]
    exact iff_of_false nofun fun h => h.2
  · rw [and_iff_right hdirty, ← update_subs s i (f := fun st => { st with queue := [], in_multi := false, watched := ∅ })
      fun _ => rfl]
    obtain ⟨herror, hparts⟩ := replay_error_iff i (s.sessions i).queue r
      (s.update i fun st => { st with queue := [], in_multi := false, watched := ∅ })
    rw [← herror]
    cases hrun : replay i (s.sessions i).queue r
      (s.update i fun st => { st with queue := [], in_multi := false, watched := ∅ }) with
    | mk out t =>
      rw [hrun] at hparts
      cases out with
      | error e =>
        rw [bind_error _ _ hrun]
        exact iff_of_true rfl rfl
      | ok rest =>
        rw [bind_ok _ _ hrun]
        refine iff_of_false ?_ nofun
        cases hbody : joinParts rest.1 with
        | none => exact absurd hbody (hparts rest.1 rest.2 rfl)
        | some body => nofun

/-- The queue of a transaction is only extended by commands that have been checked. -/
theorem queued_error_iff (i : SessionId) (q : Request) (r : Env × Clock) (s : Server F) :
    (_dispatch_queued i q r s).1 = .error () ↔ UnknownCrashes q ∨ q.name = bs "EXEC" ∧
      ¬(s.sessions i).dirty s.data.toStore r.2.mono ∧ ReplayCrashes i (s.sessions i).queue (s.subs i) := by
  rw [_dispatch_queued_eq]
  unfold queuedRoute
  dsimp only
  split_ifs with hexec hdiscard hmulti hwatch
  · refine (exec_error_iff i r s).trans ⟨fun h => .inr ⟨hexec, h⟩, ?_⟩
    rintro (⟨hu, -⟩ | ⟨-, h⟩)
    · exact absurd hexec hu.2.1
    · exact h
  · exact iff_of_false nofun fun h => h.elim (fun h => h.1.2.2.1 hdiscard) fun h => hexec h.1
  · exact iff_of_false nofun fun h => h.elim (fun h => h.1.1 hmulti) fun h => hexec h.1
  · refine iff_of_false nofun fun h => h.elim (fun h => ?_) fun h => hexec h.1
    have hnone := h.1.2.2.2
    rw [hwatch] at hnone
    exact absurd hnone (by decide)
  · cases hc : Cmd.ofName q.name with
    | none =>
      dsimp only
      rw [answer_error_iff, unknown_frame_eq_none_iff]
      exact ⟨fun h => .inl ⟨⟨hmulti, hexec, hdiscard, hc⟩, h⟩, fun h => h.elim And.right fun h => absurd h.1 hexec⟩
    | some c =>
      have hno : ¬(UnknownCrashes q ∨ q.name = bs "EXEC" ∧
          ¬(s.sessions i).dirty s.data.toStore r.2.mono ∧ ReplayCrashes i (s.sessions i).queue (s.subs i)) := by
        rintro (⟨hu, -⟩ | ⟨h, -⟩)
        · rw [hu.2.2.2] at hc
          cases hc
        · exact hexec h
      dsimp only
      split_ifs
      · exact iff_of_false nofun hno
      · exact iff_of_false nofun hno

/-- `dispatch` returns a byte string or nothing exactly when the message is none of those that raise. -/
theorem dispatch_returns_iff (message : Value) (state : Option SessionId) (env : Env) (clock : Clock) (s : Server F) :
    (∃ reply, (dispatch message state (env, clock) s).1 = .ok reply) ↔ ¬Escapes s clock.mono state message := by
  have hout : (∃ reply, (dispatch message state (env, clock) s).1 = .ok reply) ↔
      ¬(dispatch message state (env, clock) s).1 = .error () := by
    cases (dispatch message state (env, clock) s).1 <;> simp
  rw [hout, not_iff_not]
  have hother : ∀ message : Value, (∀ command args, message ≠ .array (.bytes command :: args)) →
      (dispatch message state (env, clock) s).1 ≠ .error () ∧ ¬Escapes s clock.mono state message := by
    intro message h
    refine ⟨?_, fun ⟨command, args, h', _⟩ => h command args h'⟩
    unfold dispatch
    split
    · exact absurd rfl (h _ _)
    · nofun
    · nofun
  have hno := hother message
  match message with
  | .array (.bytes command :: args) =>
    have hescapes : Escapes s clock.mono state (.array (.bytes command :: args)) ↔ if s.inMulti state then
        UnknownCrashes ⟨command, args⟩ ∨ Request.name ⟨command, args⟩ = bs "EXEC" ∧
          ∃ session, state = some session ∧ ¬(s.sessions session).dirty s.data.toStore clock.mono ∧
            ReplayCrashes session (s.sessions session).queue (s.subs session)
        else DirectCrashes ⟨command, args⟩ (s.subscribed state) false s.hub.channels.keys := by
      refine ⟨?_, fun h => ⟨command, args, rfl, h⟩⟩
      rintro ⟨command', args', h, h'⟩
      cases h
      exact h'
    rw [hescapes]
    cases hm : s.inMulti state with
    | false =>
      rw [dispatch_direct _ hm, direct_error_iff]
      simp
    | true =>
      cases state with
      | none => cases hm
      | some i =>
        rw [dispatch_queued _ hm, queued_error_iff]
        simp
  | .array [] => exact iff_of_false (hno nofun).1 (hno nofun).2
  | .array (.int _ :: _) => exact iff_of_false (hno nofun).1 (hno nofun).2
  | .array (.null :: _) => exact iff_of_false (hno nofun).1 (hno nofun).2
  | .array (.array _ :: _) => exact iff_of_false (hno nofun).1 (hno nofun).2
  | .bytes _ => exact iff_of_false (hno nofun).1 (hno nofun).2
  | .int _ => exact iff_of_false (hno nofun).1 (hno nofun).2
  | .null => exact iff_of_false (hno nofun).1 (hno nofun).2

/-- An unknown command with an integer argument kills the connection it comes from. -/
theorem dispatch_raises : ∃ s : Server Int, s.Reachable .plain ∧
    ¬∃ reply, (dispatch (.array [.bytes (bs "FOO"), .int 1]) (some 0) (.plain, ⟨0, 0⟩) s).1 = .ok reply := by
  refine ⟨.init 0 none ∅ fun _ => true, ⟨0, none, ∅, fun _ => true, [], rfl⟩, fun h => ?_⟩
  have hraise : ((dispatch (F := Int) (.array [.bytes (bs "FOO"), .int 1]) (some 0) (.plain, ⟨0, 0⟩)
      (.init 0 none ∅ fun _ => true)).1.toBool) = false := by decide
  obtain ⟨reply, hreply⟩ := h
  rw [hreply] at hraise
  cases hraise

end Kagni
