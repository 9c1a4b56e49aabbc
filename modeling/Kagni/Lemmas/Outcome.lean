import Kagni.Lemmas.Dispatch
import Kagni.Lemmas.Frame

/-!
# What the methods return and raise

A keyspace command raises only errors that are one line. The methods that work on more than the keyspace are gone through one by
one: what the session methods return can be encoded, except for what PUBSUB returns, and an error is one line unless COMMAND,
CLIENT, CONFIG or PUBSUB quotes a CRLF of the client in it.
-/

namespace Kagni

open Lib Lib.Prog

variable {F : Type} {α : Type}

/-- The reply the exception becomes is one line. -/
def CleanExc : Exc Error → Prop
  | .error e => CrlfFree e.text
  | .other => True

theorem crlfFree_err_iff (msg : Text) : CrlfFree (Errors.err msg).text ↔ CrlfFree msg := by
  change CrlfFree (bs "ERR" ++ if msg = [] then [] else 32 :: msg) ↔ CrlfFree msg
  by_cases h : msg = []
  · subst h
    decide
  · rw [if_neg h, show bs "ERR" ++ 32 :: msg = bs "ERR " ++ msg from rfl]
    exact crlfFree_noCr_append (by decide)

theorem respValue_errFrame_iff (msg : Text) : RespValue (errFrame msg) ↔ CrlfFree msg := by
  rw [errFrame, respValue_frame_iff, crlfFree_err_iff]

theorem respValue_onExc_iff (e : Exc Error) : RespValue (onExc e) ↔ CleanExc e := by
  cases e with
  | error e => exact respValue_frame_iff e
  | other =>
    rw [onExc, respValue_errFrame_iff]
    exact iff_of_true (by decide) trivial

/-- A keyspace program raises no error with a CRLF in it. -/
theorem ends_liftK {Q : α → Prop} {m : K F α} (hm : Ends Q (fun _ => True) m) : Ends Q CleanExc (liftK m) := by
  intro r s
  have h := hm (s.ctx r.1 r.2) s.kstate
  unfold liftK
  split
  · rename_i a k hk
    rw [hk] at h
    exact h
  · rename_i e k hk
    cases e with
    | error e => exact e.crlfFree
    | other => trivial

theorem ends_liftK_true (m : K F α) : Ends (fun _ => True) CleanExc (liftK m) :=
  ends_liftK fun r s => by cases m r s with | mk out s' => cases out <;> trivial

/-- `asBytes` returns the bytes it was given. -/
theorem ends_asBytes (v : Value) : Ends (fun b => v = .bytes b) CleanExc (liftK (asBytes v) : M F Bytes) := by
  refine ends_liftK ?_
  intro r s
  cases v <;> first | exact rfl | trivial

theorem liftK_asBytes (b : Bytes) (r : Env × Clock) (s : Server F) : liftK (asBytes (.bytes b)) r s = (.ok b, s) := rfl

theorem ends_session (state : Option SessionId) : Ends (fun _ => True) CleanExc (_session state : M F SessionId) := by
  cases state with
  | none => exact .raise ((crlfFree_err_iff _).2 (by decide))
  | some i => exact .pure trivial

theorem ends_confirm (i : SessionId) (kind : Bytes) (name : Reply) :
    Ends (fun _ => True) CleanExc (confirm i kind name : M F Unit) := by
  refine .bind .get ?_
  intro s _
  dsimp only
  split
  · exact .modify
  · exact .raise trivial

theorem ends_WATCH (state : Option SessionId) (keys : List Value) : Ends (· = some .OK) CleanExc (WATCH state keys : M F _) := by
  refine .bind (ends_session state) ?_
  intro i _
  refine .bind (.each fun key _ => ?_) fun _ _ => .pure rfl
  refine .bind (ends_liftK_true _) ?_
  intro _ _
  exact .bind .ask fun _ _ => .modify

theorem ends_UNWATCH (state : Option SessionId) (args : List Value) :
    Ends (· = some .OK) CleanExc (UNWATCH state args : M F _) := by
  refine .ite (fun _ => .bind (.raise (Q := fun _ => True) trivial) fun _ _ => ?_) fun _ => ?_
  all_goals exact .bind (ends_session state) fun i _ => .bind .modify fun _ _ => .pure rfl

theorem ends_subscribeAll (topic : Topic) (kind : Bytes) (state : Option SessionId) (names : List Value) :
    Ends (· = none) CleanExc (subscribeAll topic kind state names : M F _) := by
  refine .bind (ends_session state) ?_
  intro i _
  refine .bind (.each fun name _ => ?_) fun _ _ => .pure rfl
  refine .bind (ends_liftK_true _) ?_
  intro _ _
  exact .bind .modify fun _ _ => ends_confirm i kind _

theorem ends_unsubscribeAll (topic : Topic) (kind : Bytes) (state : Option SessionId) (names : List Value) :
    Ends (· = none) CleanExc (unsubscribeAll topic kind state names : M F _) := by
  refine .bind (ends_session state) ?_
  intro i _
  refine .bind .get ?_
  intro s _
  have hwanted : ∀ wanted, Ends (· = none) CleanExc (do
      Prog.each (fun name => do
        liftK (needHash name)
        Prog.modify fun s =>
          { s.update i (·.withNames (·.erase name) topic) with hub := s.hub.unsubscribe topic i name }
        confirm i kind (.ofValue name)) wanted
      if names = [] ∧ ((s.sessions i).names topic).elems = [] then confirm i kind .NIL
      return none : M F (Option Reply)) := by
    intro wanted
    refine .bind (.each fun name _ => ?_) fun _ _ => ?_
    · refine .bind (ends_liftK_true _) ?_
      intro _ _
      exact .bind .modify fun _ _ => ends_confirm i kind _
    · exact .ite (fun _ => .bind (ends_confirm i kind _) fun _ _ => .pure rfl) fun _ => .pure rfl
  dsimp only
  cases names with
  | nil =>
    dsimp only
    split
    · exact hwanted _
    · exact .raise trivial
  | cons name names => exact hwanted _

theorem ends_PUBLISH (args : List Value) : Ends (fun v => ∃ n, v = some (.int n)) CleanExc (PUBLISH args : M F _) := by
  unfold PUBLISH
  split
  · exact .bind (ends_liftK_true _) fun n _ => .pure ⟨n, rfl⟩
  · exact .raise trivial

/-- A flush raises nothing, and with arguments only the `TypeError`. -/
theorem ends_flush {args : List Value} : Ends (fun _ => True) CleanExc (match args with
    | [] => _flush_all
    | _ => crash : M F Reply) := by
  split
  · refine .bind .modify ?_
    intro _ _
    exact .bind .modify fun _ _ => .pure trivial
  · exact .raise trivial

/-! ## Errors that quote the client -/

/-- A literal without CRLF is not a text with one. -/
theorem ne_of_not_crlfFree {b : Bytes} {lit : Bytes} (hl : CrlfFree lit) (h : ¬CrlfFree b) : upper b ≠ lit :=
  fun e => h ((crlfFree_upper b).1 (e ▸ hl))

/-- The text of an error that quotes `b`. -/
theorem crlfFree_quoting {pre post : Bytes} (b : Bytes) (hpre : NoCr pre) (hpost : NoCr post) (hhead : post.head? ≠ some 10) :
    CrlfFree (Errors.err (pre ++ decodeAscii b ++ post)).text ↔ CrlfFree b := by
  rw [crlfFree_err_iff, crlfFree_quote hpre hpost hhead, crlfFree_decodeAscii]

theorem unknownSubcommand_text {sub command : Bytes} (hc : NoCr command) :
    CrlfFree (Errors.err (bs "Unknown subcommand or wrong number of arguments for '" ++ decodeAscii (upper sub) ++ bs "'. Try " ++
      command ++ bs " HELP.")).text ↔ CrlfFree sub := by
  rw [List.append_assoc, List.append_assoc (_ ++ _), ← crlfFree_upper sub]
  refine crlfFree_quoting (upper sub) (by decide) ?_ ?_
  · exact noCr_append.2 ⟨by decide, noCr_append.2 ⟨hc, by decide⟩⟩
  · rw [List.head?_append_of_ne_nil _ (by decide)]
    decide

/-- What the methods that quote a subcommand do when there is a CRLF in it. -/
def Garbles (m : M F α) : Prop := ∀ r s, ∃ e, (m r s).1 = .error (.error e) ∧ ¬CrlfFree e.text

/-- The subcommand, if the first argument is a byte string. -/
def CleanSub (args : List Value) : Prop := ∀ sub rest, args = .bytes sub :: rest → CrlfFree sub

theorem ends_COMMAND {args : List Value} (h : CleanSub args) : Ends (fun _ => True) CleanExc (COMMAND args : M F _) := by
  unfold COMMAND
  split
  · exact .pure trivial
  · rename_i sub rest
    refine .bind (ends_asBytes sub) ?_
    intro raw hraw
    refine .ite (fun _ => .pure trivial) ?_
    intro _
    refine .ite (fun _ => .ite (fun _ => .pure trivial) fun _ => ?_) fun _ => ?_
    · exact .bind (ends_liftK_true _) fun _ _ => .pure trivial
    · exact .raise ((unknownSubcommand_text (by decide)).2 (h raw rest (by rw [hraw])))

theorem garbles_COMMAND {sub : Bytes} (rest : List Value) (h : ¬CrlfFree sub) :
    Garbles (COMMAND (.bytes sub :: rest) : M F _) := by
  intro r s
  refine ⟨_, ?_, fun hc => h ((unknownSubcommand_text (show NoCr (bs "COMMAND") by decide)).1 hc)⟩
  unfold COMMAND
  dsimp only
  rw [bind_ok r s (liftK_asBytes sub r s), if_neg fun hc => ne_of_not_crlfFree (by decide) h hc.1,
    if_neg (ne_of_not_crlfFree (by decide) h)]
  rfl

theorem ends_CLIENT {args : List Value} (h : CleanSub args) : Ends (fun _ => True) CleanExc (CLIENT args : M F _) := by
  unfold CLIENT
  split
  · exact .raise (Errors.crlfFree _)
  · rename_i sub rest
    refine .bind (ends_asBytes sub) ?_
    intro raw hraw
    refine .ite (fun _ => .pure trivial) ?_
    intro _
    refine .ite (fun _ => .pure trivial) ?_
    intro _
    refine .ite (fun _ => .pure trivial) ?_
    intro _
    refine .ite (fun _ => .pure trivial) ?_
    intro _
    exact .raise ((unknownSubcommand_text (by decide)).2 (h raw rest (by rw [hraw])))

theorem garbles_CLIENT {sub : Bytes} (rest : List Value) (h : ¬CrlfFree sub) : Garbles (CLIENT (.bytes sub :: rest) : M F _) := by
  intro r s
  refine ⟨_, ?_, fun hc => h ((unknownSubcommand_text (show NoCr (bs "CLIENT") by decide)).1 hc)⟩
  unfold CLIENT
  dsimp only
  have hne : ∀ lit, CrlfFree lit → upper sub ≠ lit := fun lit hl => ne_of_not_crlfFree hl h
  rw [bind_ok r s (liftK_asBytes sub r s), if_neg fun hc => hne _ (by decide) hc.1,
    if_neg fun hc => hne _ (by decide) hc.1, if_neg fun hc => hne _ (by decide) hc.1,
    if_neg fun hc => hne _ (by decide) hc.1]
  rfl

/-- The text of the error that quotes the parameter of CONFIG SET. -/
theorem configSet_text (param : Bytes) :
    CrlfFree (Errors.err (bs "Unknown option or number of arguments for CONFIG SET - '" ++ decodeAscii param ++ bs "'")).text ↔
      CrlfFree param :=
  crlfFree_quoting param (by decide) (by decide) (by decide)

/-- The text of the error that quotes the subcommand of CONFIG. -/
theorem config_text (sub : Bytes) :
    CrlfFree (Errors.err (bs "Unknown CONFIG subcommand or wrong number of arguments for " ++ decodeAscii (upper sub))).text ↔
      CrlfFree sub := by
  rw [crlfFree_err_iff, crlfFree_noCr_append (by decide), crlfFree_decodeAscii, crlfFree_upper]

theorem ends_configSet {param : Value} (value : Value) (h : ∀ p, param = .bytes p → CrlfFree p) :
    Ends (fun _ => True) CleanExc (configSet param value : M F _) := by
  refine .bind (ends_asBytes param) ?_
  intro p hp
  refine .ite (fun _ => ?_) fun _ => .raise ((configSet_text p).2 (h p hp))
  refine .bind (ends_liftK_true _) ?_
  intro _ _
  refine .ite (fun _ => .bind .modify fun _ _ => .pure trivial) ?_
  intro _
  exact .raise ((crlfFree_err_iff _).2 (by decide +kernel))

/-- A CONFIG request whose error would quote a CRLF from the name of a parameter. -/
def BadParam (args : List Value) : Prop :=
  ∃ sub param value, args = [.bytes sub, .bytes param, value] ∧ upper sub = bs "SET" ∧ ¬CrlfFree param

theorem ends_CONFIG {args : List Value} (h : CleanSub args) (hp : ¬BadParam args) :
    Ends (fun _ => True) CleanExc (CONFIG args : M F _) := by
  unfold CONFIG
  split
  · exact .raise (Errors.crlfFree _)
  · rename_i sub rest
    refine .bind (ends_asBytes sub) ?_
    intro raw hraw
    refine .ite (fun _ => ?_) fun _ => .ite (fun hset => ?_) fun _ => .raise ((config_text raw).2 (h raw rest (by rw [hraw])))
    · split
      · refine .bind (ends_liftK_true _) ?_
        intro _ _
        exact .bind .get fun _ _ => .pure trivial
      · exact .raise ((crlfFree_err_iff _).2 (by decide))
    · split
      · rename_i param value
        refine ends_configSet value ?_
        intro p hparam
        by_contra hc
        exact hp ⟨raw, p, value, by rw [hraw, hparam], hset, hc⟩
      · exact .raise ((crlfFree_err_iff _).2 (by decide))

theorem garbles_CONFIG_sub {sub : Bytes} (rest : List Value) (h : ¬CrlfFree sub) :
    Garbles (CONFIG (.bytes sub :: rest) : M F _) := by
  intro r s
  refine ⟨_, ?_, fun hc => h ((config_text sub).1 hc)⟩
  unfold CONFIG
  dsimp only
  rw [bind_ok r s (liftK_asBytes sub r s), if_neg (ne_of_not_crlfFree (by decide) h),
    if_neg (ne_of_not_crlfFree (by decide) h)]
  rfl

theorem garbles_CONFIG_param {args : List Value} (h : BadParam args) : Garbles (CONFIG args : M F _) := by
  obtain ⟨sub, param, value, rfl, hset, hp⟩ := h
  intro r s
  refine ⟨_, ?_, fun hc => hp ((configSet_text param).1 hc)⟩
  unfold CONFIG
  dsimp only
  have hne : lower param ≠ bs "notify-keyspace-events" := fun e =>
    hp ((crlfFree_lower param).1 (e ▸ (by decide)))
  rw [bind_ok r s (liftK_asBytes sub r s), if_neg (by rw [hset]; decide), if_pos hset, configSet,
    bind_ok r s (liftK_asBytes param r s), if_neg hne]
  rfl

/-- The text of the error that quotes the subcommand of PUBSUB. -/
theorem pubsub_text (sub : Bytes) :
    CrlfFree (Errors.err (bs "unknown subcommand '" ++ decodeAscii sub ++ bs "'. Try PUBSUB HELP.")).text ↔ CrlfFree sub :=
  crlfFree_quoting sub (by decide) (by decide) (by decide)

theorem ends_PUBSUB {args : List Value} (h : CleanSub args) : Ends (fun _ => True) CleanExc (PUBSUB args : M F _) := by
  unfold PUBSUB
  split
  · exact .raise (Errors.crlfFree _)
  · rename_i sub rest
    refine .bind (ends_asBytes sub) ?_
    intro raw hraw
    refine .ite (fun _ => ?_) fun _ => .ite (fun _ => ?_) fun _ => .ite (fun _ => ?_) fun _ => ?_
    · split
      · exact .bind (ends_liftK_true _) fun _ _ => .pure trivial
      · exact .bind (ends_liftK_true _) fun _ _ => .pure trivial
      · exact ends_liftK_true _
    · exact .bind (ends_liftK_true _) fun _ _ => .pure trivial
    · exact .bind .get fun _ _ => .pure trivial
    · exact .raise ((pubsub_text raw).2 (h raw rest (by rw [hraw])))

theorem garbles_PUBSUB {sub : Bytes} (rest : List Value) (h : ¬CrlfFree sub) : Garbles (PUBSUB (.bytes sub :: rest) : M F _) := by
  intro r s
  refine ⟨_, ?_, fun hc => h ((pubsub_text sub).1 hc)⟩
  unfold PUBSUB
  dsimp only
  have hne : ∀ lit, CrlfFree lit → upper sub ≠ lit := fun lit hl => ne_of_not_crlfFree hl h
  rw [bind_ok r s (liftK_asBytes sub r s), if_neg (hne _ (by decide)), if_neg (hne _ (by decide)),
    if_neg fun hc => hne _ (by decide) hc.1]
  rfl

end Kagni
