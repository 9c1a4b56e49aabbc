import Kagni.Lemmas.Server

/-!
# The routes of a request

`_dispatch_direct` and `_dispatch_queued` either answer at once, or open, close or extend a transaction, or run a method. Which of
these they do depends on the request and on whether the session holds a subscription, and on nothing else; the routes below say it
once, and what is proved about the dispatcher goes by cases on them.
-/

namespace Kagni

open Lib Lib.Prog

variable {F : Type}

/-- What `_dispatch_direct` does: answer (`none` is an escaping exception), open a transaction, or run a method. -/
inductive Route where
  | answer (frame : Option Bytes)
  | multi (session : SessionId)
  | run (command : Cmd)
  deriving DecidableEq

/-- The frame of a gate error. -/
def gateFrame (request : Request) : Option Bytes := (_gate_label request).map fun label => errFrame (_GATE_TEXT label)

/-- The reply of PING in subscribed mode. -/
def pongFrame (request : Request) : Option Bytes :=
  protocolBuilder (.list [.bytes (bs "pong"), .ofValue (request.args.headD (.bytes []))])

/-- The route of a request outside of a transaction. -/
def directRoute (request : Request) (state : Option SessionId) (subscribed bypass_gate : Bool) : Route :=
  let name := request.name
  if !bypass_gate ∧ subscribed ∧ (name = bs "MULTI" ∨ name = bs "DISCARD") then .answer (gateFrame request)
  else if name = bs "MULTI" then
    match state with
    | none => .answer (some (errFrame (bs "MULTI requires a per-connection session")))
    | some session => .multi session
  else if name = bs "EXEC" then
    if subscribed then
      .answer (some (Error.frame ⟨bs "EXECABORT", bs "Transaction discarded because of: " ++ _GATE_TEXT (bs "exec")⟩))
    else .answer (some (errFrame (bs "EXEC without MULTI")))
  else if name = bs "DISCARD" then .answer (some (errFrame (bs "DISCARD without MULTI")))
  else match Cmd.ofName name with
    | none => .answer (_unknown_command_frame request)
    | some command =>
      if ¬command.Accepts request.args.length then .answer (some (Errors.arity command).error.frame)
      else if !bypass_gate ∧ subscribed ∧ command ∉ _ALLOWED_WHILE_SUBSCRIBED then .answer (gateFrame request)
      else if subscribed ∧ command = .PING then .answer (pongFrame request)
      else .run command

/-- Only a request whose name is that of a command and whose number of arguments is right is run. -/
theorem run_of_directRoute {request : Request} {state : Option SessionId} {subscribed bypass_gate : Bool} {c : Cmd}
    (h : directRoute request state subscribed bypass_gate = .run c) :
    Cmd.ofName request.name = some c ∧ c.Accepts request.args.length := by
  unfold directRoute at h
  grind

/-- None of the words of a transaction names a command. -/
theorem ofName_words {name : Text} (h : name = bs "MULTI" ∨ name = bs "EXEC" ∨ name = bs "DISCARD") : Cmd.ofName name = none := by
  rcases h with rfl | rfl | rfl <;> decide

/-- Only MULTI opens a transaction. -/
theorem multi_of_directRoute {request : Request} {state : Option SessionId} {subscribed bypass_gate : Bool} {session : SessionId}
    (h : directRoute request state subscribed bypass_gate = .multi session) :
    request.name = bs "MULTI" ∧ state = some session := by
  unfold directRoute at h
  grind

/-- A command that is answered at once has a wrong number of arguments, is stopped at the gate, or is the PING of subscribed
mode. -/
theorem answer_of_directRoute {request : Request} {state : Option SessionId} {subscribed bypass_gate : Bool}
    {frame : Option Bytes}
    (h : directRoute request state subscribed bypass_gate = .answer frame) {c : Cmd} (hc : Cmd.ofName request.name = some c) :
    ¬c.Accepts request.args.length ∨ (bypass_gate = false ∧ subscribed = true ∧ c ∉ _ALLOWED_WHILE_SUBSCRIBED) ∨
      (subscribed = true ∧ c = .PING) := by
  have hword : ∀ name, (name = bs "MULTI" ∨ name = bs "EXEC" ∨ name = bs "DISCARD") → request.name ≠ name := by
    intro name hname e
    rw [e, ofName_words hname] at hc
    cases hc
  unfold directRoute at h
  grind

/-- Answer with a frame that may be missing. -/
def answer : Option Bytes → D F (Option Bytes)
  | some frame => pure (some frame)
  | none => escape

/-- `MULTI`. -/
def openMulti (session : SessionId) : D F (Option Bytes) := do
  Prog.modify fun s => s.update session fun st => { st with in_multi := true, queue := [] }
  return protocolBuilder .OK

theorem answer_orEscape (frame : Option Bytes) :
    (do return some (← orEscape frame) : D F (Option Bytes)) = answer frame := by
  cases frame <;> rfl

theorem gateError_eq (request : Request) : (gateError request : D F _) = answer (gateFrame request) := by
  unfold gateError gateFrame
  cases _gate_label request <;> rfl

theorem answer_frame {frame? : Option Bytes} {r : Env × Clock} {s : Server F} {frame : Bytes}
    (h : (answer frame? r s).1 = .ok (some frame)) : frame? = some frame := by
  cases frame? with
  | none => cases h
  | some f => exact Except.ok.inj h

/-! ## Names -/

/-- The request names no command, and none of the three words the dispatcher handles itself. -/
def Unknown (q : Request) : Prop :=
  q.name ≠ bs "MULTI" ∧ q.name ≠ bs "EXEC" ∧ q.name ≠ bs "DISCARD" ∧ Cmd.ofName q.name = none

/-- The commands whose errors quote their subcommand. -/
def quotingCommands : List Cmd := [.CLIENT, .CONFIG, .COMMAND, .PUBSUB]

theorem name_of_ofName {name : Text} {c : Cmd} (h : Cmd.ofName name = some c) : name = c.name := by
  have := List.find?_some h
  exact (of_decide_eq_true this).symm

theorem mem_subcommand_iff {q : Request} {c : Cmd} (h : Cmd.ofName q.name = some c) :
    q.name ∈ _SUBCOMMAND_COMMANDS ↔ c ∈ quotingCommands := by
  rw [name_of_ofName h]
  revert c
  intro c _
  cases c <;> decide

theorem not_subcommand_of_words {name : Text} (h : name = bs "MULTI" ∨ name = bs "DISCARD") : name ∉ _SUBCOMMAND_COMMANDS := by
  rcases h with rfl | rfl <;> decide

/-! ## Running a method -/

/-- What a decorated method answers for an outcome of its body. -/
def decoratedFrame : Except (Exc Error) Reply → Bytes
  | .ok reply => (protocolBuilder reply).getD (onExc .other)
  | .error e => onExc e

/-- A decorated method always answers. -/
theorem runDecorated_run (m : M F Reply) (r : Env × Clock) (s : Server F) :
    runDecorated m r s = (.ok (some (decoratedFrame (m r s).1)), (m r s).2) := by
  unfold runDecorated
  rw [bind_run, attempt, decorated, bind_run]
  cases m r s with
  | mk out s' =>
    cases out with
    | error e => rfl
    | ok reply =>
      dsimp only [decoratedFrame]
      cases protocolBuilder reply <;> rfl

/-- What the dispatcher answers for an outcome of a session method; `error` is an escaping exception. -/
def sessionFrame : Except (Exc Error) (Option Reply) → Except Unit (Option Bytes)
  | .ok none => .ok none
  | .ok (some value) => match protocolBuilder value with
    | some frame => .ok (some frame)
    | none => .error ()
  | .error e => .ok (some (onExc e))

theorem runSession_run (m : M F (Option Reply)) (r : Env × Clock) (s : Server F) :
    runSession m r s = (sessionFrame (m r s).1, (m r s).2) := by
  unfold runSession
  rw [bind_run, attempt]
  cases m r s with
  | mk out s' =>
    cases out with
    | error e => rfl
    | ok value =>
      cases value with
      | none => rfl
      | some value =>
        dsimp only [sessionFrame]
        cases protocolBuilder value <;> rfl

/-- The session, if there is one, has a transaction open. -/
def Server.inMulti (s : Server F) (state : Option SessionId) : Bool := (state.map fun i => (s.sessions i).in_multi).getD false

variable [PyFloat F]

/-- `_dispatch_direct` goes by the route. -/
theorem _dispatch_direct_eq (request : Request) (state : Option SessionId) (bypass_gate : Bool) (r : Env × Clock) (s : Server F) :
    _dispatch_direct request state bypass_gate r s =
      match directRoute request state (s.subscribed state) bypass_gate with
      | .answer frame => answer frame r s
      | .multi session => openMulti session r s
      | .run command => runHandler (handler command) state request.args r s := by
  unfold _dispatch_direct directRoute
  rw [bind_ok r s (get_run r s)]
  dsimp only
  split
  · rw [gateError_eq]
  · split
    · cases state with
      | none => rfl
      | some session => rfl
    · split
      · split <;> rfl
      · split
        · rfl
        · cases Cmd.ofName request.name with
          | none => rw [answer_orEscape]
          | some command =>
            dsimp only
            split
            · rfl
            · split
              · rw [gateError_eq]
              · split
                · rw [answer_orEscape]
                  rfl
                · rfl

/-- What `_dispatch_queued` does. -/
inductive QueuedRoute where
  | exec
  | discard
  | answer (frame : Option Bytes)
  | enqueue
  deriving DecidableEq

/-- The route of a request inside a transaction. -/
def queuedRoute (request : Request) : QueuedRoute :=
  let name := request.name
  if name = bs "EXEC" then .exec
  else if name = bs "DISCARD" then .discard
  else if name = bs "MULTI" then .answer (some (errFrame (bs "MULTI calls can not be nested")))
  else if name = bs "WATCH" then .answer (some (errFrame (bs "WATCH inside MULTI is not allowed")))
  else match Cmd.ofName name with
    | none => .answer (_unknown_command_frame request)
    | some command =>
      if ¬command.Accepts request.args.length then .answer (some (Errors.arity command).error.frame) else .enqueue

/-- `DISCARD`. -/
def discard (session : SessionId) : D F (Option Bytes) := do
  Prog.modify fun s => s.update session fun st => { st with queue := [], in_multi := false, watched := ∅ }
  return protocolBuilder .OK

/-- Queue a command. -/
def enqueue (session : SessionId) (request : Request) : D F (Option Bytes) := do
  Prog.modify fun s => s.update session fun st => { st with queue := st.queue ++ [request] }
  return protocolBuilder (.response .QUEUED)

/-- `_dispatch_queued` goes by the route. -/
theorem _dispatch_queued_eq (session : SessionId) (request : Request) :
    (_dispatch_queued session request : D F _) = match queuedRoute request with
      | .exec => exec session
      | .discard => discard session
      | .answer frame => answer frame
      | .enqueue => enqueue session request := by
  unfold _dispatch_queued queuedRoute
  dsimp only
  split
  · rfl
  · split
    · rfl
    · split
      · rfl
      · split
        · rfl
        · cases Cmd.ofName request.name with
          | none => exact answer_orEscape _
          | some command =>
            dsimp only
            split <;> rfl

/-- A request outside of a transaction is handled at once. -/
theorem dispatch_direct {command : Bytes} {args : List Value} {state : Option SessionId} {s : Server F} (r : Env × Clock)
    (h : s.inMulti state = false) :
    dispatch (.array (.bytes command :: args)) state r s = _dispatch_direct ⟨command, args⟩ state false r s := by
  cases state with
  | none => rfl
  | some session =>
    change (do if ((← Prog.get).sessions session).in_multi then _ else _ : D F _) r s = _
    rw [bind_ok r s (get_run r s), if_neg]
    exact ne_true_of_eq_false h

/-- A request inside a transaction is handled by `_dispatch_queued`. -/
theorem dispatch_queued {command : Bytes} {args : List Value} {session : SessionId} {s : Server F} (r : Env × Clock)
    (h : (s.sessions session).in_multi = true) :
    dispatch (.array (.bytes command :: args)) (some session) r s = _dispatch_queued session ⟨command, args⟩ r s := by
  change (do if ((← Prog.get).sessions session).in_multi then _ else _ : D F _) r s = _
  rw [bind_ok r s (get_run r s), if_pos h]

/-- A message is answered without a command, or is a request handled at once, or one handled inside a transaction. -/
theorem dispatch_cases (message : Value) (state : Option SessionId) (r : Env × Clock) (s : Server F) :
    (∃ frame, dispatch message state r s = (.ok frame, s)) ∨
    ∃ command args, message = .array (.bytes command :: args) ∧
      ((s.inMulti state = false ∧ dispatch message state r s = _dispatch_direct ⟨command, args⟩ state false r s) ∨
        ∃ i, state = some i ∧ (s.sessions i).in_multi = true ∧
          dispatch message state r s = _dispatch_queued i ⟨command, args⟩ r s) := by
  by_cases h : ∃ command args, message = .array (.bytes command :: args)
  · obtain ⟨command, args, rfl⟩ := h
    refine .inr ⟨command, args, rfl, ?_⟩
    cases hm : s.inMulti state with
    | false => exact .inl ⟨rfl, dispatch_direct r hm⟩
    | true =>
      cases state with
      | none => cases hm
      | some i => exact .inr ⟨i, rfl, hm, dispatch_queued r hm⟩
  · left
    unfold dispatch
    split
    · rename_i command args
      exact absurd ⟨command, args, rfl⟩ h
    · exact ⟨_, rfl⟩
    · exact ⟨_, rfl⟩

end Kagni
