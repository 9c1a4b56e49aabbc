import Kagni.Lemmas.Settled

/-!
# Errors leave the data alone

A command of a server that was sent byte strings only, without notifications, raises before it writes or not at all, and its
reply can be sent. So an error means that the data is as it was. A nested array can be stored as the value of a string, which
the list commands take for a list without the methods of one: a move finds that out after the source has lost its item.
-/

namespace Kagni

open Lib Lib.Prog

variable {F : Type}

theorem head_joinLines (b : UInt8) (line : Bytes) (lines : List Bytes) : (joinLines ((b :: line) :: lines)).head? = some b := rfl

/-- Only an error starts with a minus sign. -/
theorem head_protocolBuilder {r : Reply} {frame : Bytes} (h : protocolBuilder r = some frame) : frame.head? ≠ some 45 := by
  cases r with
  | bytes b =>
    cases h
    rw [head_joinLines]
    decide
  | int n =>
    cases h
    rw [head_joinLines]
    decide
  | none => cases h
  | list items =>
    rw [protocolBuilder, _resp_dumps, Option.map_map] at h
    obtain ⟨lines, -, rfl⟩ := Option.map_eq_some_iff.1 h
    rw [Function.comp_apply, head_joinLines]
    decide
  | response r =>
    cases h
    cases r <;> decide
  | simple name =>
    cases h
    rw [head_joinLines]
    decide

variable [PyFloat F] {r : Env × Clock} {s : Server F}

theorem leavesData_keyspace (h : s.Settled) (hsound : PyFloat.Sound F) {c : Cmd} {method : List Value → K F Reply}
    (hm : handler c = .keyspace method) (hwhole : ¬(c = .BITFIELD ∨ c = .BITFIELD_RO)) {args : List Value}
    (hargs : AllBytes args) :
    LeavesData (runDecorated (liftK (method args))) r s := by
  have hfinishes := (h.watch hsound r).finishes_command hm ⟨fun _ => hargs, fun _ _ => trivial, fun hc => absurd hc hwhole⟩
    s.kstate (h.at_start hsound r)
  intro frame hframe hhead
  rw [runDecorated_run, decoratedFrame_liftK] at hframe
  rw [runDecorated_state, liftK_store]
  obtain rfl := Option.some.inj (Except.ok.inj hframe)
  revert hfinishes hhead
  change Outcome _ _ (method args (s.ctx r.1 r.2) s.kstate) → _
  cases method args (s.ctx r.1 r.2) s.kstate with
  | mk out k =>
    cases out with
    | error e => exact fun hk _ => (hk.2 trivial).1
    | ok reply =>
      intro hk hhead
      rcases hk.2 trivial with hencodes | hat
      · obtain ⟨frame, hbuild⟩ := Option.isSome_iff_exists.1 hencodes
        refine absurd ?_ (head_protocolBuilder hbuild)
        change (decoratedFrame (.ok reply)).head? = some 45 at hhead
        rwa [decoratedFrame, hbuild] at hhead
      · exact hat.1

/-- A request for a keyspace command is answered by the dispatcher or runs the command. -/
theorem leavesData_direct {q : Request} {c : Cmd} {method : List Value → K F Reply} (hc : Cmd.ofName q.name = some c)
    (hm : handler c = .keyspace method) (state : Option SessionId) (bypass_gate : Bool)
    (h : LeavesData (runDecorated (liftK (method q.args))) r s) : LeavesData (_dispatch_direct q state bypass_gate) r s := by
  unfold LeavesData
  rw [_dispatch_direct_eq]
  cases hroute : directRoute q state (s.subscribed state) bypass_gate with
  | answer frame => cases frame <;> exact fun _ _ _ => rfl
  | multi session =>
    rw [ofName_words (.inl (multi_of_directRoute hroute).1)] at hc
    cases hc
  | run c' =>
    obtain rfl := Option.some.inj (hc.symm.trans (run_of_directRoute hroute).1)
    dsimp only
    rw [hm]
    exact h

theorem leavesData_queued {q : Request} {c : Cmd} (hc : Cmd.ofName q.name = some c) (i : SessionId) :
    LeavesData (_dispatch_queued i q) r s := by
  unfold LeavesData
  rw [_dispatch_queued_eq]
  cases hroute : queuedRoute q with
  | answer frame => cases frame <;> exact fun _ _ _ => rfl
  | enqueue => exact fun _ _ _ => rfl
  | discard => exact fun _ _ _ => rfl
  | exec =>
    have hname : q.name = bs "EXEC" := by
      unfold queuedRoute at hroute
      grind
    rw [ofName_words (.inr (.inl hname))] at hc
    cases hc

/-- In every state of a server that was sent byte strings only and whose notifications were never turned on, a command whose
reply is an error leaves the data as it was. -/
theorem errors_leave_data (hsound : PyFloat.Sound F) (env : Env) {s : Server F} (h : s.Reached env (Request.Mute F)) :
    s.ErrorsLeaveData env := by
  intro c method hm hbitfield hbitfield_ro q hc hargs clock state
  have hsettled := h.settled hsound
  have hwhole : ¬(c = .BITFIELD ∨ c = .BITFIELD_RO) := not_or.2 ⟨hbitfield, hbitfield_ro⟩
  have hrun : LeavesData (runDecorated (liftK (method q.args))) (env, clock) s :=
    leavesData_keyspace hsettled hsound hm hwhole hargs
  refine ⟨?_, leavesData_direct hc hm state true hrun⟩
  unfold LeavesData
  obtain ⟨frame, hd⟩ | ⟨command, args, heq, ⟨-, hd⟩ | ⟨i, rfl, -, hd⟩⟩ :=
    dispatch_cases (.array (.bytes q.command :: q.args)) state (env, clock) s
  · rw [hd]
    exact fun _ _ _ => rfl
  · cases heq
    rw [hd]
    exact leavesData_direct hc hm state false hrun
  · cases heq
    rw [hd]
    exact leavesData_queued hc i

/-- A server with a list under `src` and something under `dst`. -/
def movable (dst : Value) : Server Int :=
  ((Server.init 0 none ∅ fun _ => true).step .plain (.send ⟨0, 0⟩ 0 [bs "RPUSH", bs "src", bs "a"])).step .plain
    (.request ⟨0, 0⟩ (some 0) (.array [.bytes (bs "SET"), .bytes (bs "dst"), dst]))

/-- The number of items of a list that a command made. -/
def Obj.itemCount : Obj F → Nat
  | .deque items => items.length
  | _ => 0

/-- The reply to RPOPLPUSH src dst, and how many items are left under `src`. -/
def moved (dst : Value) : Except Unit (Option Bytes) × Option Nat :=
  let out := dispatch (.array [.bytes (bs "RPOPLPUSH"), .bytes (bs "src"), .bytes (bs "dst")]) (some 0)
    (.plain, ⟨0, 0⟩) (movable dst)
  (out.1, ((out.2.data.toStore.content 0).value (.bytes (bs "src"))).map Obj.itemCount)

theorem mute_send (clock : Clock) (session : SessionId) (command : Bytes) (words : List Bytes)
    (h : Cmd.ofName (Request.name ⟨command, words.map .bytes⟩) ≠ some .CONFIG) :
    (Input.send clock session (command :: words)).Requests (Request.Mute F) := by
  refine ⟨fun v hv => ?_, fun hc => absurd hc h⟩
  obtain ⟨b, -, rfl⟩ := List.mem_map.1 hv
  trivial

/-- A move onto a string is refused, and the list keeps its item. -/
theorem errors_leave_data_movable : (movable (.bytes (bs "v"))).ErrorsLeaveData .plain ∧
    moved (.bytes (bs "v")) = (.ok (some Errors.WRONGTYPE.error.frame), some 1) := by
  refine ⟨errors_leave_data PyFloat.sound_int .plain (.step (.step (.start 0 none fun _ => true) ?_) ?_), by decide +kernel⟩
  · exact mute_send ⟨0, 0⟩ 0 (bs "RPUSH") [bs "src", bs "a"] (by decide)
  · exact mute_send ⟨0, 0⟩ 0 (bs "SET") [bs "dst", bs "v"] (by decide)

/-- A move onto an array fails, and the item is gone. -/
theorem errors_lose_data : (movable (.array [.bytes (bs "b")])).Reached .plain (fun _ => True) ∧
    (movable (.array [.bytes (bs "b")])).notify_keyspace_events = [] ∧
      ¬(movable (.array [.bytes (bs "b")])).ErrorsLeaveData .plain := by
  refine ⟨.step (.step (.start 0 none fun _ => true) trivial) trivial, by decide +kernel, fun h => ?_⟩
  have hmove := (h .RPOPLPUSH _ rfl (by decide) (by decide) ⟨bs "RPOPLPUSH", [.bytes (bs "src"), .bytes (bs "dst")]⟩ (by decide)
    (by simp [AllBytes]) ⟨0, 0⟩ (some 0)).1 (errFrame (bs "internal error")) (by decide +kernel) (by decide)
  have hleft := congrArg (fun m : Content Int => (m.value (.bytes (bs "src"))).map Obj.itemCount) hmove
  revert hleft
  decide +kernel

end Kagni
